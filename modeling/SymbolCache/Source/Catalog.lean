import SymbolCache.Log
import SymbolCache.Source.Definition
import SymbolCache.Source.Files
import SymbolCache.Source.Procedure

/-!
The objects and procedures of an unpacked package: from its symbol document, or else from its
source files and legacy exports.
-/

namespace SymbolCache.Source

inductive Strategy where
  | document
  | sources
  deriving DecidableEq, Repr

def Strategy.name : Strategy → String
  | .document => "structured-document"
  | .sources => "source-text"

inductive CatalogError where
  | noMetadata (root : Path)
  | unreadable (path : Path) (cause : FileError)
  | notADocument (path : Path)
  deriving DecidableEq, Repr

def CatalogError.chain : CatalogError → List String
  | .noMetadata root => ["No metadata found in " ++ root]
  | .unreadable path cause => ["Failed to read " ++ path, cause.message]
  | .notADocument path => [path ++ " is not a symbol document"]

def documentPath (root : Path) : Path := Path.join root "SymbolReference.json"

def holdsObjects (tree : FileTree) (path : Path) : Bool :=
  isSourceFile path || match readLossy tree path with
    | .ok text => Legacy.isLegacy text
    | .error _ => false

def strategy? (tree : FileTree) (root : Path) : Option Strategy :=
  if tree.isFile (documentPath root) then some .document
  else if (objectFiles tree root).any (holdsObjects tree) then some .sources
  else none

/-- The units of a file: a source file is one, a legacy export has one per object. -/
def unitsOf (path : Path) (text : List Char) : List (List Char) :=
  if isSourceFile path then [text]
  else if Legacy.isLegacy text then Legacy.splitObjects text
  else []

def units (tree : FileTree) (root : Path) : List (List Char) :=
  (objectFiles tree root).flatMap fun path =>
    match readLossy tree path with
    | .ok text => unitsOf path text
    | .error _ => []

def addUnit (table : SymbolTable) (unit : List Char) : SymbolTable :=
  match definition? unit with
  | some (.unit record) => table.addObject record
  | some (.document other) => table.merge other
  | none => table

def collectProcedures (tree : FileTree) (root : Path) : Dict (List ProcedureRecord) :=
  (units tree root).foldl
    (fun found unit => match definition? unit with
      | some (.unit record) => found.insert (procedureKey record.kind record.name) (procedures unit)
      | _ => found)
    .empty

def readTable (tree : FileTree) (root : Path) (withProcedures : Bool) :
    Strategy → Except CatalogError SymbolTable
  | .document =>
    let path := documentPath root
    match readLossy tree path with
    | .error cause => .error (.unreadable path cause)
    | .ok text => match Symbols.read? text with
      | none => .error (.notADocument path)
      | some table => .ok (if withProcedures then table else { table with procedures := .empty })
  | .sources => .ok ((units tree root).foldl addUnit .empty)

/-- The files below a directory with a unit that declares no object, once for each such unit. -/
def undeclaredIn (tree : FileTree) (root : Path) : List Path :=
  (objectFiles tree root).flatMap fun path =>
    match readLossy tree path with
    | .ok text => ((unitsOf path text).filter fun unit => (definition? unit).isNone).map fun _ => path
    | .error _ => []

def catalogLog (tree : FileTree) (root : Path) : List LogEntry :=
  match strategy? tree root with
  | none => []
  | some strategy =>
    let undeclared := if strategy = .sources then undeclaredIn tree root else []
    ⟨.debug, "Parsing " ++ root ++ " with the " ++ strategy.name ++ " strategy"⟩ ::
      undeclared.map fun path => ⟨.debug, "No object declaration in " ++ path⟩

/-- The catalog of an unpacked package. Procedures found in source files win over those of a
symbol document. -/
def catalog (tree : FileTree) (root : Path) (withProcedures : Bool) :
    Except CatalogError SymbolTable := do
  match strategy? tree root with
  | none => .error (.noMetadata root)
  | some strategy =>
    let table ← readTable tree root withProcedures strategy
    if withProcedures then
      return { table with procedures := table.procedures.union (collectProcedures tree root) }
    else return table

end SymbolCache.Source
