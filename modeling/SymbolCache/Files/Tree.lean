import SymbolCache.Files.Path
import SymbolCache.Text.Utf8

/-!
File trees as values: directories and files by their location, and the operations on them with the
ways in which they fail. There are no links, so a location determines a file.
-/

namespace SymbolCache

inductive FileError where
  | notFound
  | notDirectory
  | isDirectory
  | alreadyExists
  | notEmpty
  | nameTooLong
  | invalidName
  | invalidText
  | cutOff
  | invalidChecksum
  | corruptData
  | incompleteData
  deriving DecidableEq, Repr

def FileError.message : FileError → String
  | .notFound => "No such file or directory (os error 2)"
  | .notDirectory => "Not a directory (os error 20)"
  | .isDirectory => "Is a directory (os error 21)"
  | .alreadyExists => "File exists (os error 17)"
  | .notEmpty => "Directory not empty (os error 39)"
  | .nameTooLong => "File name too long (os error 36)"
  | .invalidName => "file name contained an unexpected NUL byte"
  | .invalidText => "stream did not contain valid UTF-8"
  | .cutOff => "failed to fill whole buffer"
  | .invalidChecksum => "Invalid checksum"
  | .corruptData => "corrupt deflate stream"
  | .incompleteData => "incomplete deflate stream"

/-- The names on the way from the root to a file or directory. -/
abbrev Location := List String

inductive FileNode where
  | directory
  /-- A file with its content and its modification time in milliseconds since the epoch. -/
  | file (content : Bytes) (modified : Int)
  deriving DecidableEq, Repr

structure FileTree where
  /-- Everything below the root, each location once. -/
  nodes : List (Location × FileNode)
  workingDir : Location
  /-- The present time in milliseconds since the epoch; every write takes one. -/
  clock : Int
  deriving DecidableEq, Repr

namespace FileTree

def empty (clock : Int) : FileTree := ⟨[], [], clock⟩

def node? (tree : FileTree) (location : Location) : Option FileNode :=
  if location.isEmpty then some .directory else tree.nodes.lookup location

def put (tree : FileTree) (location : Location) (node : FileNode) : FileTree :=
  { tree with nodes := (tree.nodes.filter fun entry => entry.1 != location) ++ [(location, node)] }

def isBelow (root location : Location) : Bool := root.isPrefixOf location

def prune (tree : FileTree) (location : Location) : FileTree :=
  { tree with nodes := tree.nodes.filter fun entry => !isBelow location entry.1 }

def drop (tree : FileTree) (location : Location) : FileTree :=
  { tree with nodes := tree.nodes.filter fun entry => entry.1 != location }

def directoryAt (tree : FileTree) (location : Location) : Except FileError Unit :=
  match tree.node? location with
  | some .directory => .ok ()
  | some (.file _ _) => .error .notDirectory
  | none => .error .notFound

def checkName (name : String) : Except FileError Unit :=
  if 255 < name.utf8ByteSize then .error .nameTooLong else .ok ()

/-- Follows the parts of a path from a directory. The last name need not exist; all before it must
be directories. -/
def follow (tree : FileTree) : Location → List String → Except FileError Location
  | here, [] => .ok here
  | here, part :: rest =>
    match tree.directoryAt here with
    | .error cause => .error cause
    | .ok () =>
      if part == "" || part == "." then follow tree here rest
      else if part == ".." then follow tree here.dropLast rest
      else match checkName part with
        | .error cause => .error cause
        | .ok () => follow tree (here ++ [part]) rest

def pathLimit : Nat := 4096

def locate (tree : FileTree) (path : Path) : Except FileError Location :=
  if path.toList.contains (Char.ofNat 0) then .error .invalidName
  else if path == "" then .error .notFound
  else if pathLimit ≤ path.utf8ByteSize then .error .nameTooLong
  else tree.follow (if Path.isAbsolute path then [] else tree.workingDir) (Path.parts path)

def stat (tree : FileTree) (path : Path) : Except FileError FileNode := do
  let location ← tree.locate path
  match tree.node? location with
  | some node => .ok node
  | none => .error .notFound

def pathExists (tree : FileTree) (path : Path) : Bool := (tree.stat path).isOk

def isDirectory (tree : FileTree) (path : Path) : Bool :=
  match tree.stat path with
  | .ok .directory => true
  | _ => false

def isFile (tree : FileTree) (path : Path) : Bool :=
  match tree.stat path with
  | .ok (.file _ _) => true
  | _ => false

def read (tree : FileTree) (path : Path) : Except FileError Bytes := do
  match ← tree.stat path with
  | .directory => .error .isDirectory
  | .file content _ => .ok content

def readText (tree : FileTree) (path : Path) : Except FileError (List Char) := do
  match Text.decodeUtf8? (← tree.read path) with
  | some text => .ok text
  | none => .error .invalidText

/-- Modification time of a file; directories have that of the clock. -/
def modified (tree : FileTree) (path : Path) : Except FileError Int := do
  match ← tree.stat path with
  | .directory => .ok tree.clock
  | .file _ modified => .ok modified

def writeAt (tree : FileTree) (path : Path) (content : Bytes) (modified : Int) :
    Except FileError FileTree := do
  let location ← tree.locate path
  match tree.node? location with
  | some .directory => .error .isDirectory
  | some (.file _ _) => .ok (tree.put location (.file content modified))
  | none =>
    if path.toList.getLast? == some '/' then .error .isDirectory
    else
      tree.directoryAt location.dropLast
      .ok (tree.put location (.file content modified))

def write (tree : FileTree) (path : Path) (content : Bytes) : Except FileError FileTree :=
  { tree with clock := tree.clock + 1 }.writeAt path content (tree.clock + 1)

def dropSlashes (path : Path) : Path :=
  let kept := Text.dropEndWhile (· == '/') path.toList
  if kept.isEmpty then path else String.ofList kept

def makeDir (tree : FileTree) (path : Path) : Except FileError FileTree := do
  let location ← tree.locate (dropSlashes path)
  match tree.node? location with
  | some _ => .error .alreadyExists
  | none =>
    tree.directoryAt location.dropLast
    .ok (tree.put location .directory)

def ensureDir (tree : FileTree) (path : Path) : Except FileError FileTree :=
  match tree.makeDir path with
  | .ok made => .ok made
  | .error cause => if tree.isDirectory path then .ok tree else .error cause

/-- Makes a directory and those above it, trying so many levels. -/
def makeDirsUpTo (tree : FileTree) : Nat → Path → Except FileError FileTree
  | 0, _ => .error .notFound
  | levels + 1, path =>
    if path == "" then .ok tree
    else match tree.ensureDir path with
      | .ok made => .ok made
      | .error .notFound =>
        match Path.parent? path with
        | none => .error .notFound
        | some parent => do
          let above ← tree.makeDirsUpTo levels parent
          above.ensureDir path
      | .error cause => .error cause

def makeDirs (tree : FileTree) (path : Path) : Except FileError FileTree :=
  tree.makeDirsUpTo (path.length + 1) path

/-- The tree in which an attempt over so many levels to make a directory and those above it fails:
those made on the way stay. -/
def unfinishedDirsUpTo (tree : FileTree) : Nat → Path → FileTree
  | 0, _ => tree
  | levels + 1, path =>
    match tree.ensureDir path, Path.parent? path with
    | .error .notFound, some parent =>
      match tree.makeDirsUpTo levels parent with
      | .ok above => above
      | .error _ => tree.unfinishedDirsUpTo levels parent
    | _, _ => tree

def unfinishedDirs (tree : FileTree) (path : Path) : FileTree :=
  tree.unfinishedDirsUpTo (path.length + 1) path

def removeDirs (tree : FileTree) (path : Path) : Except FileError FileTree := do
  let location ← tree.locate path
  tree.directoryAt location
  .ok (tree.prune location)

def removeFile (tree : FileTree) (path : Path) : Except FileError FileTree := do
  let location ← tree.locate path
  match tree.node? location with
  | none => .error .notFound
  | some .directory => .error .isDirectory
  | some (.file _ _) => .ok (tree.drop location)

def renameFile (tree : FileTree) (source target : Path) : Except FileError FileTree := do
  let start ← tree.locate source
  let goal ← tree.locate target
  match tree.node? start, tree.node? goal with
  | none, _ => .error .notFound
  | some _, some .directory => .error .isDirectory
  | some node, _ =>
    tree.directoryAt goal.dropLast
    .ok ((tree.drop start).put goal node)

def childNames (tree : FileTree) (location : Location) : List String :=
  let names := tree.nodes.filterMap fun entry =>
    if entry.1.dropLast == location && !entry.1.isEmpty then entry.1.getLast? else none
  names.mergeSort fun a b => !decide (b < a)

/-- Everything at or below a location, depth first, as relative names with their nodes. -/
def below (tree : FileTree) : Nat → Location → List (List String × FileNode)
  | 0, _ => []
  | depth + 1, location =>
    match tree.node? location with
    | none => []
    | some (.file content modified) => [([], .file content modified)]
    | some .directory =>
      ([], .directory) :: (tree.childNames location).flatMap fun name =>
        (below tree depth (location ++ [name])).map fun (names, node) => (name :: names, node)

def height (tree : FileTree) : Nat := tree.nodes.foldl (fun n entry => max n entry.1.length) 0

/-- Everything at or below a path, each with its path, depth first. -/
def walk (tree : FileTree) (root : Path) : List (Path × FileNode) :=
  match tree.locate root with
  | .error _ => []
  | .ok location =>
    (tree.below (tree.height + 1) location).map fun (names, node) =>
      (names.foldl Path.join root, node)

def filesUnder (tree : FileTree) (root : Path) : List Path :=
  (tree.walk root).filterMap fun entry => match entry.2 with
    | .file _ _ => some entry.1
    | .directory => none

end FileTree

end SymbolCache
