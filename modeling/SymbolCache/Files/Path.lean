import SymbolCache.Text.Basic

/-!
Paths as texts with slashes, and their components. Empty components and dots count for nothing,
except for a dot at the very start.
-/

namespace SymbolCache

abbrev Path := String

inductive Component where
  | root
  | here
  | up
  | name (text : String)
  deriving DecidableEq, Repr

namespace Component

/-- Rank of the kind of a component; names come last. -/
def rank : Component → Nat
  | .root => 0
  | .here => 1
  | .up => 2
  | .name _ => 3

def before (a b : Component) : Bool :=
  match a, b with
  | .name x, .name y => decide (x < y)
  | _, _ => decide (a.rank < b.rank)

end Component

namespace Path

def isAbsolute (path : Path) : Bool := path.toList.head? == some '/'

def parts (path : Path) : List String := (Text.splitAt '/' path.toList).map String.ofList

def component (part : String) : Component := if part == ".." then .up else .name part

def components (path : Path) : List Component :=
  let start : List Component :=
    if isAbsolute path then [.root]
    else if (parts path).head? == some "." then [.here] else []
  start ++ ((parts path).filter fun part => part != "" && part != ".").map component

/-- The name a path ends in; none when it ends in the root, a dot or two dots. -/
def fileName? (path : Path) : Option String :=
  match (components path).getLast? with
  | some (.name text) => some text
  | _ => none

/-- A file name before and after its last dot; a dot at the start divides nothing. -/
def splitName (name : String) : String × Option String :=
  match Text.cutAtLast? '.' name.toList with
  | some (stem, ext) =>
    if stem.isEmpty then (name, none) else (String.ofList stem, some (String.ofList ext))
  | none => (name, none)

def extension? (path : Path) : Option String := (fileName? path).bind fun name => (splitName name).2

/-- Appends a path; an absolute one replaces everything before it. -/
def join (base addition : Path) : Path :=
  if isAbsolute addition then addition
  else if base == "" || base.toList.getLast? == some '/' then base ++ addition
  else base ++ "/" ++ addition

def startsWith (path base : Path) : Bool := (components base).isPrefixOf (components path)

def orderBefore : List Component → List Component → Bool
  | [], [] => false
  | [], _ :: _ => true
  | _ :: _, [] => false
  | a :: as, b :: bs => if a = b then orderBefore as bs else a.before b

def before (a b : Path) : Bool := orderBefore (components a) (components b)

def sort (paths : List Path) : List Path := paths.mergeSort fun a b => !before b a

/-- Drops slashes and dots from the front of a reversed path, but not its root. -/
def dropTail : List Char → List Char
  | '/' :: c :: rest => dropTail (c :: rest)
  | '.' :: '/' :: rest => dropTail ('/' :: rest)
  | text => text

def trimTail (text : List Char) : List Char := (dropTail text.reverse).reverse

def parent? (path : Path) : Option Path :=
  match (components path).getLast? with
  | none | some .root => none
  | some _ =>
    let whole := trimTail path.toList
    let kept := whole.reverse.dropWhile (· != '/')
    match kept with
    | [] => some ""
    | _ => some (String.ofList (trimTail kept.reverse))

/-- The path with the extension of its file name replaced. -/
def withExtension (path : Path) (ext : String) : Path :=
  match fileName? path with
  | none => path
  | some name =>
    let whole := trimTail path.toList
    let directory := whole.take (whole.length - name.length)
    String.ofList directory ++ (splitName name).1 ++ (if ext == "" then "" else "." ++ ext)

def componentText : Component → String
  | .root => "/"
  | .here => "."
  | .up => ".."
  | .name text => text

end Path

end SymbolCache
