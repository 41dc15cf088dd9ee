import SymbolCache.Dict
import SymbolCache.Decimal.Shortest

/-!
JSON values. Objects keep their entries in order, repeated keys included, because readers of typed
data refuse a repetition that readers of plain values accept.
-/

namespace SymbolCache

inductive Json where
  | null
  | bool (value : Bool)
  | int (value : Int)
  | float (value : Binary64)
  | text (value : String)
  | array (items : List Json)
  | object (entries : List (String × Json))
  /-- Well-formed text without a value: a number out of range, or a string or key with half of a
  surrogate pair. It may stand only where nobody looks. -/
  | unrepresentable
  deriving Repr, Inhabited, BEq

namespace Json

def ofTexts (texts : List String) : Json := .array (texts.map .text)

def ofOption {α : Type} (f : α → Json) : Option α → Json
  | none => .null
  | some value => f value

def ofDict {α : Type} (f : α → Json) (dict : Dict α) : Json :=
  .object (dict.entries.map fun (key, value) => (key, f value))

/-- Entry of an object; the last one of several with the same key. -/
def get? (value : Json) (key : String) : Option Json :=
  match value with
  | .object entries => entries.reverse.lookup key
  | _ => none

def asText? : Json → Option String
  | .text value => some value
  | _ => none

def asBool? : Json → Option Bool
  | .bool value => some value
  | _ => none

mutual

/-- A plain value with at most so many levels of arrays and objects: keys sorted, the last of
several equal keys kept. -/
def plain? (levels : Nat) : Json → Option Json
  | .unrepresentable => none
  | .array items => match levels with
    | 0 => none
    | inner + 1 => (plainItems? inner items).map .array
  | .object entries => match levels with
    | 0 => none
    | inner + 1 =>
      (plainEntries? inner entries).map fun plain => .object (Dict.ofList plain).entries
  | value => some value

def plainItems? (levels : Nat) : List Json → Option (List Json)
  | [] => some []
  | item :: rest => do
    let first ← plain? levels item
    let others ← plainItems? levels rest
    return first :: others

def plainEntries? (levels : Nat) : List (String × Json) → Option (List (String × Json))
  | [] => some []
  | (key, item) :: rest => do
    let first ← plain? levels item
    let others ← plainEntries? levels rest
    return (key, first) :: others

end

mutual

/-- The same value with the keys of all objects in order. -/
def sorted : Json → Json
  | .array items => .array (sortedItems items)
  | .object entries => .object (Dict.ofList (sortedEntries entries)).entries
  | value => value

def sortedItems : List Json → List Json
  | [] => []
  | item :: rest => sorted item :: sortedItems rest

def sortedEntries : List (String × Json) → List (String × Json)
  | [] => []
  | (key, item) :: rest => (key, sorted item) :: sortedEntries rest

end

end Json

end SymbolCache
