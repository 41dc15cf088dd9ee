import SymbolCache.Json.Value

/-!
TOML documents while they are being read. A table remembers how it came about, because that
decides what may still be added to it.
-/

namespace SymbolCache.Toml

/-- How a table came about. -/
inductive Origin where
  | header
  /-- As part of the way to another table. -/
  | passing
  | dotted
  deriving DecidableEq, Repr

inductive Item where
  | value (json : Json)
  | table (origin : Origin) (entries : List (String × Item))
  | tables (items : List Item)
  deriving Repr, Inhabited

abbrev Entries := List (String × Item)

mutual

def Item.toJson : Item → Json
  | .value json => json
  | .table _ entries => .object (entriesToJson entries)
  | .tables items => .array (itemsToJson items)

def entriesToJson : List (String × Item) → List (String × Json)
  | [] => []
  | (key, item) :: rest => (key, item.toJson) :: entriesToJson rest

def itemsToJson : List Item → List Json
  | [] => []
  | item :: rest => item.toJson :: itemsToJson rest

end

def replaceEntry (entries : Entries) (key : String) (item : Item) : Entries :=
  if (entries.lookup key).isSome then
    entries.map fun entry => if entry.1 == key then (key, item) else entry
  else entries ++ [(key, item)]

/-- Changes the table at the end of a path, making the tables on the way. Values on the way are
refused, and so are finished tables on the way of a dotted key; of several tables the last one is
taken. -/
def modifyAt (dottedKey : Bool) (change : Origin → Entries → Option Entries) :
    List String → Origin → Entries → Option Entries
  | [], origin, entries => change origin entries
  | key :: rest, _, entries => do
    let fresh := if dottedKey then Origin.dotted else Origin.passing
    match (entries.lookup key).getD (.table fresh []) with
    | .value _ => none
    | .table origin inner =>
      if dottedKey && origin = .header then none
      else
        let changed ← modifyAt dottedKey change rest origin inner
        return replaceEntry entries key (.table origin changed)
    | .tables items =>
      match items.getLast? with
      | some (.table origin inner) =>
        let changed ← modifyAt dottedKey change rest origin inner
        return replaceEntry entries key (.tables (items.dropLast ++ [.table origin changed]))
      | _ => none

/-- Adds an entry under a dotted key. The table it goes to must have come about by dotted keys too,
unless the key has one part. -/
def insertKey (keys : List String) (value : Json) (entries : Entries) : Option Entries :=
  let path := keys.dropLast
  modifyAt true
    (fun origin inner =>
      let key := keys.getLastD ""
      if (decide (origin = .dotted)) == path.isEmpty then none
      else if (inner.lookup key).isSome then none
      else some (inner ++ [(key, .value value)]))
    path .header entries

/-- Opens the table of a header. It may only have been passed before. -/
def openTable (keys : List String) (entries : Entries) : Option Entries :=
  modifyAt false
    (fun _ inner =>
      let key := keys.getLastD ""
      match inner.lookup key with
      | none => some (inner ++ [(key, .table .header [])])
      | some (.table .passing old) => some (replaceEntry inner key (.table .header old))
      | some _ => none)
    keys.dropLast .header entries

def openNext (keys : List String) (entries : Entries) : Option Entries :=
  modifyAt false
    (fun _ inner =>
      let key := keys.getLastD ""
      match inner.lookup key with
      | none => some (inner ++ [(key, .tables [.table .header []])])
      | some (.tables items) =>
        some (replaceEntry inner key (.tables (items ++ [.table .header []])))
      | some _ => none)
    keys.dropLast .header entries

def insertIn (current keys : List String) (value : Json) (entries : Entries) : Option Entries :=
  modifyAt false (fun _ inner => insertKey keys value inner) current .header entries

end SymbolCache.Toml
