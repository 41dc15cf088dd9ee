import SymbolCache.FieldIndex.Contribution
import SymbolCache.Files.Path

/-!
The field index: fields by table and source tables by page, kept up to date with a ledger of what
each file contributes. Table names are joined regardless of ASCII case.
-/

namespace SymbolCache

structure FieldIndex where
  tableFields : Dict (List String)
  pageSources : Dict (Option String)
  /-- Modification time of each file when it was last read, in milliseconds. -/
  watermarks : Dict Binary64
  contributions : Dict Contribution
  deriving DecidableEq, Repr

namespace FieldIndex

def empty : FieldIndex := ⟨.empty, .empty, .empty, .empty⟩

instance : Inhabited FieldIndex := ⟨empty⟩

def sameTable (a b : String) : Bool := Text.sameWord a.toList b.toList

/-- What is contributed to one table under any of its spellings. -/
structure TableShare where
  name : String
  fields : List String
  declared : Bool
  deriving DecidableEq, Repr

def tableShares (contributions : Dict Contribution) (table : String) : List TableShare :=
  contributions.values.flatMap fun contribution =>
    (contribution.tables.entries.filter fun (name, _) => sameTable name table).map
      fun (name, fields) =>
        ⟨name, fields.toList, contribution.declaredTable == some name⟩

def least? : List String → Option String
  | [] => none
  | first :: rest => some (rest.foldl (fun best text => if text < best then text else best) first)

/-- The name a table goes by: that of its last declaration, else its least spelling. -/
def tableName? (shares : List TableShare) : Option String :=
  match (shares.filter TableShare.declared).getLast? with
  | some share => some share.name
  | none => least? (shares.map TableShare.name)

def unionFields (shares : List TableShare) : List String :=
  (shares.foldl (fun set share => TextSet.union set share.fields) Dict.empty).toList

def recomputeTable (index : FieldIndex) (table : String) : FieldIndex :=
  let shares := tableShares index.contributions table
  let others := index.tableFields.filter fun name _ => !sameTable name table
  { index with
    tableFields := match tableName? shares with
      | some name => others.insert name (unionFields shares)
      | none => others }

def pageShares (contributions : Dict Contribution) (page : String) : List (Option String) :=
  contributions.values.filterMap fun contribution => contribution.pages.get? page

/-- Computes the entry of one page anew from the ledger: the last source given for it. -/
def recomputePage (index : FieldIndex) (page : String) : FieldIndex :=
  let shares := pageShares index.contributions page
  { index with
    pageSources :=
      if shares.isEmpty then index.pageSources.erase page
      else index.pageSources.insert page (shares.filterMap id).getLast? }

def recompute (index : FieldIndex) (tables pages : List String) : FieldIndex :=
  pages.foldl recomputePage (tables.foldl recomputeTable index)

def apply (index : FieldIndex) (path : String) (contribution : Contribution) : FieldIndex :=
  let previous := (index.contributions.get? path).getD .empty
  let tables := TextSet.ofList (contribution.tables.keys ++ previous.tables.keys)
  let pages := TextSet.ofList (contribution.pages.keys ++ previous.pages.keys)
  let ledger := { index with contributions := index.contributions.insert path contribution }
  ledger.recompute tables.toList pages.toList

def retract (index : FieldIndex) (path : String) : FieldIndex :=
  let unmarked := { index with watermarks := index.watermarks.erase path }
  match index.contributions.get? path with
  | none => unmarked
  | some previous =>
    let ledger := { unmarked with contributions := index.contributions.erase path }
    ledger.recompute previous.tables.keys previous.pages.keys

/-- Fields of a table by its exact name, else by the first name equal to it regardless of ASCII
case. -/
def fieldsOf? (index : FieldIndex) (table : String) : Option (List String) :=
  match index.tableFields.get? table with
  | some fields => some fields
  | none => (index.tableFields.entries.find? fun (name, _) => sameTable name table).map Prod.snd

/-- Source table of a page: unknown, known to have none, or its name. -/
def sourceOf? (index : FieldIndex) (page : String) : Option (Option String) :=
  index.pageSources.get? page

def pathsUnder (index : FieldIndex) (root : Path) : List Path :=
  index.watermarks.keys.filter fun path => Path.startsWith path root

end FieldIndex

namespace Json

def ofTableFields (fields : Dict (List String)) : Json := ofDict ofTexts fields

def ofPageSources (sources : Dict (Option String)) : Json := ofDict (ofOption .text) sources

def ofWatermarks (watermarks : Dict Binary64) : Json := ofDict .float watermarks

def ofContributions (contributions : Dict Contribution) : Json :=
  ofDict ofContribution contributions

def ofFieldIndex (index : FieldIndex) : Json :=
  .object [("tableFields", ofTableFields index.tableFields),
    ("pageSources", ofPageSources index.pageSources),
    ("watermarks", ofWatermarks index.watermarks),
    ("contributions", ofContributions index.contributions)]

namespace Decoder

def tableFields : Decoder (Dict (List String)) := dict (list text)

def pageSources : Decoder (Dict (Option String)) := dict (option text)

def watermarks : Decoder (Dict Binary64) := dict float

def contributions : Decoder (Dict Contribution) := dict contribution

def fieldIndex : Decoder FieldIndex :=
  record [⟨"tableFields", false⟩, ⟨"pageSources", false⟩, ⟨"watermarks", false⟩,
      ⟨"contributions", false⟩] fun fields => do
    return ⟨← fields.required "tableFields" tableFields,
      ← fields.required "pageSources" pageSources,
      ← fields.required "watermarks" watermarks,
      ← fields.required "contributions" contributions⟩

end Decoder

end Json

end SymbolCache
