import SymbolCache.Json.Decoder
import SymbolCache.Source.Declaration
import SymbolCache.Source.Property

/-!
What one source file adds to the field index.
-/

namespace SymbolCache

/-- Table fields and page sources from one file. -/
structure Contribution where
  tables : Dict TextSet
  pages : Dict (Option String)
  /-- The table that the file itself declares. -/
  declaredTable : Option String
  deriving DecidableEq, Repr

namespace Contribution

def empty : Contribution := ⟨.empty, .empty, none⟩

def isEmpty (contribution : Contribution) : Bool :=
  contribution.tables.isEmpty && contribution.pages.isEmpty

/-- The contribution of a source unit. -/
def ofSource (text : List Char) : Contribution :=
  let stripped := Lexical.stripComments .modern text
  match Source.declaration? stripped with
  | none => empty
  | some declaration =>
    let body := (Text.dropBytes declaration.endOffset stripped).getD []
    let fields := TextSet.ofList (Source.fieldNames body)
    match declaration.kind with
    | .table => ⟨Dict.empty.insert declaration.name fields, .empty, some declaration.name⟩
    | .tableExtension => match declaration.extends? with
      | some target => ⟨Dict.empty.insert target fields, .empty, none⟩
      | none => empty
    | .page => ⟨.empty, Dict.empty.insert declaration.name (Source.sourceTable? body), none⟩
    | _ => empty

end Contribution

namespace Json

def ofTextSet (set : TextSet) : Json := ofTexts set.toList

def ofContribution (contribution : Contribution) : Json :=
  .object ([("tables", ofDict ofTextSet contribution.tables),
    ("pages", ofDict (ofOption .text) contribution.pages)] ++
    (match contribution.declaredTable with
      | some name => [("declaredTable", .text name)]
      | none => []))

def Decoder.contribution : Decoder Contribution :=
  record [⟨"tables", true⟩, ⟨"pages", true⟩, ⟨"declaredTable", true⟩] fun fields => do
    let tables ← fields.orDefault "tables" (dict textSet) .empty
    let pages ← fields.orDefault "pages" (dict (option text)) .empty
    let declaredTable ← fields.optional "declaredTable" text
    return ⟨tables, pages, declaredTable⟩

end Json

end SymbolCache
