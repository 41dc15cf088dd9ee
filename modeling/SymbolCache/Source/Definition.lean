import SymbolCache.Legacy.Reader
import SymbolCache.Source.Declaration
import SymbolCache.Source.Property
import SymbolCache.Symbols.Document

/-!
Object definitions: a symbol document, a legacy object or a modern source unit.
-/

namespace SymbolCache.Source

inductive Definition where
  | document (table : SymbolTable)
  | unit (record : ObjectRecord)

/-- Metadata that depends on the kind of a unit, from the text after its declaration. -/
def withBody (record : ObjectRecord) (body : List Char) : ObjectRecord :=
  match record.kind with
  | .table | .tableExtension =>
    let fields := fieldNames body
    if fields.isEmpty then record else record.withMeta "fields" (.ofTexts fields)
  | .page => record.withMeta? "sourceTable" ((sourceTable? body).map .text)
  | .report | .reportExtension =>
    match Lexical.locate .modern "dataset".toList body with
    | .found block => record.withMeta "dataItems" (.ofTexts (dataItems (block.inner body)))
    | _ => record
  | _ => record

def modernRecord? (text : List Char) : Option ObjectRecord := do
  let stripped := Lexical.stripComments .modern text
  let declaration ← declaration? stripped
  let body := (Text.dropBytes declaration.endOffset stripped).getD []
  let record := ObjectRecord.ofDeclaration declaration.kind declaration.id declaration.name
  let record := record.withMeta? "extends" (declaration.extends?.map .text)
  let record := record.withMeta? "caption" ((caption? body).map .text)
  return withBody record body

def legacyRecord? (object : Legacy.Object) : Option ObjectRecord := do
  let kind ← object.kind?
  let record := ObjectRecord.ofDeclaration kind (some object.id) object.name
  let record := record.withMeta "legacy" (.bool true)
  let record := record.withMeta? "caption" ((object.property? "CaptionML").map .text)
  let record := record.withMeta? "sourceTable" ((object.property? "SourceTable").map .text)
  let record := record.withMeta? "versionList"
    ((Legacy.propertyValue? object.objectProperties "Version List").map .text)
  if object.fields.isEmpty then return record
  else return record.withMeta "fields" (.ofTexts (object.fields.map Legacy.Field.name))

/-- Recognizes a definition; none when the text declares nothing that is known. -/
def definition? (raw : List Char) : Option Definition :=
  let text := Text.dropByteOrderMarks raw
  if (Text.trimStart text).head? == some '{' then (Symbols.read? text).map .document
  else if Legacy.isLegacy text then
    ((Legacy.readObject? text).bind legacyRecord?).map .unit
  else (modernRecord? text).map .unit

end SymbolCache.Source
