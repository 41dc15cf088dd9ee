import SymbolCache.Command.Invocation
import SymbolCache.Command.Script
import SymbolCache.Query.Lookup

/-!
The command that asks the cache a question.
-/

namespace SymbolCache.Command

def parseKind (text : String) : Script ObjectKind :=
  Script.demand ("Unknown object type: " ++ text) (ObjectKind.parse? text.toList)

def searchLimit : Nat := 50

/-- The answer to a question as a JSON value with sorted keys. -/
def answer (store : Store) (index : FieldIndex) (question : Question) : Script Json := do
  match question.type with
  | "object" => return (Json.ofOption Json.ofRecord (store.object? question.target)).sorted
  | "id" => return Json.ofOption .int (store.objectId? question.target)
  | "procedures" =>
    let text ← Script.demand "--kind is required for procedure queries" question.kind
    let kind ← parseKind text
    return Json.ofProcedures (store.proceduresOf kind question.target)
  | "fields" => return Json.ofTexts (Query.fieldsOf store index question.target)
  | "source-table" => return Json.ofOption .text (Query.sourceTable? store index question.target)
  | "table-type" =>
    let path ← Script.demand "--source is required for table-type queries" question.source
    let text ← Script.take (fun cause => ["Failed to read " ++ path, FileError.message cause])
      ((← Script.files).readText path)
    return Json.ofOption .text (Query.tableType? store text question.target.toList)
  | "search" =>
    let kind ← question.kind.mapM parseKind
    return (Json.array ((Query.search store question.target kind searchLimit).map
      Json.ofRecord)).sorted
  | other => Script.fail ("Unknown query type: " ++ other)

def itemLine (item : Json) : String :=
  match item with
  | .text text => "  " ++ text
  | .object _ =>
    let shown (key : String) : String := ((item.get? key).bind Json.asText?).getD ""
    let id := ((item.get? "id").map Json.compact).getD ""
    "  " ++ shown "type" ++ " " ++ id ++ " " ++ shown "name"
  | other => "  " ++ other.compact

/-- An answer in words. -/
def answerLines (question : Question) : Json → List String
  | .null => ["No " ++ question.type ++ " result for '" ++ question.target ++ "'"]
  | .array [] => ["No " ++ question.type ++ " found for '" ++ question.target ++ "'"]
  | .array items => ("Found " ++ toString items.length ++ " results:") :: items.map itemLine
  | .text text => [text]
  | other => [other.compact]

def ask (environment : Environment) (dir : Path) (question : Question) (format : String) :
    Script Unit := do
  let project ← Project.load environment dir
  let result ← answer (← project.openStore) (← project.fieldIndex) question
  match format with
  | "json" => Script.say result.pretty
  | "text" => (answerLines question result).forM Script.say
  | other => Script.fail ("Unknown format: " ++ other)

end SymbolCache.Command
