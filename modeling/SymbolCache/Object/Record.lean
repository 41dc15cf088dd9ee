import SymbolCache.Object.Kind
import SymbolCache.Json.Decoder

/-!
Records of application objects and of their procedures, and their JSON form.
-/

namespace SymbolCache

/-- One declared object; its name is the key under which it is cached. -/
structure ObjectRecord where
  name : String
  kind : ObjectKind
  id : Option Int
  app : Option String
  metadata : Dict Json
  deriving Repr

namespace ObjectRecord

def ofDeclaration (kind : ObjectKind) (id : Option Int) (name : String) : ObjectRecord :=
  ⟨name, kind, id, none, .empty⟩

def withMeta (record : ObjectRecord) (key : String) (value : Json) : ObjectRecord :=
  { record with metadata := record.metadata.insert key value }

def withMeta? (record : ObjectRecord) (key : String) (value : Option Json) : ObjectRecord :=
  match value with
  | some json => record.withMeta key json
  | none => record

def metaText? (record : ObjectRecord) (key : String) : Option String :=
  (record.metadata.get? key).bind Json.asText?

end ObjectRecord

structure ProcedureRecord where
  name : String
  parameters : List String
  returnType : Option String
  deriving Repr, DecidableEq

/-- The key of an object's procedures: its kind and its name. -/
def procedureKey (kind : ObjectKind) (name : String) : String := kind.keyword ++ ":" ++ name

structure SymbolTable where
  objects : List ObjectRecord
  procedures : Dict (List ProcedureRecord)
  deriving Repr

namespace SymbolTable

def empty : SymbolTable := ⟨[], .empty⟩

def addObject (table : SymbolTable) (record : ObjectRecord) : SymbolTable :=
  { table with objects := table.objects ++ [record] }

/-- Appends the objects of another table and assigns its procedures key by key. -/
def merge (table other : SymbolTable) : SymbolTable :=
  ⟨table.objects ++ other.objects, table.procedures.union other.procedures⟩

end SymbolTable

namespace Json

def entriesOf (key : String) (value : Option Json) : List (String × Json) :=
  match value with
  | some json => [(key, json)]
  | none => []

def ofRecord (record : ObjectRecord) : Json :=
  .object ([("name", .text record.name), ("type", .text record.kind.keyword)] ++
    entriesOf "id" (record.id.map .int) ++ entriesOf "app" (record.app.map .text) ++
    (if record.metadata.isEmpty then [] else [("metadata", ofDict id record.metadata)]))

def ofProcedure (procedure : ProcedureRecord) : Json :=
  .object ([("name", .text procedure.name), ("parameters", ofTexts procedure.parameters)] ++
    entriesOf "returnType" (procedure.returnType.map .text))

def ofProcedures (procedures : List ProcedureRecord) : Json := .array (procedures.map ofProcedure)

namespace Decoder

/-- A kind by its keyword, also as the only key of an object with the value null. -/
def kind : Decoder ObjectKind := fun levels json =>
  match levels, json with
  | _, .text keyword => ObjectKind.ofKeyword? keyword
  | _ + 1, .object [(keyword, .null)] => ObjectKind.ofKeyword? keyword
  | _, _ => none

def objectRecord : Decoder ObjectRecord :=
  record [⟨"name", false⟩, ⟨"type", false⟩, ⟨"id", true⟩, ⟨"app", true⟩, ⟨"metadata", true⟩]
    fun fields => do
      let name ← fields.required "name" text
      let kind ← fields.required "type" kind
      let id ← fields.optional "id" int64
      let app ← fields.optional "app" text
      let metadata ← fields.orDefault "metadata" (dict value) .empty
      return ⟨name, kind, id, app, metadata⟩

def procedure : Decoder ProcedureRecord :=
  record [⟨"name", false⟩, ⟨"parameters", true⟩, ⟨"returnType", true⟩] fun fields => do
    let name ← fields.required "name" text
    let parameters ← fields.orDefault "parameters" (list text) []
    let returnType ← fields.optional "returnType" text
    return ⟨name, parameters, returnType⟩

end Decoder

end Json

end SymbolCache
