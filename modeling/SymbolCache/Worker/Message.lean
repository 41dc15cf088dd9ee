import SymbolCache.FieldIndex.Basic
import SymbolCache.Json.Printer
import SymbolCache.Json.Reader
import SymbolCache.Object.Record

/-!
Messages between a coordinator and its workers, one JSON object a line, told apart by their entry
`type`.
-/

namespace SymbolCache

structure ProcessOptions where
  cachePath : Path
  /-- Directory in which packages are unpacked, each in its own subdirectory. -/
  extractPath : Path
  enableSrcExtraction : Bool
  srcExtractionPath : Option Path
  logLevel : String
  extractProcedures : Bool
  deriving DecidableEq, Repr

structure FieldOptions where
  srcExtractionPath : Path
  /-- Directory of the saved field index. -/
  globalStoragePath : Path
  /-- Restricts the update to the sources of one application. -/
  appName : Option String
  logLevel : String
  deriving DecidableEq, Repr

inductive Request where
  | process (appPath : Path) (options : ProcessOptions)
  | updateFields (options : FieldOptions)
  | setLogLevel (level : String)
  deriving DecidableEq, Repr

inductive Reply where
  | progress (message : String)
  | warning (message : String)
  | error (message : String) (stack : Option String) (appPath : Option Path)
  | success (symbols : List ObjectRecord) (procedures : Dict (List ProcedureRecord)) (appPath : Path)
  | fields (index : FieldIndex)
  | fieldsError (message : String)
  deriving Repr

namespace Reply

def kind : Reply → String
  | .progress _ => "progress"
  | .warning _ => "warning"
  | .error .. => "error"
  | .success .. => "success"
  | .fields _ => "fieldCacheData"
  | .fieldsError _ => "fieldCacheError"

/-- Whether the reply ends the processing of a package. -/
def isTerminal : Reply → Bool
  | .error .. | .success .. => true
  | _ => false

end Reply

namespace Json

def ofProcessOptions (options : ProcessOptions) : Json :=
  .object ([("cachePath", .text options.cachePath), ("extractPath", .text options.extractPath),
    ("enableSrcExtraction", .bool options.enableSrcExtraction)] ++
    entriesOf "srcExtractionPath" (options.srcExtractionPath.map .text) ++
    [("logLevel", .text options.logLevel), ("extractProcedures", .bool options.extractProcedures)])

def ofFieldOptions (options : FieldOptions) : Json :=
  .object ([("srcExtractionPath", .text options.srcExtractionPath),
    ("globalStoragePath", .text options.globalStoragePath)] ++
    entriesOf "appName" (options.appName.map .text) ++ [("logLevel", .text options.logLevel)])

def ofRequest : Request → Json
  | .process appPath options => .object [("type", .text "process"), ("appPath", .text appPath),
      ("options", ofProcessOptions options)]
  | .updateFields options => .object [("type", .text "updateFieldCache"),
      ("options", ofFieldOptions options)]
  | .setLogLevel level => .object [("type", .text "setLogLevel"), ("logLevel", .text level)]

def replyEntries : Reply → List (String × Json)
  | .progress message => [("message", .text message)]
  | .warning message => [("message", .text message)]
  | .error message stack appPath => ("message", .text message) ::
      (entriesOf "stack" (stack.map .text) ++ entriesOf "appPath" (appPath.map .text))
  | .success symbols procedures appPath => [("symbols", .array (symbols.map ofRecord)),
      ("procedures", ofDict ofProcedures procedures), ("appPath", .text appPath)]
  | .fields index => [("tableFieldsCache", ofTableFields index.tableFields),
      ("pageSourceTableCache", ofPageSources index.pageSources),
      ("metadata", ofWatermarks index.watermarks),
      ("contributions", ofContributions index.contributions)]
  | .fieldsError message => [("message", .text message)]

def ofReply (reply : Reply) : Json := .object (("type", .text reply.kind) :: replyEntries reply)

/-- The type of a message and its other content, as an object or as an array. All of it is read,
known or not. -/
def tagged? (json : Json) : Option (String × Json) :=
  match json with
  | .object entries =>
    match entries.partition fun entry => entry.1 == "type" with
    | ([(_, .text tag)], others) => do
      let _ ← plainEntries? (maxNesting - 1) others
      return (tag, .object others)
    | _ => none
  | .array (.text tag :: others) => do
    let _ ← plainItems? (maxNesting - 1) others
    return (tag, .array others)
  | _ => none

namespace Decoder

def processOptions : Decoder ProcessOptions :=
  record [⟨"cachePath", false⟩, ⟨"extractPath", false⟩, ⟨"enableSrcExtraction", true⟩,
      ⟨"srcExtractionPath", true⟩, ⟨"logLevel", true⟩, ⟨"extractProcedures", true⟩] fun fields => do
    let cachePath ← fields.required "cachePath" text
    let extractPath ← fields.required "extractPath" text
    let enableSrcExtraction ← fields.orDefault "enableSrcExtraction" bool false
    let srcExtractionPath ← fields.optional "srcExtractionPath" text
    let logLevel ← fields.orDefault "logLevel" text "warn"
    let extractProcedures ← fields.orDefault "extractProcedures" bool true
    return ⟨cachePath, extractPath, enableSrcExtraction, srcExtractionPath, logLevel,
      extractProcedures⟩

def fieldOptions : Decoder FieldOptions :=
  record [⟨"srcExtractionPath", false⟩, ⟨"globalStoragePath", false⟩, ⟨"appName", true⟩,
      ⟨"logLevel", true⟩] fun fields => do
    let srcExtractionPath ← fields.required "srcExtractionPath" text
    let globalStoragePath ← fields.required "globalStoragePath" text
    let appName ← fields.optional "appName" text
    let logLevel ← fields.orDefault "logLevel" text "warn"
    return ⟨srcExtractionPath, globalStoragePath, appName, logLevel⟩

def requestOf (tag : String) : Decoder Request :=
  match tag with
  | "process" => record [⟨"appPath", false⟩, ⟨"options", false⟩] fun fields => do
      let appPath ← fields.required "appPath" text
      let options ← fields.required "options" processOptions
      return .process appPath options
  | "updateFieldCache" => record [⟨"options", false⟩] fun fields => do
      return .updateFields (← fields.required "options" fieldOptions)
  | "setLogLevel" => record [⟨"logLevel", false⟩] fun fields => do
      return .setLogLevel (← fields.required "logLevel" text)
  | _ => fun _ _ => none

def replyOf (tag : String) : Decoder Reply :=
  match tag with
  | "progress" => record [⟨"message", false⟩] fun fields => do
      return .progress (← fields.required "message" text)
  | "warning" => record [⟨"message", false⟩] fun fields => do
      return .warning (← fields.required "message" text)
  | "error" => record [⟨"message", false⟩, ⟨"stack", true⟩, ⟨"appPath", true⟩] fun fields => do
      let message ← fields.required "message" text
      let stack ← fields.optional "stack" text
      let appPath ← fields.optional "appPath" text
      return .error message stack appPath
  | "success" => record [⟨"symbols", false⟩, ⟨"procedures", false⟩, ⟨"appPath", false⟩]
      fun fields => do
        let symbols ← fields.required "symbols" (list objectRecord)
        let procedures ← fields.required "procedures" (dict (list procedure))
        let appPath ← fields.required "appPath" text
        return .success symbols procedures appPath
  | "fieldCacheData" => record [⟨"tableFieldsCache", false⟩, ⟨"pageSourceTableCache", false⟩,
      ⟨"metadata", false⟩, ⟨"contributions", true⟩] fun fields => do
        let tables ← fields.required "tableFieldsCache" tableFields
        let pages ← fields.required "pageSourceTableCache" pageSources
        let marks ← fields.required "metadata" watermarks
        let ledger ← fields.orDefault "contributions" contributions .empty
        return .fields ⟨tables, pages, marks, ledger⟩
  | "fieldCacheError" => record [⟨"message", false⟩] fun fields => do
      return .fieldsError (← fields.required "message" text)
  | _ => fun _ _ => none

end Decoder

def request? (line : List Char) : Option Request := do
  let (tag, content) ← tagged? (← parse? line)
  decode? (Decoder.requestOf tag) content

def reply? (line : List Char) : Option Reply := do
  let (tag, content) ← tagged? (← parse? line)
  decode? (Decoder.replyOf tag) content

end Json

end SymbolCache
