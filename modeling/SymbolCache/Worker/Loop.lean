import SymbolCache.FieldIndex.Snapshot
import SymbolCache.FieldIndex.Update
import SymbolCache.Package.Extraction
import SymbolCache.Source.Catalog
import SymbolCache.Worker.Message

/-!
The request loop of a worker. Every request to process a package is answered by exactly one
success or error, whatever fails on the way; the scratch directory of the package is removed in
every case.
-/

namespace SymbolCache.Worker

inductive Verdict where
  | accepted
  | refused (reason : String)
  /-- Writing breaks off; the text says why, if there is one. -/
  | broken (reason : Option String)
  deriving DecidableEq, Repr

structure Session where
  tree : FileTree
  written : List Reply
  /-- The number of messages sent, refused ones included. -/
  attempts : Nat
  level : LogLevel
  log : List LogEntry

namespace Session

def start (tree : FileTree) : Session := ⟨tree, [], 0, .warn, []⟩

def record (session : Session) (entries : List LogEntry) : Session :=
  { session with log := session.log ++ entries.filter fun entry => entry.isShownAt session.level }

def resume (session : Session) (space : Workspace) : Session :=
  { session with tree := space.tree }.record space.log

end Session

inductive Fault where
  /-- An error, as its message and those of its causes. -/
  | error (chain : List String)
  | broken (reason : Option String)
  deriving DecidableEq, Repr

def refusalChain (reason : String) : List String := ["JSON error: " ++ reason, reason]

abbrev Step (ε : Type) := ExceptT ε (StateM Session)

/-- Sends a message; `verdict` says what becomes of the n-th one. -/
def deliver (verdict : Nat → Verdict) (reply : Reply) : StateM Session Verdict := fun session =>
  let outcome := verdict session.attempts
  (outcome,
    { session with
      attempts := session.attempts + 1
      written := if outcome = .accepted then session.written ++ [reply] else session.written })

def send (verdict : Nat → Verdict) (reply : Reply) : Step Fault Unit := do
  match ← (deliver verdict reply : StateM Session Verdict) with
  | .accepted => return
  | .refused reason => throw (.error (refusalChain reason))
  | .broken reason => throw (.broken reason)

def note (entries : List LogEntry) : Step Fault Unit := modify fun session => session.record entries

def attempt {ε α : Type} (action : FileAction ε α) : Step Fault (Except ε α) := fun session =>
  let (result, space) := action ⟨session.tree, []⟩
  (.ok result, session.resume space)

def onFiles {ε α : Type} (wrap : ε → Fault) (action : FileAction ε α) : Step Fault α := do
  match ← attempt action with
  | .ok value => return value
  | .error cause => throw (wrap cause)

/-- Runs steps and then an action on the files, whether the steps failed or not. -/
def cleaningUp {α : Type} (steps : Step Fault α) (cleanup : FileAction Fault Unit) :
    Step Fault α := fun session =>
  let (result, after) := steps session
  (result, (attempt cleanup after).2)

structure CopyRun where
  copied : Nat
  /-- The first message about a copied file that was refused. -/
  refusal : Option String

def reportCopy (verdict : Nat → Verdict) (run : CopyRun) (relative : Path) : Step Fault CopyRun := do
  let counted := { run with copied := run.copied + 1 }
  if run.refusal.isSome then return counted
  else
    match ← (deliver verdict (.progress ("Extracted source " ++ relative)) : StateM Session Verdict) with
    | .accepted => return counted
    | .refused reason => return { counted with refusal := some reason }
    | .broken reason => throw (.broken reason)

/-- Copies the source files among entries and tells of each one. The second part of the result is
the error that ended the copying. -/
def copyAll (verdict : Nat → Verdict) (path dest : Path) (run : CopyRun) :
    List Archive.Entry → Step Fault (CopyRun × Option ExtractionError)
  | [] => return (run, none)
  | entry :: rest => do
    match ← attempt (Package.copySource path dest entry) with
    | .error cause => return (run, some cause)
    | .ok none => copyAll verdict path dest run rest
    | .ok (some relative) =>
      let reported ← reportCopy verdict run relative
      copyAll verdict path dest reported rest

def copySources (verdict : Nat → Verdict) (path dest : Path) (fileName : String)
    (entries : List Archive.Entry) : Step Fault Unit := do
  match Artifact.ofPath? path with
  | none =>
    note [⟨.warn, "Cannot derive app name and version from " ++ path⟩]
    send verdict (.warning ("Cannot derive app name and version from " ++ fileName))
  | some artifact =>
    let target := artifact.sourceDir dest
    let (run, failure) ← copyAll verdict path target ⟨0, none⟩ entries
    if failure.isNone then
      note [⟨.info, "Extracted " ++ toString run.copied ++ " source files of " ++
        artifact.appName ++ " " ++ artifact.appVersion ++ " to " ++ target⟩]
    match run.refusal, failure with
    | some reason, _ => throw (.error (refusalChain reason))
    | none, none => send verdict (.progress ("Extracted " ++ toString run.copied ++ " source files"))
    | none, some cause =>
      let message := "Source extraction failed: " ++ cause.message
      note [⟨.warn, message⟩]
      send verdict (.warning message)

def withApp (table : SymbolTable) (fileName : String) : SymbolTable :=
  { table with objects := table.objects.map fun record => { record with app := some fileName } }

def processPackage (verdict : Nat → Verdict) (path : Path) (options : ProcessOptions) :
    Step Fault SymbolTable := do
  let fileName := (Path.fileName? path).getD ""
  send verdict (.progress ("Extracting " ++ fileName))
  let unpacked ← onFiles (fun cause => .error cause.chain) (Package.unpack options.extractPath path)
  cleaningUp
    (do
      note [⟨.info, "Unpacked " ++ toString unpacked.fileCount ++ " files from " ++ fileName⟩]
      match options.enableSrcExtraction, options.srcExtractionPath with
      | true, some dest => copySources verdict path dest fileName unpacked.entries
      | _, _ => pure ()
      send verdict (.progress ("Parsing " ++ fileName))
      let tree := (← get).tree
      note (Source.catalogLog tree unpacked.root)
      match Source.catalog tree unpacked.root options.extractProcedures with
      | .ok table =>
        note [⟨.info, fileName ++ ": " ++ toString table.objects.length ++ " objects, " ++
          toString table.procedures.size ++ " procedure lists"⟩]
        return withApp table fileName
      | .error cause => throw (.error (("Failed to read metadata from " ++ fileName) :: cause.chain)))
    (Package.removeScratch unpacked.root)

def chainText (chain : List String) : String := ": ".intercalate chain

def hangIndent (indent : String) (text : String) : String :=
  ("\n" ++ indent).intercalate ((Text.splitAt '\n' text.toList).map String.ofList)

/-- A list of messages with the causes below the first one, numbered when there are several. -/
def chainReport (chain : List String) : String :=
  match chain with
  | [] => ""
  | [message] => message
  | [message, cause] => message ++ "\n\nCaused by:\n    " ++ hangIndent "    " cause
  | message :: causes => message ++ "\n\nCaused by:" ++
      String.join ((List.range causes.length).zip causes |>.map fun (number, cause) =>
        "\n    " ++ toString number ++ ": " ++ hangIndent "       " cause)

def terminalReply (path : Path) : Except Fault SymbolTable → Reply
  | .ok table => .success table.objects table.procedures path
  | .error (.error chain) => .error (chainText chain) (some (chainReport chain)) (some path)
  | .error (.broken reason) =>
    .error ("Worker panicked: " ++ reason.getD "unknown panic") none (some path)

def handleProcess (verdict : Nat → Verdict) (path : Path) (options : ProcessOptions) :
    Step Fault Unit := fun session =>
  let leveled := { session with level := .parse options.logLevel }
  let (outcome, after) := processPackage verdict path options leveled
  send verdict (terminalReply path outcome) after

def fieldRoot (options : FieldOptions) : Path :=
  match options.appName with
  | some app => Path.join options.srcExtractionPath (sanitizeSegment app)
  | none => options.srcExtractionPath

/-- Updates the saved field index and sends it. A refused message about the progress does not
matter. -/
def handleFields (verdict : Nat → Verdict) (options : FieldOptions) : Step Fault Unit := do
  modify fun session => { session with level := .parse options.logLevel }
  let tree := (← get).tree
  let previous := FieldIndex.load tree options.globalStoragePath
  note (FieldIndex.loadLog tree options.globalStoragePath)
  note (FieldIndex.updateLog tree (fieldRoot options) previous)
  let (index, stats) := FieldIndex.update tree (fieldRoot options) previous
  if stats.changed then
    let message := "Field index: " ++ toString stats.parsed ++ " files parsed, " ++
      toString stats.removed ++ " removed"
    match ← (deliver verdict (.progress message) : StateM Session Verdict) with
    | .broken reason => throw (.broken reason)
    | _ => pure ()
  send verdict (.fields index)

def handleLine (verdict : Nat → Verdict) (line : List Char) : Step Fault Unit :=
  if (Text.trim line).isEmpty then pure ()
  else match Json.request? line with
    | none => send verdict (.error "Invalid request: not a request of this protocol" none none)
    | some (.process path options) => handleProcess verdict path options
    | some (.updateFields options) => handleFields verdict options
    | some (.setLogLevel name) => modify fun session => { session with level := .parse name }

/-- Answers lines in order, up to the first message that cannot be written. -/
def run (verdict : Nat → Verdict) : List (List Char) → Step Fault Unit
  | [] => pure ()
  | line :: rest => do
    handleLine verdict line
    run verdict rest

def always : Nat → Verdict := fun _ => .accepted

def serve (tree : FileTree) (lines : List (List Char)) : Session := (run always lines (.start tree)).2

end SymbolCache.Worker
