import SymbolCache.Refresh.Report
import SymbolCache.Store.Snapshot
import SymbolCache.Worker.Peer

/-!
Refreshing the cache: every package is given to a worker, the answers are merged, and the result is
committed to the store at once. Packages whose sources are there and whose objects are cached are
skipped and keep their objects.
-/

namespace SymbolCache.Refresh

structure Options where
  packages : PackageSettings
  packageDirs : List Path
  cacheDir : Path
  scratchDir : Path
  sourceDir : Path
  extractSources : Bool
  extractProcedures : Bool
  logLevel : String
  deriving DecidableEq, Repr

def Options.of (settings : Settings) (places : Places) : Options :=
  { packages := settings.packages
    packageDirs := places.packageDirs
    cacheDir := places.cacheDir
    scratchDir := places.scratchDir
    sourceDir := places.sourceDir
    extractSources := settings.extraction.sources
    extractProcedures := settings.extraction.procedures
    logLevel := settings.logging.level }

inductive Outcome where
  | succeeded (symbols : List ObjectRecord) (procedures : Dict (List ProcedureRecord))
  | failed (message : String) (benign : Bool)

structure Coordinator where
  options : Options
  program : Worker.Program
  logLevel : String
  fieldWorker : Worker.FieldWorker
  /-- Set while a refresh is under way. -/
  running : Bool
  packageLog : List LogEntry
  deriving DecidableEq, Repr

namespace Coordinator

def new (options : Options) (program : Worker.Program) : Coordinator :=
  ⟨options, program, options.logLevel, .new program, false, []⟩

def setLogLevel (coordinator : Coordinator) (level : String) : Coordinator :=
  { coordinator with logLevel := level }

def processOptions (coordinator : Coordinator) : ProcessOptions :=
  { cachePath := coordinator.options.cacheDir
    extractPath := coordinator.options.scratchDir
    enableSrcExtraction := coordinator.options.extractSources
    srcExtractionPath := some coordinator.options.sourceDir
    logLevel := coordinator.logLevel
    extractProcedures := coordinator.options.extractProcedures }

def fieldOptions (coordinator : Coordinator) (app : Option String) : FieldOptions :=
  { srcExtractionPath := coordinator.options.sourceDir
    globalStoragePath := coordinator.options.cacheDir
    appName := app
    logLevel := coordinator.logLevel }

def log (coordinator : Coordinator) : List LogEntry :=
  coordinator.packageLog ++ coordinator.fieldWorker.log

def updateFields (coordinator : Coordinator) (app : Option String) (tree : FileTree) :
    Except WorkerError FieldIndex × Coordinator × FileTree :=
  let (result, fieldWorker, after) :=
    coordinator.fieldWorker.update (coordinator.fieldOptions app) tree
  (result, { coordinator with fieldWorker }, after)

end Coordinator

/-- What the messages of a worker come to: the events they cause and the first result among
them. -/
structure Hearing where
  events : List Event
  result : Option Outcome

def isBenignMessage (message : String) : Bool :=
  Text.occursIn ExtractionError.notAnArchiveMark.toList message.toList

def Hearing.hear (hearing : Hearing) (path : Path) : Reply → Hearing
  | .progress message => { hearing with events := hearing.events ++ [.progress path message] }
  | .warning message => { hearing with events := hearing.events ++ [.warning path message] }
  | .success symbols procedures _ =>
    { hearing with result := hearing.result.or (some (.succeeded symbols procedures)) }
  | .error message _ _ =>
    { hearing with result := hearing.result.or (some (.failed message (isBenignMessage message))) }
  | .fields _ | .fieldsError _ => hearing

/-- Takes in all lines of a worker up to the first one that is no message. -/
def listen (path : Path) (hearing : Hearing) : List (List Char) → Hearing × Option WorkerError
  | [] => (hearing, none)
  | line :: rest =>
    match (Worker.Peer.nextMessage [line]).1 with
    | .ok none => listen path hearing rest
    | .ok (some reply) => listen path (hearing.hear path reply) rest
    | .error cause => (hearing, some cause)

/-- What is there after a worker has had a package. -/
structure Consultation where
  events : List Event
  outcome : Outcome
  log : List LogEntry
  tree : FileTree

def consult (program : Worker.Program) (path : Path) (options : ProcessOptions) (tree : FileTree) :
    Consultation :=
  match Worker.Peer.start program with
  | .error cause => ⟨[], .failed cause.message false, [], tree⟩
  | .ok process =>
    match process.send (.process path options) tree with
    | (.error cause, after) => ⟨[], .failed cause.message false, [], after⟩
    | (.ok sent, after) =>
      let (code, ended) := sent.wait
      match listen path ⟨[], none⟩ ended.unread with
      | (hearing, some cause) =>
        ⟨hearing.events, .failed cause.message false, ended.log, after⟩
      | (hearing, none) =>
        let crash := WorkerError.crashed
          ("exited with " ++ Worker.Peer.exitText code ++ " before reporting a result")
        ⟨hearing.events, hearing.result.getD (.failed crash.message false), ended.log, after⟩

structure Finished where
  artifact : Artifact
  outcome : Outcome

namespace Finished

def report (finished : Finished) : PackageReport :=
  match finished.outcome with
  | .succeeded symbols _ => ⟨finished.artifact, .succeeded, none, false, symbols.length⟩
  | .failed message benign => ⟨finished.artifact, .failed, some message, benign, 0⟩

def events (finished : Finished) : List Event :=
  match finished.outcome with
  | .succeeded .. => [.stateChanged finished.artifact.path .succeeded]
  | .failed message benign => [.error finished.artifact.path message benign,
      .stateChanged finished.artifact.path .failed]

def symbols (finished : Finished) : List ObjectRecord :=
  match finished.outcome with
  | .succeeded symbols _ => symbols
  | .failed .. => []

def procedures (finished : Finished) : Dict (List ProcedureRecord) :=
  match finished.outcome with
  | .succeeded _ procedures => procedures
  | .failed .. => .empty

def isSuccess (finished : Finished) : Bool :=
  match finished.outcome with
  | .succeeded .. => true
  | .failed .. => false

end Finished

structure Run where
  tree : FileTree
  events : List Event
  finished : List Finished
  log : List LogEntry

def Run.process (program : Worker.Program) (options : ProcessOptions) (run : Run)
    (artifact : Artifact) : Run :=
  let consultation := consult program artifact.path options run.tree
  let finished : Finished := ⟨artifact, consultation.outcome⟩
  { tree := consultation.tree
    events := run.events ++ [.stateChanged artifact.path .running] ++ consultation.events ++
      finished.events
    finished := run.finished ++ [finished]
    log := run.log ++ consultation.log }

/-- Whether a package need not be processed: its objects are cached and its sources are there. -/
def isSkipped (options : Options) (store : Store) (tree : FileTree) (artifact : Artifact) : Bool :=
  options.extractSources &&
    (store.objects.values.any fun record => record.app == some artifact.fileName) &&
    Package.hasSources tree artifact options.sourceDir

def carriedOver (store : Store) (skipped : List Artifact) : Dict ObjectRecord :=
  Dict.ofList ((store.objects.values.filter fun record =>
    record.app.any fun app => skipped.any fun artifact => artifact.fileName == app).map
      fun record => (record.name, record))

/-- The objects after a refresh: those of skipped packages, then those of each package in the
order in which they finished. -/
def mergedObjects (store : Store) (skipped : List Artifact) (finished : List Finished) :
    Dict ObjectRecord :=
  (carriedOver store skipped).insertAll
    ((finished.flatMap Finished.symbols).map fun record => (record.name, record))

def committed (store : Store) (skipped : List Artifact) (finished : List Finished) : Store :=
  (store.replaceObjects (mergedObjects store skipped finished)).mergeProcedures
    (finished.flatMap fun item => item.procedures.entries)

def reportOf (skipped : List Artifact) (finished : List Finished) (artifact : Artifact) :
    PackageReport :=
  if skipped.contains artifact then ⟨artifact, .skipped, none, false, 0⟩
  else match finished.find? fun item => item.artifact = artifact with
    | some item => item.report
    | none => ⟨artifact, .pending, none, false, 0⟩

structure Result where
  /-- None when the refresh was turned away. -/
  report : Option Report
  events : List Event
  coordinator : Coordinator
  store : Store
  tree : FileTree

/-- A refresh that has begun: its packages are known, and no other refresh can begin. -/
structure Begun where
  coordinator : Coordinator
  store : Store
  tree : FileTree
  artifacts : List Artifact
  skipped : List Artifact

def begin? (coordinator : Coordinator) (store : Store) (tree : FileTree) : Option Begun :=
  if coordinator.running then none
  else
    let options := coordinator.options
    let artifacts := Package.discover tree options.packageDirs options.packages
    some
      { coordinator := { coordinator with running := true }
        store
        tree
        artifacts
        skipped := artifacts.filter (isSkipped options store tree) }

namespace Begun

def remaining (begun : Begun) : List Artifact :=
  begun.artifacts.filter fun artifact =>
    !isSkipped begun.coordinator.options begun.store begun.tree artifact

def events (begun : Begun) : List Event :=
  .started begun.artifacts.length ::
    begun.skipped.map fun artifact => .stateChanged artifact.path .skipped

def consultAll (begun : Begun) (order : List Artifact) : Run :=
  order.foldl (Run.process begun.coordinator.program begun.coordinator.processOptions)
    ⟨begun.tree, [], [], []⟩

def updateFields (begun : Begun) (run : Run) (tree : FileTree) : Coordinator × FileTree :=
  if begun.coordinator.options.extractSources && run.finished.any Finished.isSuccess then
    let (_, coordinator, after) := begun.coordinator.updateFields none tree
    (coordinator, after)
  else (begun.coordinator, tree)

/-- Ends a refresh whose workers are done: commits what they found, saves it and brings the field
index up to date. -/
def conclude (begun : Begun) (run : Run) : Result :=
  let merged := committed begun.store begun.skipped run.finished
  let (_, saved) := merged.save.on run.tree
  let (coordinator, final) := begun.updateFields run saved
  { report := some
      { artifacts := begun.artifacts.map (reportOf begun.skipped run.finished)
        objectCount := merged.objects.size
        procedureCount := merged.procedureCount }
    events := run.events ++ [.committed merged.objects.size merged.procedureCount]
    coordinator := { coordinator with
      running := false, packageLog := coordinator.packageLog ++ run.log }
    store := merged
    tree := final }

def finish (begun : Begun) (order : List Artifact) : Result :=
  begun.conclude (begun.consultAll order)

end Begun

def turnedAway (coordinator : Coordinator) (store : Store) (tree : FileTree) : Result :=
  ⟨none, [.alreadyRunning], coordinator, store, tree⟩

/-- Refreshes all packages; `order` is the order in which the workers finish. -/
def refreshIn (order : List Artifact → List Artifact) (coordinator : Coordinator) (store : Store)
    (tree : FileTree) : Result :=
  match begin? coordinator store tree with
  | none => turnedAway coordinator store tree
  | some begun =>
    let result := begun.finish (order begun.remaining)
    { result with events := begun.events ++ result.events }

def refresh (coordinator : Coordinator) (store : Store) (tree : FileTree) : Result :=
  refreshIn id coordinator store tree

/-- A refresh and a second one that is asked for while the first is under way. The events of both
are in the first result. -/
def overlapping (coordinator : Coordinator) (store : Store) (tree : FileTree) : Result × Result :=
  match begin? coordinator store tree with
  | none => (turnedAway coordinator store tree, turnedAway coordinator store tree)
  | some begun =>
    let second := refresh begun.coordinator begun.store begun.tree
    let first := begun.finish begun.remaining
    ({ first with events := begun.events ++ second.events ++ first.events }, second)

end SymbolCache.Refresh
