import SymbolCache.Worker.Loop

/-!
Worker processes as values: the lines they have written and nobody has read yet, and whether they
still run.
-/

namespace SymbolCache

inductive WorkerError where
  | spawnFailed (reason : String)
  | crashed (reason : String)
  | protocol (reason : String)
  /-- The worker itself reports an error. -/
  | remote (message : String)
  | pipe (reason : String)
  | snapshot (cause : SnapshotError)
  deriving DecidableEq, Repr

namespace WorkerError

def message : WorkerError → String
  | .spawnFailed reason => "failed to spawn worker: " ++ reason
  | .crashed reason => "worker process crashed: " ++ reason
  | .protocol reason => "worker protocol violation: " ++ reason
  | .remote text => "worker reported an error: " ++ text
  | .pipe reason => "IO error: " ++ reason
  | .snapshot cause => cause.message

def chain : WorkerError → List String
  | .pipe reason => [message (.pipe reason), reason]
  | .snapshot cause => cause.chain
  | error => [error.message]

end WorkerError

namespace Worker

inductive Program where
  | missing (path : Path)
  | requestLoop
  /-- Takes one line, writes fixed lines and ends. -/
  | scripted (output : List (List Char)) (code : Nat)
  deriving DecidableEq, Repr

structure Peer where
  program : Program
  inputOpen : Bool
  unread : List (List Char)
  exitCode : Option Nat
  /-- What it has logged and nobody has shown. -/
  log : List LogEntry
  deriving DecidableEq, Repr

namespace Peer

def start (program : Program) : Except WorkerError Peer :=
  match program with
  | .missing path => .error (.spawnFailed (path ++ ": " ++ FileError.notFound.message))
  | _ => .ok ⟨program, true, [], none, []⟩

def isAlive (peer : Peer) : Bool := peer.exitCode.isNone

def replyLine (reply : Reply) : List Char := (Json.ofReply reply).compactChars

/-- Sends a request; the process answers at once. -/
def send (peer : Peer) (request : Request) (tree : FileTree) :
    Except WorkerError Peer × FileTree :=
  if !peer.inputOpen then (.error (.protocol "worker stdin already closed"), tree)
  else if !peer.isAlive then (.error (.pipe "Broken pipe (os error 32)"), tree)
  else match peer.program with
    | .missing _ => (.error (.crashed "not started"), tree)
    | .requestLoop =>
      let session := serve tree [(Json.ofRequest request).compactChars]
      (.ok { peer with
        unread := peer.unread ++ session.written.map replyLine
        log := peer.log ++ session.log }, session.tree)
    | .scripted output code =>
      (.ok { peer with unread := peer.unread ++ output, exitCode := some code }, tree)

def closeInput (peer : Peer) : Peer :=
  if !peer.inputOpen then peer
  else
    let closed := { peer with inputOpen := false }
    match peer.program, peer.exitCode with
    | .requestLoop, none => { closed with exitCode := some 0 }
    | .scripted output code, none =>
      { closed with unread := peer.unread ++ output, exitCode := some code }
    | _, _ => closed

/-- Reads the next message among lines, blank ones left out. -/
def nextMessage : List (List Char) → Except WorkerError (Option Reply) × List (List Char)
  | [] => (.ok none, [])
  | line :: rest =>
    if (Text.trim line).isEmpty then nextMessage rest
    else match Json.reply? line with
      | some reply => (.ok (some reply), rest)
      | none =>
        let shown := (Json.text (String.ofList line)).compact
        (.error (.protocol ("invalid message " ++ shown)), rest)

def receive (peer : Peer) : Except WorkerError (Option Reply) × Peer :=
  let (result, unread) := nextMessage peer.unread
  (result, { peer with unread })

def exitText (code : Nat) : String := "exit status: " ++ toString code

def wait (peer : Peer) : Nat × Peer :=
  let closed := peer.closeInput
  (closed.exitCode.getD 0, closed)

end Peer

/-- The one worker that updates the field index; it is started when it is needed and started again
after it has died. -/
structure FieldWorker where
  program : Program
  peer : Option Peer
  log : List LogEntry
  deriving DecidableEq, Repr

namespace FieldWorker

def new (program : Program) : FieldWorker := ⟨program, none, []⟩

def isRunning (worker : FieldWorker) : Bool := worker.peer.any Peer.isAlive

def awaitFields : List (List Char) → Except WorkerError FieldIndex × List (List Char)
  | [] => (.error (.crashed "field index worker exited before replying"), [])
  | line :: rest =>
    if (Text.trim line).isEmpty then awaitFields rest
    else match (Peer.nextMessage [line]).1 with
      | .error cause => (.error cause, rest)
      | .ok none => awaitFields rest
      | .ok (some reply) => match reply with
        | .fields index => (.ok index, rest)
        | .fieldsError message | .error message _ _ => (.error (.remote message), rest)
        | .progress _ | .warning _ => awaitFields rest
        | .success .. => (.error (.protocol "unexpected success message"), rest)

/-- Whether an error means that the process is of no more use. -/
def isFatal : WorkerError → Bool
  | .crashed _ | .pipe _ | .protocol _ => true
  | _ => false

def ensure (worker : FieldWorker) : Except WorkerError Peer :=
  match worker.peer with
  | some peer => if peer.isAlive then .ok peer else Peer.start worker.program
  | none => Peer.start worker.program

def exchange (peer : Peer) (options : FieldOptions) (tree : FileTree) :
    Except WorkerError FieldIndex × Peer × FileTree :=
  match peer.send (.updateFields options) tree with
  | (.error cause, after) => (.error cause, peer, after)
  | (.ok sent, after) =>
    let (result, unread) := awaitFields sent.unread
    (result, { sent with unread }, after)

def update (worker : FieldWorker) (options : FieldOptions) (tree : FileTree) :
    Except WorkerError FieldIndex × FieldWorker × FileTree :=
  match worker.ensure with
  | .error cause => (.error cause, worker, tree)
  | .ok peer =>
    let (result, after, changed) := exchange peer options tree
    let kept := { worker with
      peer := some { after with log := [] }
      log := worker.log ++ after.log }
    match result with
    | .error cause =>
      (.error cause, if isFatal cause then { kept with peer := none } else kept, changed)
    | .ok index =>
      let (saved, final) := (index.save options.globalStoragePath).on changed
      match saved with
      | .ok () => (.ok index, kept, final)
      | .error cause => (.error (.snapshot cause), kept, final)

def shutdown (worker : FieldWorker) : FieldWorker := { worker with peer := none }

end FieldWorker

end Worker

end SymbolCache
