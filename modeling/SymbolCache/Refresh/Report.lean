import SymbolCache.Package.Artifact

/-!
What happens during a refresh, and what is reported of it.
-/

namespace SymbolCache.Refresh

inductive PackageState where
  | pending
  | skipped
  | running
  | succeeded
  | failed
  deriving DecidableEq, Repr

namespace PackageState

def isTerminal : PackageState → Bool
  | .skipped | .succeeded | .failed => true
  | .pending | .running => false

def name : PackageState → String
  | .pending => "pending"
  | .skipped => "skipped"
  | .running => "running"
  | .succeeded => "succeeded"
  | .failed => "failed"

end PackageState

inductive Event where
  | started (total : Nat)
  | alreadyRunning
  | stateChanged (artifact : Path) (state : PackageState)
  | progress (artifact : Path) (message : String)
  | warning (artifact : Path) (message : String)
  /-- A benign error is that of a file that is no archive. -/
  | error (artifact : Path) (message : String) (benign : Bool)
  | committed (objects procedures : Nat)
  deriving DecidableEq, Repr

structure PackageReport where
  artifact : Artifact
  state : PackageState
  error : Option String
  benign : Bool
  objects : Nat
  deriving DecidableEq, Repr

structure Report where
  artifacts : List PackageReport
  objectCount : Nat
  procedureCount : Nat
  deriving DecidableEq, Repr

namespace Report

def count (report : Report) (state : PackageState) : Nat :=
  (report.artifacts.filter fun item => item.state = state).length

/-- State of the first package with a file name. -/
def stateOf? (report : Report) (fileName : String) : Option PackageState :=
  (report.artifacts.find? fun item => item.artifact.fileName == fileName).map PackageReport.state

def failures (report : Report) : List PackageReport :=
  report.artifacts.filter fun item => item.state = .failed

end Report

end SymbolCache.Refresh
