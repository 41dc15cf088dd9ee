import SymbolCache.Settings.Basic
import SymbolCache.Source.Files

/-!
What changed files ask for: an update of the field index or a refresh of the packages.
-/

namespace SymbolCache.Watch

inductive Trigger where
  | sources
  | packages
  deriving DecidableEq, Repr

structure Targets where
  sourceDir : Path
  packageDirs : List Path
  packages : PackageSettings

/-- What a change of a path asks for. Packages count only directly in a package directory. -/
def Targets.classify (targets : Targets) (path : Path) : Option Trigger :=
  let inPackageDir := (Path.parent? path).any fun parent =>
    targets.packageDirs.any fun dir => Path.components dir == Path.components parent
  if Path.startsWith path targets.sourceDir && Source.isSourceFile path then some .sources
  else if inPackageDir && targets.packages.isPackage path then some .packages
  else none

/-- The work that changes have asked for since the last pause. -/
structure Pending where
  sources : Bool
  packages : Bool
  deriving DecidableEq, Repr

namespace Pending

def none : Pending := ⟨false, false⟩

def record (pending : Pending) : Trigger → Pending
  | .sources => { pending with sources := true }
  | .packages => { pending with packages := true }

def isEmpty (pending : Pending) : Bool := !pending.sources && !pending.packages

/-- The work to do now, and what is pending after it has been taken up. -/
def take (pending : Pending) : Pending × Pending := (pending, none)

end Pending

inductive EventKind where
  | any
  | access
  | create
  | modify
  | remove
  | other
  deriving DecidableEq, Repr

def EventKind.isChange : EventKind → Bool
  | .create | .modify | .remove => true
  | .any | .access | .other => false

structure FileEvent where
  kind : EventKind
  paths : List Path
  deriving DecidableEq, Repr

/-- Takes in an event: each of its paths that asks for something is recorded. -/
def Targets.handle (targets : Targets) (pending : Pending) (event : FileEvent) : Pending :=
  if event.kind.isChange then (event.paths.filterMap targets.classify).foldl Pending.record pending
  else pending

end SymbolCache.Watch
