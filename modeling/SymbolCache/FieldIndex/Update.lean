import SymbolCache.FieldIndex.Basic
import SymbolCache.Log
import SymbolCache.Source.Files

/-!
Bringing a field index up to date with the source files below a directory. Only files whose
modification time has changed are read again.
-/

namespace SymbolCache.FieldIndex

/-- A modification time as milliseconds: whole seconds and the fraction of a second are added
before they are scaled. Times before the epoch count as the epoch. -/
def watermarkOf (modified : Int) : Binary64 :=
  let ms := modified.toNat
  let seconds := Binary64.ofRatio (ms / 1000) 1
  let nanoseconds := Binary64.ofRatio (ms % 1000 * 1000000) 1
  let fraction := Binary64.div nanoseconds (Binary64.ofRatio 1000000000 1)
  ⟨false, Binary64.mul (Binary64.add seconds fraction) (Binary64.ofRatio 1000 1)⟩

def fileWatermark (tree : FileTree) (path : Path) : Except FileError Binary64 :=
  (tree.modified path).map watermarkOf

structure UpdateStats where
  parsed : Nat
  unchanged : Nat
  removed : Nat
  deriving DecidableEq, Repr

def UpdateStats.changed (stats : UpdateStats) : Bool := 0 < stats.parsed || 0 < stats.removed

def isCurrent (index : FieldIndex) (path : Path) (watermark : Binary64) : Bool :=
  (index.watermarks.get? path).any (Binary64.same watermark) && index.contributions.contains path

def updateFile (index : FieldIndex) (path : Path) (watermark : Binary64)
    (contribution : Contribution) : FieldIndex :=
  let applied := index.apply path contribution
  { applied with watermarks := applied.watermarks.insert path watermark }

structure UpdateRun where
  index : FieldIndex
  stats : UpdateStats
  seen : List Path

/-- Takes in one source file; reading its text may have effects. -/
def visit {m : Type → Type} [Monad m] (parse : Path → List Char → m Contribution) (tree : FileTree)
    (run : UpdateRun) (path : Path) : m UpdateRun :=
  match fileWatermark tree path with
  | .error _ => pure run
  | .ok watermark =>
    let seen := run.seen ++ [path]
    if run.index.isCurrent path watermark then
      pure ⟨run.index, { run.stats with unchanged := run.stats.unchanged + 1 }, seen⟩
    else match Source.readLossy tree path with
      | .error _ => pure { run with seen }
      | .ok text => do
        let contribution ← parse path text
        return ⟨run.index.updateFile path watermark contribution,
          { run.stats with parsed := run.stats.parsed + 1 }, seen⟩

/-- The files of an index below a directory that are not among some others. -/
def stalePaths (index : FieldIndex) (root : Path) (seen : List Path) : List Path :=
  (index.pathsUnder root).filter fun path => !seen.contains path

def dropStale (root : Path) (run : UpdateRun) : UpdateRun :=
  let stale := run.index.stalePaths root run.seen
  { run with
    index := stale.foldl retract run.index
    stats := { run.stats with removed := stale.length } }

def updateWith {m : Type → Type} [Monad m] (parse : Path → List Char → m Contribution)
    (tree : FileTree) (root : Path) (previous : FieldIndex) : m (FieldIndex × UpdateStats) := do
  let visited ← (Source.sourceFiles tree root).foldlM (visit parse tree) ⟨previous, ⟨0, 0, 0⟩, []⟩
  let finished := dropStale root visited
  return (finished.index, finished.stats)

def update (tree : FileTree) (root : Path) (previous : FieldIndex) : FieldIndex × UpdateStats :=
  Id.run (updateWith (fun _ text => pure (Contribution.ofSource text)) tree root previous)

/-- What an update logs: which files are no longer there. -/
def updateLog (tree : FileTree) (root : Path) (previous : FieldIndex) : List LogEntry :=
  (previous.stalePaths root (Source.sourceFiles tree root)).map fun path =>
    ⟨.debug, "Retracting deleted file " ++ path⟩

end SymbolCache.FieldIndex
