import SymbolCache.Refresh.Coordinator
import SymbolCache.Watch.Trigger

/-!
What a watcher does about changed files.
-/

namespace SymbolCache.Watch

structure Session where
  coordinator : Refresh.Coordinator
  store : Store
  /-- Milliseconds without a change before work is done. -/
  pause : Nat

namespace Session

def targets (session : Session) : Targets :=
  let options := session.coordinator.options
  ⟨options.sourceDir, options.packageDirs, options.packages⟩

def canStart (session : Session) (tree : FileTree) : Bool :=
  let targets := session.targets
  (targets.sourceDir :: targets.packageDirs).any tree.isDirectory

/-- The work that events ask for between two pauses. -/
def collect (session : Session) (events : List FileEvent) : Pending :=
  events.foldl session.targets.handle .none

def pendingFor (session : Session) (paths : List Path) : Pending :=
  session.collect [⟨.modify, paths⟩]

/-- Does pending work: one refresh if packages have changed, else one update of the field index if
sources have. `order` is the order in which the workers of a refresh finish. -/
def respondIn (order : List Artifact → List Artifact) (session : Session) (pending : Pending)
    (tree : FileTree) : Session × FileTree :=
  if pending.packages then
    let result := Refresh.refreshIn order session.coordinator session.store tree
    ({ session with coordinator := result.coordinator, store := result.store }, result.tree)
  else if pending.sources then
    let (_, coordinator, after) := session.coordinator.updateFields none tree
    ({ session with coordinator }, after)
  else (session, tree)

def respond (session : Session) (pending : Pending) (tree : FileTree) : Session × FileTree :=
  session.respondIn id pending tree

end Session

def nothingToWatch : String := "None of the watched directories exist"

end SymbolCache.Watch
