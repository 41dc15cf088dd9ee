import SymbolCache.Files.Tree
import SymbolCache.Log

/-!
Steps that change a file tree and may fail; what was changed and logged before a failure stays.
-/

namespace SymbolCache

structure Workspace where
  tree : FileTree
  log : List LogEntry
  deriving DecidableEq, Repr

abbrev FileAction (ε : Type) := ExceptT ε (StateM Workspace)

namespace FileAction

variable {ε α : Type}

/-- Changes the tree, or fails with a cause put into words of the caller. -/
def change (wrap : FileError → ε) (operation : FileTree → Except FileError FileTree) :
    FileAction ε Unit := fun space =>
  match operation space.tree with
  | .ok tree => (.ok (), { space with tree })
  | .error cause => (.error (wrap cause), space)

/-- Makes a directory and those above it. After a failure those that could be made are there. -/
def makeDirs (wrap : FileError → ε) (path : Path) : FileAction ε Unit := fun space =>
  match space.tree.makeDirs path with
  | .ok tree => (.ok (), { space with tree })
  | .error cause => (.error (wrap cause), { space with tree := space.tree.unfinishedDirs path })

def inspect (operation : FileTree → Except ε α) : FileAction ε α := fun space =>
  (operation space.tree, space)

def note (level : LogLevel) (text : String) : FileAction ε Unit :=
  modify fun space => { space with log := space.log ++ [⟨level, text⟩] }

/-- Runs a second action when a first one fails, and then fails all the same. -/
def onFailure (action cleanup : FileAction ε α) : FileAction ε α := fun space =>
  match action space with
  | (.ok value, after) => (.ok value, after)
  | (.error cause, after) => (.error cause, (cleanup after).2)

def on (action : FileAction ε α) (tree : FileTree) : Except ε α × FileTree :=
  let (result, space) := action ⟨tree, []⟩
  (result, space.tree)

end FileAction

end SymbolCache
