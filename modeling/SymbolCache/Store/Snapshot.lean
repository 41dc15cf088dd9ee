import SymbolCache.Files.Snapshot
import SymbolCache.Store.Basic

/-!
Saving and loading a store: one file for objects and one for procedures.
-/

namespace SymbolCache.Store

def symbolsPath (store : Store) : Path := Path.join store.dir "symbols.json"

def proceduresPath (store : Store) : Path := Path.join store.dir "procedures.json"

/-- Reads both files. A missing one counts as empty, and one that cannot be read leaves what is in
memory. -/
def load (store : Store) (tree : FileTree) : Store :=
  let filled := match readSnapshot (.dict .objectRecord) tree store.symbolsPath with
    | .ok (some objects) => store.replaceObjects objects
    | .ok none => store.replaceObjects .empty
    | .error _ => store
  match readSnapshot (.dict (.list .procedure)) tree store.proceduresPath with
  | .ok (some procedures) => { filled with procedures }
  | .ok none => { filled with procedures := .empty }
  | .error _ => filled

def openAt (dir : Path) (tree : FileTree) : Store := (Store.new dir).load tree

def save (store : Store) : FileAction SnapshotError Unit := do
  makeSnapshotDir store.dir
  writeSnapshot store.symbolsPath (Json.ofDict Json.ofRecord store.objects)
  writeSnapshot store.proceduresPath (Json.ofDict Json.ofProcedures store.procedures)

end SymbolCache.Store
