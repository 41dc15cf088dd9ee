import SymbolCache.FieldIndex.Basic
import SymbolCache.Files.Snapshot

/-!
Saving and loading a field index. The ledger is written last; without it nothing is loaded.
-/

namespace SymbolCache.FieldIndex

def tablesPath (dir : Path) : Path := Path.join dir "fieldTableCache.json"

def pagesPath (dir : Path) : Path := Path.join dir "fieldPageCache.json"

def watermarksPath (dir : Path) : Path := Path.join dir "fieldCacheMetadata.json"

def contributionsPath (dir : Path) : Path := Path.join dir "fieldCacheContributions.json"

def loadMap {α : Type} (decoder : Json.Decoder (Dict α)) (tree : FileTree) (path : Path) : Dict α :=
  match readSnapshot decoder tree path with
  | .ok (some map) => map
  | _ => .empty

/-- Reads the saved index of a directory; an empty one when its ledger cannot be read. -/
def load (tree : FileTree) (dir : Path) : FieldIndex :=
  match readSnapshot .contributions tree (contributionsPath dir) with
  | .ok (some contributions) =>
    { tableFields := loadMap .tableFields tree (tablesPath dir)
      pageSources := loadMap .pageSources tree (pagesPath dir)
      watermarks := loadMap .watermarks tree (watermarksPath dir)
      contributions }
  | _ => .empty

def fault? {α : Type} : Except SnapshotError α → Option SnapshotError
  | .ok _ => none
  | .error cause => some cause

def loadLog (tree : FileTree) (dir : Path) : List LogEntry :=
  let faults := [fault? (readSnapshot .tableFields tree (tablesPath dir)),
    fault? (readSnapshot .pageSources tree (pagesPath dir)),
    fault? (readSnapshot .watermarks tree (watermarksPath dir))]
  faults.reduceOption.map fun cause =>
    ⟨.error, "Ignoring unreadable field cache file: " ++ cause.message⟩

/-- The files of a saved index with their content, in the order in which they are written. -/
def parts (index : FieldIndex) (dir : Path) : List (Path × Json) :=
  [(tablesPath dir, Json.ofTableFields index.tableFields),
    (pagesPath dir, Json.ofPageSources index.pageSources),
    (watermarksPath dir, Json.ofWatermarks index.watermarks),
    (contributionsPath dir, Json.ofContributions index.contributions)]

def writeParts : List (Path × Json) → FileAction SnapshotError Unit
  | [] => return
  | (path, content) :: rest => do
    writeSnapshot path content
    writeParts rest

/-- Writes the four maps, the ledger last. -/
def save (index : FieldIndex) (dir : Path) : FileAction SnapshotError Unit := do
  makeSnapshotDir dir
  writeParts (index.parts dir)

end SymbolCache.FieldIndex
