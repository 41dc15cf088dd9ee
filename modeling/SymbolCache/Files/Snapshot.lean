import SymbolCache.Files.Action
import SymbolCache.Json.Decoder
import SymbolCache.Json.Printer
import SymbolCache.Json.Reader

/-!
Saved copies of data as JSON files. A copy is written beside the old one and then moved over it,
so that a file is either the old or the new copy.
-/

namespace SymbolCache

inductive SnapshotError where
  | file (path : Path) (cause : FileError)
  | malformed (path : Path)
  deriving DecidableEq, Repr

namespace SnapshotError

def message : SnapshotError → String
  | .file path cause => "IO error on " ++ path ++ ": " ++ cause.message
  | .malformed path => "invalid JSON in " ++ path

def chain : SnapshotError → List String
  | .file path cause => [message (.file path cause), cause.message]
  | .malformed path => [message (.malformed path)]

end SnapshotError

/-- Reads a saved copy; none when there is no file. -/
def readSnapshot {α : Type} (decoder : Json.Decoder α) (tree : FileTree) (path : Path) :
    Except SnapshotError (Option α) :=
  match tree.readText path with
  | .error .notFound => .ok none
  | .error cause => .error (.file path cause)
  | .ok text =>
    match (Json.parse? text).bind (Json.decode? decoder) with
    | some value => .ok (some value)
    | none => .error (.malformed path)

/-- Where a copy is written before it replaces the old one. -/
def temporaryPath (path : Path) : Path := Path.withExtension path "json.tmp"

def writeSnapshot (path : Path) (value : Json) : FileAction SnapshotError Unit := do
  let temporary := temporaryPath path
  .change (.file temporary) fun tree => tree.write temporary (Text.encodeUtf8 value.pretty.toList)
  .change (.file path) fun tree => tree.renameFile temporary path

def makeSnapshotDir (dir : Path) : FileAction SnapshotError Unit :=
  .makeDirs (.file dir) dir

end SymbolCache
