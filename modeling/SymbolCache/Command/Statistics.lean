import SymbolCache.Calendar
import SymbolCache.Command.Script

/-!
The command that shows what a cache holds.
-/

namespace SymbolCache.Command

/-- A quotient rounded to the nearest whole number, a half to the even one. -/
def roundedQuotient (numerator denominator : Nat) : Nat :=
  let whole := numerator / denominator
  let twice := 2 * (numerator % denominator)
  if denominator < twice || (twice = denominator && whole % 2 = 1) then whole + 1 else whole

/-- A number of bytes in units of 1048576, with two places. -/
def renderMegabytes (bytes : Nat) : String :=
  let hundredths := roundedQuotient (100 * bytes) 1048576
  toString (hundredths / 100) ++ "." ++ Calendar.padded 2 (hundredths % 100)

def fileSize (tree : FileTree) (path : Path) : Nat :=
  match tree.stat path with
  | .ok (.file content _) => content.length
  | _ => 0

def lastWritten (tree : FileTree) (path : Path) : String :=
  match tree.modified path with
  | .ok time => Calendar.renderTime time
  | .error _ => "never"

def countTexts (texts : List String) : Dict Nat :=
  texts.foldl (fun counts text => counts.insert text ((counts.get? text).getD 0 + 1)) .empty

/-- Counts from the greatest to the least, equal ones in the order of their texts. -/
def rankedCounts (texts : List String) : List (String × Nat) :=
  (countTexts texts).entries.mergeSort fun a b => decide (b.2 ≤ a.2)

def sayCounts (texts : List String) : Script Unit :=
  (rankedCounts texts).forM fun (text, count) =>
    Script.say ("    " ++ text ++ ": " ++ toString count)

def stats (environment : Environment) (dir : Path) (detailed : Bool) : Script Unit := do
  let project ← Project.load environment dir
  let store ← project.openStore
  let index ← project.fieldIndex
  let tree ← Script.files
  let cacheDir := project.options.cacheDir
  Script.say ("Project: " ++ project.settings.project.name)
  Script.say ("Cache: " ++ cacheDir)
  Script.say "\nSymbol cache:"
  Script.say ("  Objects: " ++ toString store.objects.size)
  Script.say ("  Objects with procedures: " ++ toString store.procedures.size)
  Script.say ("  Procedures: " ++ toString store.procedureCount)
  Script.say ("  Size on disk: " ++
    renderMegabytes (fileSize tree store.symbolsPath + fileSize tree store.proceduresPath) ++ " MB")
  Script.say ("  Last written: " ++ lastWritten tree store.symbolsPath)
  Script.say "\nField index:"
  Script.say ("  Tables: " ++ toString index.tableFields.size)
  Script.say ("  Pages: " ++ toString index.pageSources.size)
  Script.say ("  Source files: " ++ toString index.watermarks.size)
  Script.say ("  Last written: " ++ lastWritten tree (FieldIndex.tablesPath cacheDir))
  if detailed then
    Script.say "\nObjects by type:"
    sayCounts (store.objects.values.map fun record => record.kind.keyword)
    Script.say "\nObjects by package:"
    sayCounts (store.objects.values.map fun record => record.app.getD "(unknown)")

end SymbolCache.Command
