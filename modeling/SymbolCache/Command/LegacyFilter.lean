import SymbolCache.Command.Script
import SymbolCache.Legacy.Json
import SymbolCache.Legacy.Printer

/-!
The command that filters a legacy object by ranges of ids.
-/

namespace SymbolCache.Command

/-- An object as text or as JSON. -/
def renderLegacy (object : Legacy.Object) (format : String) : Script String :=
  match format with
  | "text" => return String.ofList object.render
  | "json" => return (Json.ofLegacyObject object).pretty ++ "\n"
  | other => Script.fail ("Unknown format: " ++ other)

/-- Keeps the parts of an object whose ids lie in some range, all of them when no range is given,
and writes the object to the output or to a file. -/
def filterLegacy (file : Path) (ranges : List Legacy.IdRange) (format : String)
    (target : Option Path) : Script Unit := do
  let text ← Script.take (fun cause => ["Failed to read " ++ file, FileError.message cause])
    (Source.readLossy (← Script.files) file)
  let object ← Script.demand (file ++ " is not a C/AL object export") (Legacy.readObject? text)
  object.malformedSections.forM fun part =>
    Script.warn ("warning: " ++ part ++ " section has unbalanced braces and was kept verbatim")
  let kept := if ranges.isEmpty then object else object.filterById ranges
  let rendered ← renderLegacy kept format
  match target with
  | none => Script.emit [.text rendered]
  | some path =>
    Script.onFiles (fun chain => chain)
      (FileAction.change (fun cause => ["Failed to write " ++ path, FileError.message cause])
        fun tree => tree.write path (Text.encodeUtf8 rendered.toList))

end SymbolCache.Command
