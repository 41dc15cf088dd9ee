import SymbolCache.Command.Asking
import SymbolCache.Command.LegacyFilter
import SymbolCache.Command.Refreshing
import SymbolCache.Command.Statistics
import SymbolCache.Watch.Response

/-!
Running a command line: from arguments to output, error text, exit code and changed files.
-/

namespace SymbolCache.Command

structure Outcome where
  code : Nat
  output : List Piece
  errors : List Piece
  /-- Set when the command goes on to watch files. -/
  watching : Option Watch.Session
  tree : FileTree

def version : String := "alcache 0.1.0"

def usage : String :=
  "Usage: alcache [OPTIONS] <COMMAND>\n\n" ++
    "Commands: refresh, fields, query, stats, clear, legacy, watch, help\n"

def beginWatch (environment : Environment) (dir : Path) (refreshFirst : Bool) :
    Script Watch.Session := do
  let project ← Project.load environment dir
  let store ← project.openStore
  Script.onFiles (fun cause => [FileError.message cause])
    (FileAction.makeDirs id project.options.sourceDir)
  let session : Watch.Session := ⟨project.coordinator, store, project.settings.debounceMs⟩
  let (started, tree) := session.respond ⟨false, refreshFirst⟩ (← Script.files)
  Script.setFiles tree
  Script.complain (started.coordinator.log.map .log)
  if started.canStart tree then return started else Script.fail Watch.nothingToWatch

def serve (input : List (List Char)) : Script Unit := do
  let session := Worker.serve (← Script.files) input
  Script.setFiles session.tree
  Script.complain (session.log.map .log)
  session.written.forM fun reply => Script.say (Json.ofReply reply).compact

def script (environment : Environment) (input : List (List Char)) :
    Invocation → Script (Option Watch.Session)
  | .refresh dir => do refresh environment dir; return none
  | .fields dir app => do updateFields environment dir app; return none
  | .query dir question format => do ask environment dir question format; return none
  | .stats dir detailed => do stats environment dir detailed; return none
  | .clear dir fields => do clear environment dir fields; return none
  | .legacy file ranges format target => do filterLegacy file ranges format target; return none
  | .watch dir refreshFirst => do return some (← beginWatch environment dir refreshFirst)
  | .worker => do serve input; return none

/-- Runs a command line. Misuse has the exit code 2, a failure 1. -/
def run (environment : Environment) (input : List (List Char)) (arguments : List String)
    (tree : FileTree) : Outcome :=
  match Invocation.parse arguments with
  | .error .misuse => ⟨2, [], [.text usage], none, tree⟩
  | .error .help => ⟨0, [.text usage], [], none, tree⟩
  | .error .version => ⟨0, [.text (version ++ "\n")], [], none, tree⟩
  | .ok invocation =>
    match script environment input invocation ⟨tree, [], []⟩ with
    | (.ok watching, console) => ⟨0, console.output, console.errors, watching, console.tree⟩
    | (.error chain, console) =>
      let report := "Error: " ++ Worker.chainReport chain ++ "\n"
      ⟨1, console.output, console.errors ++ [.text report], none, console.tree⟩

end SymbolCache.Command
