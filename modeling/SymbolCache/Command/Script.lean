import SymbolCache.Refresh.Coordinator

/-!
Commands as scripts: they change files, write output and may fail with a message and its causes.
What was written before a failure stays.
-/

namespace SymbolCache.Command

inductive Piece where
  | text (content : String)
  | log (entry : LogEntry)
  /-- Seconds since the start of the command, known only when it runs. -/
  | elapsed
  deriving DecidableEq, Repr

structure Console where
  tree : FileTree
  output : List Piece
  errors : List Piece

abbrev Script := ExceptT (List String) (StateM Console)

namespace Script

def emit (pieces : List Piece) : Script Unit :=
  modify fun console => { console with output := console.output ++ pieces }

def say (line : String) : Script Unit := emit [.text (line ++ "\n")]

def complain (pieces : List Piece) : Script Unit :=
  modify fun console => { console with errors := console.errors ++ pieces }

def warn (line : String) : Script Unit := complain [.text (line ++ "\n")]

def fail {α : Type} (message : String) : Script α := throw [message]

def files : Script FileTree := do return (← get).tree

def setFiles (tree : FileTree) : Script Unit := modify fun console => { console with tree }

/-- Takes a result; a failure has a message and its causes. -/
def take {ε α : Type} (chain : ε → List String) : Except ε α → Script α
  | .ok value => pure value
  | .error cause => throw (chain cause)

def demand {α : Type} (message : String) : Option α → Script α
  | some value => pure value
  | none => fail message

def onFiles {ε α : Type} (chain : ε → List String) (action : FileAction ε α) : Script α := do
  let (result, tree) := action.on (← files)
  setFiles tree
  take chain result

end Script

structure Environment where
  tempDir : Path
  deriving DecidableEq, Repr

structure Project where
  settings : Settings
  options : Refresh.Options

namespace Project

/-- Opens a project directory, which must exist. -/
def load (environment : Environment) (dir : Path) : Script Project := do
  let tree ← Script.files
  if !tree.isDirectory dir then Script.fail ("Project directory " ++ dir ++ " does not exist")
  else
    let settings := Settings.ofProject tree dir
    let places := settings.places (Location.toPath tree.workingDir) environment.tempDir dir
    return ⟨settings, .of settings places⟩

def openStore (project : Project) : Script Store := do
  return Store.openAt project.options.cacheDir (← Script.files)

def fieldIndex (project : Project) : Script FieldIndex := do
  return FieldIndex.load (← Script.files) project.options.cacheDir

/-- A coordinator whose workers run the request loop. -/
def coordinator (project : Project) : Refresh.Coordinator := .new project.options .requestLoop

end Project

end SymbolCache.Command
