import SymbolCache.Command.Run

/-!
The command line program: loads the files a command can see, runs the command on them as values,
and writes back what has changed.
-/

namespace SymbolCache.Main

def locationOf (path : String) : Location := (path.splitOn "/").filter fun name => name != ""

def withParents (tree : FileTree) (location : Location) : FileTree :=
  (List.range location.length).foldl
    (fun grown count =>
      let above := location.take count
      if above.isEmpty || (grown.node? above).isSome then grown else grown.put above .directory)
    tree

/-- Loads a file, or a directory with all that is in it. What cannot be read is left out. -/
partial def load (tree : FileTree) (path : String) : IO FileTree := do
  let full := (← IO.currentDir) / path
  try
    let info ← full.metadata
    let location := locationOf full.toString
    let rooted := withParents tree location
    match info.type with
    | .dir =>
      let mut grown := if location.isEmpty then rooted else rooted.put location .directory
      for entry in ← full.readDir do
        grown ← load grown entry.path.toString
      return grown
    | .file =>
      let content := (← IO.FS.readBinFile full).toList
      let modified := info.modified.sec * 1000 + (info.modified.nsec.toNat / 1000000 : Nat)
      let placed := rooted.put location (.file content modified)
      return { placed with clock := max rooted.clock modified }
    | _ => return tree
  catch _ => return tree

/-- Loads the working directory and everything else that a command names. -/
def loadFor (paths : List Path) : IO FileTree := do
  let here := (← IO.currentDir).toString
  let start : FileTree := { FileTree.empty 0 with workingDir := locationOf here }
  let mut tree ← load start here
  for path in paths do
    if !tree.pathExists path then tree ← load tree path
  return tree

def store (before after : FileTree) : IO Unit := do
  for (location, node) in before.nodes do
    if (after.node? location).isNone then
      let path := Location.toPath location
      try
        match node with
        | .directory => IO.FS.removeDirAll path
        | .file _ _ => IO.FS.removeFile path
      catch _ => pure ()
  for (location, node) in after.nodes do
    let path := Location.toPath location
    match node, before.node? location with
    | .directory, some .directory => pure ()
    | .directory, _ => IO.FS.createDirAll path
    | .file content _, some (.file known _) =>
      if content != known then IO.FS.writeBinFile path ⟨content.toArray⟩
    | .file content _, _ => IO.FS.writeBinFile path ⟨content.toArray⟩

def renderSeconds (milliseconds : Nat) : String :=
  let tenths := (milliseconds + 50) / 100
  toString (tenths / 10) ++ "." ++ toString (tenths % 10)

def renderOutput (milliseconds : Nat) (pieces : List Command.Piece) : String :=
  String.join (pieces.map fun piece => match piece with
    | .text content => content
    | .log entry =>
      entry.level.name ++ " " ++ String.ofList (['\n'].intercalate entry.lines) ++ "\n"
    | .elapsed => renderSeconds milliseconds)

partial def readLines (stream : IO.FS.Stream) : IO (List (List Char)) := do
  let line ← stream.getLine
  if line.isEmpty then return []
  else return Text.lines line.toList ++ (← readLines stream)

def changedPaths (before after : FileTree) : List Path :=
  let locations := (before.nodes ++ after.nodes).map Prod.fst
  (locations.filter fun location => before.node? location != after.node? location).map
    Location.toPath

/-- Looks for changes time and again, and does what they ask for. -/
partial def watch (paths : List Path) (session : Watch.Session) (known : FileTree) : IO Unit := do
  IO.sleep session.pause.toUInt32
  let current ← loadFor paths
  let pending := session.pendingFor (changedPaths known current)
  let (after, final) := session.respond pending current
  store current final
  watch paths after (← loadFor paths)

end SymbolCache.Main

open SymbolCache in
def main (arguments : List String) : IO UInt32 := do
  let started ← IO.monoMsNow
  let parsed := Command.Invocation.parse arguments
  let paths := (parsed.toOption.map Command.Invocation.paths).getD []
  let tree ← Main.loadFor paths
  let environment : Command.Environment := ⟨(← IO.getEnv "TMPDIR").getD "/tmp"⟩
  let input ← match parsed with
    | .ok .worker => Main.readLines (← IO.getStdin)
    | _ => pure []
  let outcome := Command.run environment input arguments tree
  Main.store tree outcome.tree
  let passed := (← IO.monoMsNow) - started
  IO.print (Main.renderOutput passed outcome.output)
  IO.eprint (Main.renderOutput passed outcome.errors)
  match outcome.watching with
  | some session => Main.watch paths session outcome.tree
  | none => pure ()
  return outcome.code.toUInt32
