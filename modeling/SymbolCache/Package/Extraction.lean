import SymbolCache.Files.Action
import SymbolCache.Package.Archive
import SymbolCache.Package.Artifact
import SymbolCache.Settings.Basic
import SymbolCache.Source.Files

/-!
Unpacking packages: all entries into a scratch directory that is removed afterwards, and source
files into a directory of their application and version.
-/

namespace SymbolCache

inductive ExtractionError where
  | file (path : Path) (cause : FileError)
  | notAnArchive (path : Path) (cause : Archive.Error)
  | unsupported (path : Path) (cause : Archive.Error)
  deriving DecidableEq, Repr

namespace ExtractionError

def notAnArchiveMark : String := "is not a valid archive"

def causeMessage : ExtractionError → String
  | .file _ cause => cause.message
  | .notAnArchive _ cause | .unsupported _ cause => cause.message

def message : ExtractionError → String
  | .file path cause => "IO error while extracting " ++ path ++ ": " ++ cause.message
  | .notAnArchive path cause => path ++ " " ++ notAnArchiveMark ++ ": " ++ cause.message
  | .unsupported path cause => "ZIP error while extracting " ++ path ++ ": " ++ cause.message

def chain (error : ExtractionError) : List String := [error.message, error.causeMessage]

def ofArchive (path : Path) (cause : Archive.Error) : ExtractionError :=
  match cause.kind with
  | .truncated => .file path .cutOff
  | .invalid => .notAnArchive path cause
  | .unsupported => .unsupported path cause

def ofFault (path : Path) : Inflate.Fault → ExtractionError
  | .corrupt => .file path .corruptData
  | .incomplete => .file path .incompleteData

/-- Files that are no archives are expected among packages. -/
def isBenign : ExtractionError → Bool
  | .notAnArchive .. => true
  | _ => false

end ExtractionError

namespace Package

variable {ε : Type}

def openArchive (tree : FileTree) (path : Path) : Except ExtractionError (List Archive.Entry) :=
  match tree.read path with
  | .error cause => .error (.file path cause)
  | .ok bytes => match Archive.ofPackage bytes with
    | .error cause => .error (.ofArchive path cause)
    | .ok entries => .ok entries

/-- Name of the scratch directory of a package. The hash of the whole path keeps packages of one
name apart. -/
def scratchName (path : Path) : String :=
  sanitizeSegment ((Path.fileName? path).getD "") ++ "-" ++ hashText path

def scratchPath (scratchRoot path : Path) : Path := Path.join scratchRoot (scratchName path)

def prepareScratch (dir : Path) : FileAction ExtractionError Unit := do
  if (← get).tree.pathExists dir then
    .change (.file dir) fun tree => tree.removeDirs dir
  .makeDirs (.file dir) dir

def removeScratch (dir : Path) : FileAction ε Unit := fun space =>
  match space.tree.removeDirs dir with
  | .ok tree => FileAction.note .debug ("Removed scratch directory " ++ dir) { space with tree }
  | .error _ => (.ok (), space)

/-- Writes the data of one entry. Faulty data and a wrong checksum show only after the bytes have
been written. -/
def writeContent (entry : Archive.Entry) (content : Archive.Content) (target : Path) :
    FileAction ExtractionError Unit := do
  .change (.file target) fun tree => tree.write target content.bytes
  match content.fault with
  | some fault => throw (.ofFault target fault)
  | none => if !entry.isIntact content then throw (.file target .invalidChecksum)

def writeEntry (entry : Archive.Entry) (content : Archive.Content) (target : Path) :
    FileAction ExtractionError Unit := do
  match Path.parent? target with
  | some parent => .makeDirs (.file parent) parent
  | none => pure ()
  writeContent entry content target

/-- How deep the steps of an entry name lead, as long as they never leave the root. -/
def depthAfter : Nat → List Component → Option Nat
  | depth, [] => some depth
  | _, .root :: _ => none
  | depth, .here :: rest => depthAfter depth rest
  | 0, .up :: _ => none
  | depth + 1, .up :: rest => depthAfter depth rest
  | depth, .name _ :: rest => depthAfter (depth + 1) rest

def isEnclosed (name : String) : Bool :=
  !name.toList.contains (Char.ofNat 0) && (depthAfter 0 (Path.components name)).isSome

def unpackEntry (path scratch : Path) (entry : Archive.Entry) : FileAction ExtractionError Nat := do
  match entry.content with
  | .error cause => throw (.ofArchive path cause)
  | .ok content =>
    if !isEnclosed entry.name then
      .note .warn ("Skipping unsafe entry '" ++ entry.name ++ "' in " ++ path)
      return 0
    else
      let target := Path.join scratch entry.name
      if entry.isDirectory then
        .makeDirs (.file target) target
        return 0
      else
        writeEntry entry content target
        return 1

def unpackEntries (path scratch : Path) : List Archive.Entry → FileAction ExtractionError Nat
  | [] => return 0
  | entry :: rest => do
    let first ← unpackEntry path scratch entry
    let others ← unpackEntries path scratch rest
    return first + others

structure Unpacked where
  root : Path
  entries : List Archive.Entry
  fileCount : Nat

def noteHeader (path : Path) (tree : FileTree) : FileAction ExtractionError Unit := do
  let offset := ((tree.read path).toOption.map Archive.payloadOffset).getD 0
  if 0 < offset then
    .note .debug ("Skipping " ++ toString offset ++ " byte package header in " ++ path)

/-- Unpacks a package into its scratch directory. After a failure the directory is gone. -/
def unpack (scratchRoot path : Path) : FileAction ExtractionError Unpacked := do
  noteHeader path (← get).tree
  let entries ← FileAction.inspect fun tree => openArchive tree path
  let scratch := scratchPath scratchRoot path
  prepareScratch scratch
  let fileCount ← (unpackEntries path scratch entries).onFailure do
    removeScratch scratch
    return 0
  .note .debug ("Extracted " ++ toString fileCount ++ " files from " ++ path ++ " into " ++ scratch)
  return ⟨scratch, entries, fileCount⟩

def unescapeBytes : Bytes → Bytes
  | a :: b :: c :: rest =>
    if a == 0x25 then
      match Json.hexValue? (Char.ofNat b.toNat), Json.hexValue? (Char.ofNat c.toNat) with
      | some high, some low => (16 * high + low).toUInt8 :: unescapeBytes rest
      | _, _ => a :: unescapeBytes (b :: c :: rest)
    else a :: unescapeBytes (b :: c :: rest)
  | bytes => bytes

def unescape? (text : List Char) : Option (List Char) :=
  Text.decodeUtf8? (unescapeBytes (Text.encodeUtf8 text))

/-- Undoes percent escapes that were applied once or twice. -/
def decodeSegment (raw : List Char) : List Char :=
  match unescape? raw with
  | none => raw
  | some once => if once.contains '%' then (unescape? once).getD once else once

def afterSource : List (List Char) → Option (List (List Char))
  | [] => none
  | segment :: rest => if Text.sameWord segment "src".toList then some rest else afterSource rest

/-- The path of a source entry below its source directory, in safe segments; none when the entry
lies outside of one. -/
def sourceSegments? (name : String) : Option (List String) := do
  let slashed := name.toList.map fun c => if c == '\\' then '/' else c
  let segments ← afterSource (Text.splitAt '/' slashed)
  let kept := (segments.map decodeSegment).filter fun segment =>
    segment != [] && segment != ['.'] && segment != ['.', '.']
  if kept.isEmpty then none
  else return kept.map fun segment => sanitizeSegment (String.ofList segment)

def sourcePath? (entry : Archive.Entry) : Option Path := do
  if entry.isDirectory then none
  else
    let segments ← sourceSegments? entry.name
    let path := "/".intercalate segments
    if Source.isSourceFile path then return path else none

def copySource (path dest : Path) (entry : Archive.Entry) :
    FileAction ExtractionError (Option Path) := do
  match entry.content with
  | .error cause => throw (.ofArchive path cause)
  | .ok content => match sourcePath? entry with
    | none => return none
    | some relative =>
      writeEntry entry content (Path.join dest relative)
      return some relative

/-- Copies the source files among entries; returns their relative paths in order. -/
def copySources (path dest : Path) : List Archive.Entry → FileAction ExtractionError (List Path)
  | [] => return []
  | entry :: rest => do
    let first ← copySource path dest entry
    let others ← copySources path dest rest
    return first.toList ++ others

def hasSources (tree : FileTree) (artifact : Artifact) (base : Path) : Bool :=
  let dir := artifact.sourceDir base
  tree.isDirectory dir && (tree.filesUnder dir).any Source.isSourceFile

/-- The packages directly in some directories, sorted by path. -/
def discover (tree : FileTree) (dirs : List Path) (settings : PackageSettings) : List Artifact :=
  let found := dirs.flatMap fun dir =>
    if !tree.isDirectory dir then []
    else match tree.locate dir with
      | .error _ => []
      | .ok location => ((tree.childNames location).filterMap fun name =>
          let path := Path.join dir name
          if tree.isFile path && settings.isPackage path then Artifact.ofPath? path else none)
  let sorted := found.mergeSort fun a b => !Path.before b.path a.path
  sorted.foldl
    (fun kept artifact => match kept.getLast? with
      | some last =>
        if Path.components last.path == Path.components artifact.path then kept
        else kept ++ [artifact]
      | none => [artifact])
    []

end Package

end SymbolCache
