import SymbolCache.Files.Path
import SymbolCache.Package.Digest

/-!
Application packages, their names and versions taken from file names `prefix_name_version.ext`,
and the directories their contents go to.
-/

namespace SymbolCache

structure Artifact where
  path : Path
  appName : String
  appVersion : String
  /-- False when name or version is a default. -/
  conventional : Bool
  deriving DecidableEq, Repr

def isUnsafe (c : Char) : Bool :=
  "<>:\"/\\|?*".toList.contains c || Text.isControl c

def sanitizeSegment (text : String) : String :=
  let cleaned := text.toList.map fun c => if isUnsafe c then '_' else c
  let trimmed := Text.trim (Text.dropEndWhile (· == '.') (Text.trim cleaned))
  if trimmed == [] || trimmed == ['.'] || trimmed == ['.', '.'] then "_" else String.ofList trimmed

def hashText (text : String) : String := Digest.short (Text.encodeUtf8 text.toList)

namespace Artifact

def unknownName : String := "Unknown"

def defaultVersion : String := "1.0"

/-- Name and version from the parts of a file stem, and whether both are there. -/
def identity (stem : String) : String × String × Bool :=
  let segments := Text.splitAt '_' stem.toList
  match segments with
  | [] | [_] => (unknownName, defaultVersion, false)
  | [_, name] => (if name.isEmpty then unknownName else String.ofList name, defaultVersion, false)
  | _ :: rest =>
    let name := ['_'].intercalate rest.dropLast
    let version := rest.getLastD []
    (if name.isEmpty then unknownName else String.ofList name,
      if version.isEmpty then defaultVersion else String.ofList version,
      !name.isEmpty && !version.isEmpty)

/-- The package at a path; none when the path has no usable file name. -/
def ofPath? (path : Path) : Option Artifact := do
  let name ← Path.fileName? path
  let (beforeDot, ext) := Path.splitName name
  let lettersOnly := ext.any fun e => e != "" && e.toList.all Char.isAlpha
  let stem := if lettersOnly then beforeDot else name
  if (Text.trim stem.toList).isEmpty then none
  else
    let (appName, appVersion, conventional) := identity stem
    return ⟨path, appName, appVersion, conventional⟩

def fileName (artifact : Artifact) : String := (Path.fileName? artifact.path).getD ""

/-- Directory of the application below the source root. A name that is not conventional gets a
hash of the file name, so that distinct packages keep apart. -/
def appDirName (artifact : Artifact) : String :=
  let base := sanitizeSegment artifact.appName
  if artifact.conventional then base else base ++ "-" ++ hashText artifact.fileName

def sourceDir (artifact : Artifact) (base : Path) : Path :=
  Path.join (Path.join base artifact.appDirName) (sanitizeSegment artifact.appVersion)

end Artifact

end SymbolCache
