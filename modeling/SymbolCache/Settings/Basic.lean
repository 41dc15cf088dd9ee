import SymbolCache.Files.Tree
import SymbolCache.Json.Decoder
import SymbolCache.Log
import SymbolCache.Toml.Reader

/-!
Settings of a project: where packages and caches lie, what is extracted, and how much is done at a
time.
-/

namespace SymbolCache

structure ProjectSettings where
  name : String := "unnamed-project"
  root : String := "."
  deriving DecidableEq, Repr

structure PackageSettings where
  paths : List String := [".alpackages"]
  extensions : List String := ["app"]
  exclude : List String := []
  deriving DecidableEq, Repr

structure CacheSettings where
  path : String := ".alcache"
  scratchPath : Option String := none
  deriving DecidableEq, Repr

structure ExtractionSettings where
  sources : Bool := true
  sourcePath : String := ".alcache/src"
  procedures : Bool := true
  deriving DecidableEq, Repr

structure LoggingSettings where
  level : String := "warn"
  format : String := "compact"
  deriving DecidableEq, Repr

structure Settings where
  project : ProjectSettings := {}
  packages : PackageSettings := {}
  cache : CacheSettings := {}
  extraction : ExtractionSettings := {}
  maxWorkers : Nat := 4
  debounceMs : Nat := 500
  logging : LoggingSettings := {}
  deriving DecidableEq, Repr

inductive SettingsError where
  | file (cause : FileError)
  | malformed
  | emptyProjectName
  | noPackagePath
  | noPackageExtension
  | emptyCachePath
  | emptySourcePath
  | noWorkers
  | noDebounce
  | badLogLevel (level : String)
  | badLogFormat (format : String)
  deriving DecidableEq, Repr

def SettingsError.message : SettingsError → String
  | .file cause => cause.message
  | .malformed => "invalid TOML"
  | .emptyProjectName => "Project name cannot be empty"
  | .noPackagePath => "At least one package path is required"
  | .noPackageExtension => "At least one package extension is required"
  | .emptyCachePath => "Cache path cannot be empty"
  | .emptySourcePath => "Source extraction path cannot be empty"
  | .noWorkers => "Worker count must be greater than 0"
  | .noDebounce => "Watch debounce must be greater than 0"
  | .badLogLevel level => "Invalid log level: " ++ level
  | .badLogFormat format => "Invalid log format: " ++ format

/-- All settings, section by section. -/
def Json.ofSettings (settings : Settings) : Json :=
  .object [("project", .object [("name", .text settings.project.name),
      ("root", .text settings.project.root)]),
    ("packages", .object [("paths", ofTexts settings.packages.paths),
      ("extensions", ofTexts settings.packages.extensions),
      ("exclude", ofTexts settings.packages.exclude)]),
    ("cache", .object [("path", .text settings.cache.path),
      ("scratch_path", ofOption .text settings.cache.scratchPath)]),
    ("extraction", .object [("enable_src_extraction", .bool settings.extraction.sources),
      ("src_path", .text settings.extraction.sourcePath),
      ("extract_procedures", .bool settings.extraction.procedures)]),
    ("workers", .object [("max_concurrent", .int settings.maxWorkers)]),
    ("watch", .object [("debounce_ms", .int settings.debounceMs)]),
    ("logging", .object [("level", .text settings.logging.level),
      ("format", .text settings.logging.format)])]

namespace Json.Decoder

def allDefaulted (names : List String) : List Field := names.map fun name => ⟨name, true⟩

def projectSettings : Decoder ProjectSettings :=
  record (allDefaulted ["name", "root"]) fun fields => do
    let absent : ProjectSettings := {}
    let name ← fields.orDefault "name" text absent.name
    let root ← fields.orDefault "root" text absent.root
    return { name, root }

def packageSettings : Decoder PackageSettings :=
  record (allDefaulted ["paths", "extensions", "exclude"]) fun fields => do
    let absent : PackageSettings := {}
    let paths ← fields.orDefault "paths" (list text) absent.paths
    let extensions ← fields.orDefault "extensions" (list text) absent.extensions
    let exclude ← fields.orDefault "exclude" (list text) absent.exclude
    return { paths, extensions, exclude }

def cacheSettings : Decoder CacheSettings :=
  record (allDefaulted ["path", "scratch_path"]) fun fields => do
    let absent : CacheSettings := {}
    let path ← fields.orDefault "path" text absent.path
    let scratchPath ← fields.optional "scratch_path" text
    return { path, scratchPath }

def extractionSettings : Decoder ExtractionSettings :=
  record (allDefaulted ["enable_src_extraction", "src_path", "extract_procedures"])
    fun fields => do
      let absent : ExtractionSettings := {}
      let sources ← fields.orDefault "enable_src_extraction" bool absent.sources
      let sourcePath ← fields.orDefault "src_path" text absent.sourcePath
      let procedures ← fields.orDefault "extract_procedures" bool absent.procedures
      return { sources, sourcePath, procedures }

def maxWorkers : Decoder Nat :=
  record (allDefaulted ["max_concurrent"]) fun fields => fields.orDefault "max_concurrent" word64 4

def debounceMs : Decoder Nat :=
  record (allDefaulted ["debounce_ms"]) fun fields => fields.orDefault "debounce_ms" word64 500

def loggingSettings : Decoder LoggingSettings :=
  record (allDefaulted ["level", "format"]) fun fields => do
    let absent : LoggingSettings := {}
    let level ← fields.orDefault "level" text absent.level
    let format ← fields.orDefault "format" text absent.format
    return { level, format }

def settings : Decoder Settings :=
  record (allDefaulted ["project", "packages", "cache", "extraction", "workers", "watch", "logging"])
    fun fields => do
      let project ← fields.orDefault "project" projectSettings {}
      let packages ← fields.orDefault "packages" packageSettings {}
      let cache ← fields.orDefault "cache" cacheSettings {}
      let extraction ← fields.orDefault "extraction" extractionSettings {}
      let maxWorkers ← fields.orDefault "workers" maxWorkers 4
      let debounceMs ← fields.orDefault "watch" debounceMs 500
      let logging ← fields.orDefault "logging" loggingSettings {}
      return { project, packages, cache, extraction, maxWorkers, debounceMs, logging }

end Json.Decoder

namespace Settings

def fileName : String := ".alcache.toml"

def logLevels : List String := LogLevel.all.map LogLevel.name

def logFormats : List String := ["compact", "full"]

def check (settings : Settings) : Except SettingsError Unit :=
  if settings.project.name == "" then .error .emptyProjectName
  else if settings.packages.paths.isEmpty then .error .noPackagePath
  else if settings.packages.extensions.isEmpty then .error .noPackageExtension
  else if settings.cache.path == "" then .error .emptyCachePath
  else if settings.extraction.sources && settings.extraction.sourcePath == "" then
    .error .emptySourcePath
  else if settings.maxWorkers = 0 then .error .noWorkers
  else if settings.debounceMs = 0 then .error .noDebounce
  else if !logLevels.contains settings.logging.level then
    .error (.badLogLevel settings.logging.level)
  else if !logFormats.contains settings.logging.format then
    .error (.badLogFormat settings.logging.format)
  else .ok ()

def parse (text : List Char) : Except SettingsError Settings :=
  match (Toml.parse? text).bind (Json.decode? Json.Decoder.settings) with
  | none => .error .malformed
  | some settings => do
    settings.check
    return settings

def load (tree : FileTree) (path : Path) : Except SettingsError Settings :=
  match tree.readText path with
  | .error cause => .error (.file cause)
  | .ok text => parse text

/-- The settings of a project directory; defaults when they cannot be used. -/
def ofProject (tree : FileTree) (dir : Path) : Settings :=
  match load tree (Path.join dir fileName) with
  | .ok settings => settings
  | .error _ => {}

end Settings

/-- The directories that the settings of a project name. -/
structure Places where
  projectRoot : Path
  packageDirs : List Path
  cacheDir : Path
  scratchDir : Path
  sourceDir : Path
  deriving DecidableEq, Repr

/-- The text of a location. -/
def Location.toPath (location : Location) : Path := "/" ++ "/".intercalate location

/-- An absolute path without dots and repeated slashes; two slashes at the start and one at the
end stay. Relative paths start at a working directory. -/
def Path.absolute? (workingDir path : Path) : Option Path :=
  if path == "" then none
  else
    let names := ((Path.components path).filterMap fun component => match component with
      | .root | .here => none
      | other => some (Path.componentText other))
    let start :=
      if Path.isAbsolute path then
        if (path.toList.takeWhile (· == '/')).length = 2 then "//" else "/"
      else workingDir
    let joined := names.foldl Path.join start
    some (if path.toList.getLast? == some '/' then Path.join joined "" else joined)

namespace Settings

/-- The places of a project directory, given the working directory and the one for temporary
files. -/
def places (settings : Settings) (workingDir tempDir dir : Path) : Places :=
  let base := (Path.absolute? workingDir dir).getD dir
  let root := Path.join base settings.project.root
  { projectRoot := root
    packageDirs := settings.packages.paths.map (Path.join root)
    cacheDir := Path.join root settings.cache.path
    scratchDir := match settings.cache.scratchPath with
      | some path => Path.join root path
      | none => Path.join tempDir "alcache-scratch"
    sourceDir := Path.join root settings.extraction.sourcePath }

end Settings

/-- Whether a path matches an exclude pattern: a directory with a slash at its end, a star at the
start or at the end, or else a file name or any part of the path. -/
def matchesPattern (path pattern : List Char) : Bool :=
  let fileName := (path.reverse.takeWhile (· != '/')).reverse
  if Text.endsWith ['/'] pattern then
    Text.startsWith pattern path ||
      Text.occursIn ('/' :: Text.dropEndWhile (· == '/') pattern) path
  else match Text.stripStart? ['*'] pattern, Text.stripEnd? ['*'] pattern with
    | some ending, _ => Text.endsWith ending path
    | none, some beginning => Text.startsWith beginning fileName
    | none, none => fileName == pattern || Text.occursIn pattern path

def PackageSettings.isPackage (settings : PackageSettings) (path : Path) : Bool :=
  let named := (Path.extension? path).any fun ext =>
    settings.extensions.any fun wanted => Text.sameWord wanted.toList ext.toList
  let slashed := path.toList.map fun c => if c == '\\' then '/' else c
  named && !settings.exclude.any fun pattern => matchesPattern slashed pattern.toList

end SymbolCache
