import SymbolCache.Package.ArchiveWriter
import SymbolCache.Proofs.PackageFiles
import SymbolCache.Proofs.ReachedDirectories

/-! The footprint of one package: while it is processed files are added below its scratch directory and in its
source directory, and whichever way the processing ends, the scratch directory is gone. -/

namespace SymbolCache

namespace FileTree

variable {tree after : FileTree} {region : Location → Prop} {path : Path}

theorem spot_congr {other : FileTree} (same : other.workingDir = tree.workingDir) (path : Path) :
    other.spot path = tree.spot path := by
  rw [spot, spot, startOf_congr same]

theorem IsOpen.not_file {node : Option FileNode} (opened : IsOpen node) {content : Bytes} {modified : Int} :
    node ≠ some (.file content modified) := by
  rcases opened with rfl | rfl <;> nofun

/-- Files outside of a region are as they were. -/
theorem Works.file_iff {way : Location → Prop} (works : Works region way tree after) {place : Location}
    (outside : ¬ region place) (content : Bytes) (modified : Int) :
    after.node? place = some (.file content modified) ↔ tree.node? place = some (.file content modified) := by
  rcases works.nodes place outside with same | ⟨-, before, now⟩
  · rw [same]
  · exact iff_of_false now.not_file before.not_file

/-- A tree gets more: its directories stay, and files change in a region only. -/
structure Adds (region : Location → Prop) (before after : FileTree) : Prop where
  works : Works region (fun _ => True) before after
  keeps : KeepsDirs before after

namespace Adds

theorem refl (sound : tree.Sound) : Adds region tree tree := ⟨.refl sound, .refl tree⟩

theorem trans {first second third : FileTree} (earlier : Adds region first second) (later : Adds region second third) :
    Adds region first third := ⟨earlier.works.trans later.works, earlier.keeps.trans later.keeps⟩

end Adds

theorem Makes.adds {way : Location → Prop} (makes : Makes way tree after) : Adds region tree after :=
  ⟨makes.works.mono (fun _ => id) fun _ _ => .inr trivial, makes.keepsDirs⟩

theorem write_adds {content : Bytes} (sound : tree.Sound) (inside : region (tree.spot path))
    (done : tree.write path content = .ok after) : Adds region tree after := by
  refine ⟨(write_works sound done).mono ?_ nofun, write_keepsDirs done⟩
  rintro place rfl
  exact inside

/-- A directory is gone: the path does not reach one, and nothing at all unless a file was hidden there. -/
structure Gone (path : Path) (before after : FileTree) : Prop where
  unreached : after.isDirectory path = false
  nothing : before.node? (before.spot path) = none → after.pathExists path = false

theorem pathExists_iff :
    tree.pathExists path = true ↔ ∃ location node, tree.locate path = .ok location ∧ tree.node? location = some node := by
  have found : tree.pathExists path = true ↔ ∃ node, tree.stat path = .ok node := by
    unfold pathExists
    cases tree.stat path <;> simp [Except.isOk, Except.toBool]
  rw [found, exists_comm]
  exact exists_congr fun node => stat_eq_ok_iff

/-- Out of reach is gone, as long as no file has come to stand there. -/
theorem Gone.of_open (unreached : after.isDirectory path = false) (same : after.workingDir = tree.workingDir)
    (nodes : after.node? (tree.spot path) = tree.node? (tree.spot path) ∨ after.node? (tree.spot path) = some .directory) :
    Gone path tree after := by
  refine ⟨unreached, fun free => ?_⟩
  rw [← Bool.not_eq_true, pathExists_iff]
  rintro ⟨location, node, located, found⟩
  rw [locate_eq_spot located, spot_congr same] at found
  rcases nodes with kept | made
  · rw [kept, free] at found
    cases found
  · have reached : after.isDirectory path = true := by
      refine isDirectory_iff.2 ⟨location, located, ?_⟩
      rwa [locate_eq_spot located, spot_congr same]
    rw [unreached] at reached
    cases reached

/-- Nothing is reached where everything has been taken away. -/
theorem Gone.of_prune {before : FileTree} (rooted : tree.spot path ≠ []) :
    Gone path before (tree.prune (tree.spot path)) := by
  have empty : (tree.prune (tree.spot path)).pathExists path = false := by
    rw [← Bool.not_eq_true, pathExists_iff]
    rintro ⟨location, node, located, found⟩
    have here : location = tree.spot path := (locate_eq_spot located).trans (spot_congr rfl path)
    rw [here, node?_prune, if_pos ⟨List.prefix_refl _, rooted⟩] at found
    cases found
  refine ⟨?_, fun _ => empty⟩
  rw [← Bool.not_eq_true] at empty ⊢
  intro reached
  obtain ⟨location, located, directory⟩ := isDirectory_iff.1 reached
  exact empty (pathExists_iff.2 ⟨location, _, located, directory⟩)

theorem prune_works (sound : tree.Sound) {location : Location} (inside : ∀ place, location <+: place → region place) :
    Works region (fun _ => True) tree (tree.prune location) := by
  refine ⟨sound.prune _, rfl, fun place outside => .inl ?_⟩
  rw [node?_prune, if_neg]
  rintro ⟨below, -⟩
  exact outside (inside place below)

end FileTree

open FileTree

/-- Steps that only add to the files, wherever they stop. Relative paths start where they do in `origin`. -/
def Adding {σ ε α : Type} (files : σ → FileTree) (origin : FileTree) (region : Location → Prop)
    (step : ExceptT ε (StateM σ) α) : Prop :=
  ∀ state, (files state).Sound → (files state).workingDir = origin.workingDir →
    Adds region (files state) (files (step state).2)

namespace Adding

variable {σ ε α β : Type} {files : σ → FileTree} {origin : FileTree} {region : Location → Prop}

theorem of_files_eq {step : ExceptT ε (StateM σ) α} (same : ∀ state, files (step state).2 = files state) :
    Adding files origin region step := by
  intro state sound _
  rw [same]
  exact .refl sound

theorem pure (value : α) : Adding files origin region (Pure.pure value : ExceptT ε (StateM σ) α) :=
  of_files_eq fun _ => rfl

theorem throw (cause : ε) : Adding files origin region (MonadExcept.throw cause : ExceptT ε (StateM σ) α) :=
  of_files_eq fun _ => rfl

theorem bind {step : ExceptT ε (StateM σ) α} {next : α → ExceptT ε (StateM σ) β} (first : Adding files origin region step)
    (rest : ∀ value, Adding files origin region (next value)) : Adding files origin region (step >>= next) := by
  intro state sound home
  have adds := first state sound home
  rw [bind_apply]
  rcases ran : step state with ⟨cause | value, middle⟩ <;> rw [ran] at adds
  · exact adds
  · exact adds.trans (rest value middle adds.works.sound (adds.works.workingDir.trans home))

end Adding

namespace Package

variable {origin : FileTree} {region : Location → Prop} {scratch dest path : Path}

theorem adding_makeDirs {ε : Type} (wrap : FileError → ε) (dir : Path) :
    Adding Workspace.tree origin region (FileAction.makeDirs wrap dir) :=
  fun _ sound _ => (FileAction.makes_makeDirs sound).adds

theorem adding_change {ε : Type} {wrap : FileError → ε} {operation : FileTree → Except FileError FileTree}
    (adds : ∀ tree after, tree.Sound → tree.workingDir = origin.workingDir → operation tree = .ok after →
      Adds region tree after) : Adding Workspace.tree origin region (FileAction.change wrap operation) := by
  intro space sound home
  unfold FileAction.change
  cases done : operation space.tree with
  | error cause => exact .refl sound
  | ok after => exact adds space.tree after sound home done

theorem adding_writeContent {target : Path} (inside : region (origin.spot target)) (entry : Archive.Entry)
    (content : Archive.Content) : Adding Workspace.tree origin region (writeContent entry content target) := by
  unfold writeContent
  refine .bind (adding_change fun tree after sound home done => ?_) fun _ => ?_
  · refine write_adds sound ?_ done
    rwa [spot_congr home]
  · split
    · exact .throw _
    · split
      · exact .throw _
      · exact .pure _

theorem adding_writeEntry {target : Path} (inside : region (origin.spot target)) (entry : Archive.Entry)
    (content : Archive.Content) : Adding Workspace.tree origin region (writeEntry entry content target) := by
  have writes := adding_writeContent inside entry content
  unfold writeEntry
  cases Path.parent? target with
  | none => exact writes
  | some parent => exact .bind (adding_makeDirs _ parent) fun _ => writes

theorem adding_unpackEntry (below : ∀ place, origin.spot scratch <+: place → region place) (entry : Archive.Entry) :
    Adding Workspace.tree origin region (unpackEntry path scratch entry) := by
  unfold unpackEntry
  split
  · exact .throw _
  · split
    · exact .bind (.of_files_eq fun _ => rfl) fun _ => .pure _
    · rename_i enclosed
      have named : isEnclosed entry.name = true := by simpa using enclosed
      have target : origin.spot scratch <+: origin.spot (Path.join scratch entry.name) := by
        rw [spot_join (relative_of_isEnclosed named)]
        exact prefix_of_isEnclosed named (List.prefix_refl _) _
      simp only
      split
      · exact .bind (adding_makeDirs _ _) fun _ => .pure _
      · exact .bind (adding_writeEntry (below _ target) entry _) fun _ => .pure _

theorem adding_unpackEntries (below : ∀ place, origin.spot scratch <+: place → region place) (entries : List Archive.Entry) :
    Adding Workspace.tree origin region (unpackEntries path scratch entries) := by
  induction entries with
  | nil => exact .pure _
  | cons entry rest ih => exact .bind (adding_unpackEntry below entry) fun _ => .bind ih fun _ => .pure _

/-- Strictly below a place, and the names on the way lead one step down each. -/
def SafelyBelow (root place : Location) : Prop :=
  ∃ names, names ≠ [] ∧ (∀ name ∈ names, Path.IsSafeName name) ∧ place = root ++ names

theorem SafelyBelow.isPrefix {root place : Location} (below : SafelyBelow root place) : root <+: place := by
  obtain ⟨names, -, -, rfl⟩ := below
  exact List.prefix_append ..

theorem adding_copySource (below : ∀ place, SafelyBelow (origin.spot dest) place → region place) (entry : Archive.Entry) :
    Adding Workspace.tree origin region (copySource path dest entry) := by
  unfold copySource
  split
  · exact .throw _
  · split
    · exact .pure _
    · rename_i relative found
      obtain ⟨segments, read, rfl⟩ := segments_of_sourcePath? found
      obtain ⟨filled, safe⟩ := safe_of_sourceSegments? read
      have named : ∀ name ∈ segments, Path.IsName name := fun name inside => (safe name inside).isName
      obtain ⟨steps, relative⟩ := Path.steps_intercalate named filled
      have target : origin.spot (Path.join dest ("/".intercalate segments)) = origin.spot dest ++ segments := by
        rw [spot_join relative, steps, foldl_enter_names named]
      exact .bind (adding_writeEntry (target ▸ below _ ⟨segments, filled, safe, rfl⟩) entry _) fun _ => .pure _

/-- A directory with a name of its own, below which all lies in a region. -/
structure Reserved (origin : FileTree) (region : Location → Prop) (dir : Path) : Prop where
  named : ∃ root name, Path.IsName name ∧ dir = Path.join root name
  inside : ∀ place, origin.spot dir <+: place → region place

namespace Reserved

variable {dir : Path} (reserved : Reserved origin region dir)

include reserved

theorem endsInStep : Path.EndsInStep dir := by
  obtain ⟨root, name, named, rfl⟩ := reserved.named
  exact Path.endsInStep_join_name root named

theorem written : dir ≠ "" := by
  obtain ⟨root, name, named, rfl⟩ := reserved.named
  intro empty
  have steps := Path.steps_join_name root named
  rw [empty] at steps
  exact absurd steps.symm (by simp [Path.steps, Path.parts, Text.splitAt, Path.isStep])

theorem rooted (tree : FileTree) : tree.spot dir ≠ [] := by
  obtain ⟨root, name, named, rfl⟩ := reserved.named
  simp [spot_join_name root named]

/-- Made when it is absent, or still absent. -/
theorem prepareScratch {space : Workspace} (sound : space.tree.Sound) (absent : space.tree.isDirectory dir = false) :
    Adds region space.tree (prepareScratch dir space).2.tree ∧
      match (Package.prepareScratch dir space).1 with
      | .ok _ => (Package.prepareScratch dir space).2.tree.isDirectory dir = true
      | .error _ => Gone dir space.tree (Package.prepareScratch dir space).2.tree := by
  rw [prepareScratch_apply]
  split
  · -- Something else than a directory is there, which is not removed.
    have kept : ∃ cause, FileAction.change (ExtractionError.file dir) (fun tree => tree.removeDirs dir) space =
        (.error cause, space) := by
      cases done : space.tree.removeDirs dir with
      | error cause => exact ⟨.file dir cause, by simp only [FileAction.change, done]⟩
      | ok after =>
        obtain ⟨location, located, directory, -⟩ := removeDirs_eq_ok done
        rw [isDirectory_iff.2 ⟨location, located, directory⟩] at absent
        cases absent
    obtain ⟨cause, kept⟩ := kept
    rw [bind_apply, kept]
    exact ⟨.refl sound, .of_open absent rfl (.inl rfl)⟩
  · refine ⟨(FileAction.makes_makeDirs sound).adds, ?_⟩
    unfold FileAction.makeDirs
    cases done : space.tree.makeDirs dir with
    | ok after => exact isDirectory_of_makeDirs sound reserved.written reserved.endsInStep done
    | error cause =>
      have makes := unfinishedDirs_makes sound dir
      have unreached := not_isDirectory_unfinishedDirs done
      simp only
      generalize space.tree.unfinishedDirs dir = left at makes unreached ⊢
      exact .of_open unreached makes.workingDir ((makes.nodes _).imp_right fun made => made.2.2)

/-- Removed with all that is in it. -/
theorem removeScratch {ε : Type} {before : FileTree} {space : Workspace} (home : space.tree.workingDir = origin.workingDir)
    (sound : space.tree.Sound) (reached : space.tree.isDirectory dir = true) :
    Works region (fun _ => True) space.tree (removeScratch dir space : Except ε Unit × Workspace).2.tree ∧
      Gone dir before (Package.removeScratch dir space : Except ε Unit × Workspace).2.tree := by
  obtain ⟨location, located, directory⟩ := isDirectory_iff.1 reached
  have removes : space.tree.removeDirs dir = .ok (space.tree.prune (space.tree.spot dir)) := by
    rw [removeDirs, located, ← locate_eq_spot located]
    simp [Bind.bind, Except.bind, directoryAt_eq_ok.2 directory]
  unfold Package.removeScratch
  rw [removes]
  refine ⟨prune_works sound ?_, .of_prune (reserved.rooted _)⟩
  rw [spot_congr home]
  exact reserved.inside

/-- Made and filled, or not there again. -/
theorem unpackInto {space : Workspace} (home : space.tree.workingDir = origin.workingDir) (sound : space.tree.Sound)
    (absent : space.tree.isDirectory dir = false) (path : Path) (entries : List Archive.Entry) :
    match unpackInto dir path entries space with
    | (.ok unpacked, after) => unpacked.root = dir ∧ Adds region space.tree after.tree ∧ after.tree.isDirectory dir = true
    | (.error _, after) => Works region (fun _ => True) space.tree after.tree ∧ Gone dir space.tree after.tree := by
  obtain ⟨made, prepared⟩ := reserved.prepareScratch sound absent
  simp only [Package.unpackInto]
  rw [bind_apply]
  rcases ran : Package.prepareScratch dir space with ⟨cause | _, middle⟩ <;> rw [ran] at made prepared
  · exact ⟨made.works, prepared⟩
  · have begun : middle.tree.workingDir = origin.workingDir := made.works.workingDir.trans home
    have fills := @adding_unpackEntries origin region dir path reserved.inside entries middle made.works.sound begun
    simp only [bind_apply, FileAction.onFailure]
    rcases unpacks : unpackEntries path dir entries middle with ⟨cause | count, filled⟩ <;> rw [unpacks] at fills
    · obtain ⟨cleans, gone⟩ := @Reserved.removeScratch origin region dir reserved ExtractionError space.tree filled
        (fills.works.workingDir.trans begun) fills.works.sound (fills.keeps.isDirectory prepared)
      have whole := made.works.trans (fills.works.trans cleans)
      rcases removes : (Package.removeScratch dir filled : Except ExtractionError Unit × Workspace) with
        ⟨_ | _, left⟩ <;> simp only [removes] at whole gone ⊢
      · exact ⟨whole, gone⟩
      · exact ⟨whole, gone⟩
    · exact ⟨rfl, made.trans fills, fills.keeps.isDirectory prepared⟩

end Reserved

theorem reserved_scratchPath {root : Path} (below : ∀ place, origin.spot root <+: place → region place) (path : Path) :
    Reserved origin region (scratchPath root path) := by
  refine ⟨⟨root, scratchName path, isName_scratchName path, rfl⟩, fun place inside => ?_⟩
  rw [scratchPath, spot_join_name root (isName_scratchName path)] at inside
  exact below place ((List.prefix_append ..).trans inside)

/-- Unpacking makes a scratch directory and fills it, or leaves none. -/
theorem unpack_of_absent {root : Path} {space : Workspace} (below : ∀ place, space.tree.spot root <+: place → region place)
    (sound : space.tree.Sound) (absent : space.tree.isDirectory (scratchPath root path) = false) :
    match unpack root path space with
    | (.ok unpacked, after) => unpacked.root = scratchPath root path ∧ Adds region space.tree after.tree ∧
      after.tree.isDirectory (scratchPath root path) = true
    | (.error _, after) => Works region (fun _ => True) space.tree after.tree ∧
      Gone (scratchPath root path) space.tree after.tree := by
  have reserved := reserved_scratchPath below path
  obtain ⟨log, unpacks⟩ := unpack_apply root path space
  rw [unpacks]
  generalize scratchPath root path = dir at *
  cases openArchive space.tree path with
  | error cause => exact ⟨.refl sound, .of_open absent rfl (.inl rfl)⟩
  | ok entries => exact @Reserved.unpackInto _ _ dir reserved ⟨space.tree, log⟩ rfl sound absent path entries

end Package

namespace Worker

variable {origin : FileTree} {region : Location → Prop} {verdict : Nat → Verdict} {path dest : Path}

theorem deliver_bind {α : Type} (reply : Reply) (next : Verdict → Step Fault α) (session : Session) :
    ((deliver verdict reply : StateM Session Verdict) >>= next : Step Fault α) session =
      next (verdict session.attempts) (deliver verdict reply session).2 := rfl

theorem tree_send (reply : Reply) (session : Session) : (send verdict reply session).2.tree = session.tree := by
  rw [send, deliver_bind]
  cases verdict session.attempts <;> rfl

theorem adding_send (reply : Reply) : Adding Session.tree origin region (send verdict reply) := .of_files_eq (tree_send reply)

theorem adding_note (entries : List LogEntry) : Adding Session.tree origin region (note entries) :=
  .of_files_eq fun _ => rfl

theorem adding_attempt {ε α : Type} {action : FileAction ε α} (adding : Adding Workspace.tree origin region action) :
    Adding Session.tree origin region (attempt action) := fun session sound home => adding ⟨session.tree, []⟩ sound home

theorem adding_reportCopy (run : CopyRun) (relative : Path) :
    Adding Session.tree origin region (reportCopy verdict run relative) := by
  refine .of_files_eq fun session => ?_
  unfold reportCopy
  cases run.refusal with
  | some reason => rfl
  | none =>
    simp only [Option.isSome_none, Bool.false_eq_true, if_false]
    rw [deliver_bind]
    cases verdict session.attempts <;> rfl

/-- Copying goes on with the next entry or stops; either way it only adds below the directory. -/
theorem adding_copyAll (below : ∀ place, Package.SafelyBelow (origin.spot dest) place → region place) (run : CopyRun)
    (entries : List Archive.Entry) : Adding Session.tree origin region (copyAll verdict path dest run entries) := by
  induction entries generalizing run with
  | nil => exact .pure _
  | cons entry rest ih =>
    unfold copyAll
    refine .bind (adding_attempt (Package.adding_copySource below entry)) fun result => ?_
    split
    · exact .pure _
    · exact ih run
    · exact .bind (adding_reportCopy _ _) fun _ => ih _

theorem adding_copySources {fileName : String} {entries : List Archive.Entry}
    (below : ∀ artifact, Artifact.ofPath? path = some artifact →
      ∀ place, Package.SafelyBelow (origin.spot (artifact.sourceDir dest)) place → region place) :
    Adding Session.tree origin region (copySources verdict path dest fileName entries) := by
  unfold copySources
  split
  · exact .bind (adding_note _) fun _ => adding_send _
  · rename_i artifact found
    refine .bind (adding_copyAll (below artifact found) _ _) ?_
    rintro ⟨run, failure⟩
    cases failure with
    | none =>
      refine .bind (adding_note _) fun _ => ?_
      cases run.refusal with
      | some reason => exact .throw _
      | none => exact adding_send _
    | some cause =>
      simp only [Option.isNone_some, Bool.false_eq_true, if_false]
      cases run.refusal with
      | some reason => exact .throw _
      | none => exact .bind (adding_note _) fun _ => adding_send _

/-- The source directory of a package, when its sources are to be extracted. -/
def SourceArea (tree : FileTree) (path : Path) (options : ProcessOptions) (place : Location) : Prop :=
  ∃ base artifact, options.enableSrcExtraction = true ∧ options.srcExtractionPath = some base ∧
    Artifact.ofPath? path = some artifact ∧ tree.spot (artifact.sourceDir base) <+: place

/-- Where the processing of a package may change files. -/
def Footprint (tree : FileTree) (path : Path) (options : ProcessOptions) (place : Location) : Prop :=
  tree.spot options.extractPath <+: place ∨ SourceArea tree path options place

/-- Steps keep to a region and leave no directory behind. -/
def Clears (region : Location → Prop) (dir : Path) (before after : FileTree) : Prop :=
  Works region (fun _ => True) before after ∧ Gone dir before after

/-- Whatever is done with an unpacked package, its scratch directory is removed afterwards. -/
theorem clears_cleaningUp {α : Type} {dir : Path} {before : FileTree} {steps : Step Fault α} {session : Session}
    (reserved : Package.Reserved before region dir) (adding : Adding Session.tree before region steps)
    (unpacked : Adds region before session.tree) (reached : session.tree.isDirectory dir = true) :
    Clears region dir before (cleaningUp steps (Package.removeScratch dir) session).2.tree := by
  have home := unpacked.works.workingDir
  have adds := adding session unpacked.works.sound home
  obtain ⟨cleans, gone⟩ := @Package.Reserved.removeScratch before region dir reserved Fault before
    ⟨(steps session).2.tree, []⟩ (adds.works.workingDir.trans home) adds.works.sound (adds.keeps.isDirectory reached)
  exact ⟨unpacked.works.trans (adds.works.trans cleans), gone⟩

theorem onFiles_apply {ε α : Type} (wrap : ε → Fault) (action : FileAction ε α) (session : Session) :
    onFiles wrap action session = match action ⟨session.tree, []⟩ with
      | (.ok value, space) => (.ok value, session.resume space)
      | (.error cause, space) => (.error (wrap cause), session.resume space) := by
  unfold onFiles
  rw [bind_apply, attempt]
  rcases action ⟨session.tree, []⟩ with ⟨_ | _, _⟩ <;> rfl

theorem clears_processPackage (options : ProcessOptions) {session : Session} (sound : session.tree.Sound)
    (absent : session.tree.isDirectory (Package.scratchPath options.extractPath path) = false) :
    Clears (Footprint session.tree path options) (Package.scratchPath options.extractPath path) session.tree
      (processPackage verdict path options session).2.tree := by
  have reserved : Package.Reserved session.tree (Footprint session.tree path options)
      (Package.scratchPath options.extractPath path) := Package.reserved_scratchPath (fun _ => .inl) path
  have untouched : Clears (Footprint session.tree path options) (Package.scratchPath options.extractPath path)
      session.tree session.tree := ⟨.refl sound, .of_open absent rfl (.inl rfl)⟩
  unfold processPackage
  generalize (Path.fileName? path).getD "" = fileName
  rw [bind_apply]
  have same := @tree_send verdict (.progress ("Extracting " ++ fileName)) session
  rcases told : send verdict (.progress ("Extracting " ++ fileName)) session with ⟨fault | _, begun⟩ <;> rw [told] at same
  · rwa [show begun.tree = session.tree from same]
  have unpacking := @Package.unpack_of_absent (Footprint session.tree path options) path options.extractPath
    ⟨session.tree, []⟩ (fun _ => .inl) sound absent
  show Clears _ _ _ ((onFiles _ _ >>= _ : Step Fault SymbolTable) begun).2.tree
  rw [bind_apply, onFiles_apply, show begun.tree = session.tree from same]
  generalize Package.scratchPath options.extractPath path = dir at *
  rcases ran : Package.unpack options.extractPath path ⟨session.tree, []⟩ with ⟨cause | unpacked, after⟩ <;>
    rw [ran] at unpacking
  · exact unpacking
  · obtain ⟨rfl, adds, reached⟩ := unpacking
    show Clears _ _ _ (cleaningUp _ (Package.removeScratch unpacked.root) (begun.resume after)).2.tree
    refine clears_cleaningUp reserved ?_ adds reached
    refine .bind (adding_note _) fun _ => ?_
    extract_lets reading
    have reads : Adding Session.tree session.tree (Footprint session.tree path options) (reading ()) := by
      refine .bind (adding_send _) fun _ => .bind (.of_files_eq fun _ => rfl) fun seen => .bind (adding_note _) fun _ => ?_
      split
      · exact .bind (adding_note _) fun _ => .pure _
      · exact .throw _
    split
    · rename_i base enabled target
      refine .bind (adding_copySources fun artifact found place below => .inr ?_) fun _ => reads
      exact ⟨base, artifact, enabled, target, found, below.isPrefix⟩
    · exact reads

/-- A package leaves no scratch directory behind, and no file outside of the scratch root and its own source directory is
changed, however its processing ends. -/
theorem handleProcess_footprint (verdict : Nat → Verdict) (path : Path) (options : ProcessOptions) (session : Session)
    (sound : session.tree.Sound)
    (absent : session.tree.isDirectory (Package.scratchPath options.extractPath path) = false) :
    let scratch := Package.scratchPath options.extractPath path
    let after := (handleProcess verdict path options session).2.tree
    after.isDirectory scratch = false ∧
    (session.tree.node? (session.tree.spot scratch) = none → after.pathExists scratch = false) ∧
    (∀ place, ¬ session.tree.spot options.extractPath <+: place → ¬ SourceArea session.tree path options place →
      ∀ content modified, after.node? place = some (.file content modified) ↔
        session.tree.node? place = some (.file content modified)) ∧
    (options.enableSrcExtraction = false ∨ options.srcExtractionPath = none →
      ∀ place, ¬ session.tree.spot options.extractPath <+: place →
        ∀ content modified, after.node? place = some (.file content modified) ↔
          session.tree.node? place = some (.file content modified)) := by
  intro scratch after
  have files : after = (processPackage verdict path options { session with level := .parse options.logLevel }).2.tree :=
    tree_send _ _
  obtain ⟨works, gone⟩ := @clears_processPackage verdict path options { session with level := .parse options.logLevel }
    sound absent
  rw [← files] at works gone
  refine ⟨gone.unreached, gone.nothing, fun place aside apart => works.file_iff (not_or.2 ⟨aside, apart⟩), ?_⟩
  intro off place aside
  refine works.file_iff (not_or.2 ⟨aside, ?_⟩)
  rintro ⟨base, artifact, enabled, target, -⟩
  rcases off with disabled | missing
  · rw [enabled] at disabled
    cases disabled
  · rw [target] at missing
    cases missing

/-- A package with one source file next to some notes, and no scratch directory yet. -/
def shelf : FileTree :=
  ⟨[(["pkgs"], .directory),
    (["pkgs", "Pub_App_1.0.app"], .file (Archive.render [.stored "src/A.al" (Text.encodeUtf8 "table 1 A { }".toList)]) 1),
    (["pkgs", "notes.txt"], .file [110] 2)], [], 2⟩

def shelfOptions : ProcessOptions := ⟨"/cache", "/scratch", true, some "/sources", "info", true⟩

/-- The package has been unpacked, for its source file is copied and the scratch root is there, but nothing in it is left. -/
theorem handleProcess_footprint_shelf :
    let after := (handleProcess always "/pkgs/Pub_App_1.0.app" shelfOptions (.start shelf)).2.tree
    after.isDirectory (Package.scratchPath "/scratch" "/pkgs/Pub_App_1.0.app") = false ∧
      after.pathExists (Package.scratchPath "/scratch" "/pkgs/Pub_App_1.0.app") = false ∧
      after.isDirectory "/scratch" = true ∧ after.pathExists "/sources/App/1.0/A.al" = true ∧
      after.node? ["pkgs", "notes.txt"] = some (.file [110] 2) := by
  have fresh : shelf.isDirectory (Package.scratchPath "/scratch" "/pkgs/Pub_App_1.0.app") = false ∧
      shelf.node? (shelf.spot (Package.scratchPath "/scratch" "/pkgs/Pub_App_1.0.app")) = none := by decide +kernel
  have unpacked : ((handleProcess always "/pkgs/Pub_App_1.0.app" shelfOptions (.start shelf)).2.tree.isDirectory "/scratch" &&
      (handleProcess always "/pkgs/Pub_App_1.0.app" shelfOptions (.start shelf)).2.tree.pathExists
        "/sources/App/1.0/A.al") = true := by decide +kernel
  obtain ⟨made, copied⟩ := Bool.and_eq_true_iff.1 unpacked
  obtain ⟨unreached, nothing, kept, -⟩ := handleProcess_footprint always "/pkgs/Pub_App_1.0.app" shelfOptions (.start shelf)
    (by decide +kernel) fresh.1
  refine ⟨unreached, nothing fresh.2, made, copied, (kept ["pkgs", "notes.txt"] (by decide +kernel) ?_ _ _).2 (by decide +kernel)⟩
  rintro ⟨base, artifact, -, target, -, below⟩
  obtain rfl : "/sources" = base := Option.some.inj target
  rw [Artifact.sourceDir, spot_join_name _ (isName_sanitizeSegment _), spot_join_name _ (isName_appDirName _),
    List.append_assoc] at below
  have outside : ¬ shelf.spot "/sources" <+: ["pkgs", "notes.txt"] := by decide +kernel
  exact outside ((List.prefix_append ..).trans below)

end Worker

end SymbolCache
