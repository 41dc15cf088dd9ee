import SymbolCache.Package.Extraction
import SymbolCache.Proofs.LegacyHeader
import SymbolCache.Proofs.StraightPaths

/-! Directories of packages: their names are proper, and a scratch directory is empty once it has been
prepared, which succeeds unless a file is in the way. -/

namespace SymbolCache

theorem Text.mem_of_mem_dropEndWhile {p : Char → Bool} {text : List Char} {c : Char}
    (member : c ∈ Text.dropEndWhile p text) : c ∈ text :=
  List.mem_reverse.1 ((List.dropWhile_sublist p).subset (List.mem_reverse.1 member))

section Names

/-- A name that leads one step down, also where backslashes divide paths. -/
structure Path.IsSafeName (name : String) : Prop where
  filled : name ≠ ""
  notHere : name ≠ "."
  notUp : name ≠ ".."
  slashless : '/' ∉ name.toList
  backslashless : '\\' ∉ name.toList
  printable : ∀ c ∈ name.toList, Text.isControl c = false

theorem Path.IsSafeName.isName {name : String} (safe : IsSafeName name) : IsName name := by
  refine ⟨safe.slashless, ?_, safe.notUp⟩
  rw [isStep, Bool.and_eq_true, bne_iff_ne, bne_iff_ne]
  exact ⟨safe.filled, safe.notHere⟩

private theorem isSafeName_of_allowed {name : String} (filled : name ≠ "") (notHere : name ≠ ".") (notUp : name ≠ "..")
    (allowed : ∀ c ∈ name.toList, isUnsafe c = false) : Path.IsSafeName name := by
  have absent {c : Char} (refused : isUnsafe c = true) : c ∉ name.toList := by
    intro member
    rw [allowed c member] at refused
    cases refused
  refine ⟨filled, notHere, notUp, absent (by decide), absent (by decide), fun c member => ?_⟩
  exact (Bool.or_eq_false_iff.1 (allowed c member)).2

theorem allowed_of_mem_sanitizeSegment {text : String} {c : Char} (member : c ∈ (sanitizeSegment text).toList) :
    isUnsafe c = false := by
  have cleaned {c : Char} (member : c ∈ text.toList.map fun c => if isUnsafe c then '_' else c) : isUnsafe c = false := by
    obtain ⟨original, -, rfl⟩ := List.mem_map.1 member
    split
    · decide
    · rename_i allowed
      simpa using allowed
  unfold sanitizeSegment at member
  simp only at member
  split at member
  · obtain rfl : c = '_' := by simpa using member
    decide
  · rw [String.toList_ofList] at member
    exact cleaned (Text.mem_of_mem_trim (Text.mem_of_mem_dropEndWhile (Text.mem_of_mem_trim member)))

theorem isSafeName_sanitizeSegment (text : String) : Path.IsSafeName (sanitizeSegment text) := by
  have kept : sanitizeSegment text ≠ "" ∧ sanitizeSegment text ≠ "." ∧ sanitizeSegment text ≠ ".." := by
    unfold sanitizeSegment
    simp only
    split
    · decide
    · rename_i other
      simp only [Bool.or_eq_true, beq_iff_eq, not_or] at other
      obtain ⟨⟨filled, notHere⟩, notUp⟩ := other
      exact ⟨fun same => filled (by simpa using congrArg String.toList same),
        fun same => notHere (by simpa using congrArg String.toList same),
        fun same => notUp (by simpa using congrArg String.toList same)⟩
  exact isSafeName_of_allowed kept.1 kept.2.1 kept.2.2 fun _ => allowed_of_mem_sanitizeSegment

theorem isName_sanitizeSegment (text : String) : Path.IsName (sanitizeSegment text) :=
  (isSafeName_sanitizeSegment text).isName

private theorem allowed_of_mem_hashText {text : String} {c : Char} (member : c ∈ (hashText text).toList) :
    isUnsafe c = false := by
  have digit : ∀ number < 16, isUnsafe (Nat.digitChar number) = false := by decide
  unfold hashText Digest.short at member
  simp only [String.toList_ofList, List.mem_flatMap] at member
  obtain ⟨byte, -, member⟩ := member
  have small : byte.toNat < 256 := byte.toNat_lt
  simp only [Digest.hexDigits, List.mem_cons, List.not_mem_nil, or_false] at member
  rcases member with rfl | rfl
  · exact digit (byte.toNat / 16) (by omega)
  · exact digit (byte.toNat % 16) (by omega)

/-- A segment with a hash after it is a name. -/
theorem isSafeName_hashed (segment text : String) :
    Path.IsSafeName (sanitizeSegment segment ++ "-" ++ hashText text) := by
  have dash : '-' ∈ (sanitizeSegment segment ++ "-" ++ hashText text).toList := by simp
  have other {name : String} (dashless : '-' ∉ name.toList) : sanitizeSegment segment ++ "-" ++ hashText text ≠ name := by
    intro same
    exact dashless (same ▸ dash)
  refine isSafeName_of_allowed (other (by decide)) (other (by decide)) (other (by decide)) fun c member => ?_
  simp only [String.toList_append, List.mem_append] at member
  rcases member with (inSegment | inDash) | inHash
  · exact allowed_of_mem_sanitizeSegment inSegment
  · obtain rfl : c = '-' := by simpa using inDash
    decide
  · exact allowed_of_mem_hashText inHash

theorem isName_scratchName (path : Path) : Path.IsName (Package.scratchName path) :=
  (isSafeName_hashed _ path).isName

theorem isSafeName_appDirName (artifact : Artifact) : Path.IsSafeName artifact.appDirName := by
  unfold Artifact.appDirName
  simp only
  split
  · exact isSafeName_sanitizeSegment _
  · exact isSafeName_hashed _ _

theorem isName_appDirName (artifact : Artifact) : Path.IsName artifact.appDirName :=
  (isSafeName_appDirName artifact).isName

end Names

namespace FileTree

variable {tree after : FileTree} {path : Path}

/-- A directory is there and nothing is in it. -/
structure Vacant (tree : FileTree) (place : Location) : Prop where
  directory : tree.node? place = some .directory
  nothing : ∀ names, names ≠ [] → tree.node? (place ++ names) = none

/-- Strictly below a location. -/
def Inside (root place : Location) : Prop := root <+: place ∧ place ≠ root

theorem node?_append_eq_none (sound : tree.Sound) {place : Location} (missing : tree.node? place = none)
    (names : List String) : tree.node? (place ++ names) = none := by
  cases found : tree.node? (place ++ names) with
  | none => rfl
  | some node =>
    by_cases here : place = place ++ names
    · rw [← here, missing] at found
      cases found
    · rw [sound.directory_of_prefix (List.prefix_append ..) found here] at missing
      cases missing

private theorem makeDirs_vacant (sound : tree.Sound) (straight : Path.Straight path)
    (nothing : ∀ names, tree.node? (Path.steps path ++ names) = none) (done : tree.makeDirs path = .ok after) :
    Works (Inside (Path.steps path)) (· <+: Path.steps path) tree after ∧ after.Vacant (Path.steps path) := by
  obtain ⟨makes, directory⟩ := makeDirs_makes sound straight.written done
  rw [spot_of_straight straight] at directory
  refine ⟨(makes.mono fun place visits => (visits_iff_of_straight straight).1 visits).works, directory, ?_⟩
  intro names filled
  rcases makes.nodes (Path.steps path ++ names) with same | ⟨visits, -⟩
  · rw [same, nothing]
  · have longer := ((visits_iff_of_straight straight).1 visits).length_le
    rw [List.length_append] at longer
    exact absurd (List.length_eq_zero_iff.1 (by omega)) filled

private theorem writable_of_ensureDir (ends : Path.EndsInStep path) (done : tree.ensureDir path = .ok after) :
    Writable path ∧ Path.Short path := by
  unfold ensureDir at done
  split at done
  · rename_i new
    obtain ⟨location, located, -⟩ := makeDir_eq_ok new
    rw [ends.dropSlashes] at located
    exact writable_of_locate located
  · split at done
    · rename_i present
      obtain ⟨location, located, -⟩ := isDirectory_iff.1 present
      exact writable_of_locate located
    · cases done

/-- However much is made above it, a directory is made in one step at the end. -/
private theorem exists_ensureDir_of_makeDirs (written : path ≠ "") (done : tree.makeDirs path = .ok after) :
    ∃ middle : FileTree, middle.ensureDir path = .ok after := by
  unfold makeDirs at done
  rw [makeDirsUpTo, if_neg (by simpa using written)] at done
  split at done
  · rename_i new
    cases done
    exact ⟨tree, new⟩
  · split at done
    · cases done
    · rename_i parent _
      cases above : tree.makeDirsUpTo path.length parent with
      | error cause =>
        rw [above] at done
        cases done
      | ok middle =>
        rw [above] at done
        exact ⟨middle, done⟩
  · cases done

/-- A directory that has been made could be made. -/
theorem passable_of_makeDirs (sound : tree.Sound) (straight : Path.Straight path) (ends : Path.EndsInStep path)
    (done : tree.makeDirs path = .ok after) : tree.Passable path := by
  obtain ⟨makes, directory⟩ := makeDirs_makes sound straight.written done
  rw [spot_of_straight straight] at directory
  obtain ⟨middle, ensured⟩ := exists_ensureDir_of_makeDirs straight.written done
  obtain ⟨writable, short⟩ := writable_of_ensureDir ends ensured
  refine ⟨writable, short, fun place early => ?_⟩
  have now : after.node? place = some .directory := by
    by_cases whole : place = Path.steps path
    · rw [whole]
      exact directory
    · exact makes.sound.directory_of_prefix early directory whole
  rcases makes.nodes place with same | ⟨-, free, -⟩
  · rw [← same]
    exact .inr now
  · exact .inl free

theorem Passable.locate (passable : tree.Passable path) (sound : tree.Sound) (straight : Path.Straight path)
    (present : tree.node? (Path.steps path) ≠ none) : tree.locate path = .ok (Path.steps path) ∧
      tree.node? (Path.steps path) = some .directory := by
  have directory := (passable.free _ (List.prefix_refl _)).resolve_left present
  obtain ⟨location, located, -⟩ := isDirectory_iff.1
    ((isDirectory_of_straight sound straight).2 ⟨passable.writable, passable.short, directory⟩)
  rw [locate_eq_spot located, spot_of_straight straight] at located
  exact ⟨located, directory⟩

end FileTree

namespace Package

open FileTree

variable {dir : Path} {space : Workspace}

theorem confined_removeDirs {ε : Type} {wrap : FileError → ε} (straight : Path.Straight dir) :
    FileAction.Confined (Inside (Path.steps dir)) (· <+: Path.steps dir)
      (FileAction.change wrap fun tree => tree.removeDirs dir) := by
  refine .change fun tree after sound done => ?_
  have works := removeDirs_works sound done
  rw [spot_of_straight straight] at works
  exact works.mono (fun _ => id) fun place here => .inr (here ▸ List.prefix_refl _)

theorem confined_makeDirs {ε : Type} {wrap : FileError → ε} {region : Location → Prop} (straight : Path.Straight dir) :
    FileAction.Confined region (· <+: Path.steps dir) (FileAction.makeDirs wrap dir) :=
  .makeDirs fun _ _ visits => .inr ((visits_iff_of_straight straight).1 visits)

theorem confined_prepareScratch (straight : Path.Straight dir) :
    FileAction.Confined (Inside (Path.steps dir)) (· <+: Path.steps dir) (prepareScratch dir) := by
  unfold prepareScratch
  refine .bind (fun _ sound => .refl sound) fun space => ?_
  split
  · exact .bind (confined_removeDirs straight) fun _ => confined_makeDirs straight
  · exact confined_makeDirs straight

theorem confined_removeScratch {ε : Type} (straight : Path.Straight dir) :
    FileAction.Confined (Inside (Path.steps dir)) (· <+: Path.steps dir) (removeScratch dir : FileAction ε Unit) := by
  intro space sound
  unfold removeScratch
  cases done : space.tree.removeDirs dir with
  | error cause => exact .refl sound
  | ok after =>
    have works := removeDirs_works sound done
    rw [spot_of_straight straight] at works
    exact works.mono (fun _ => id) fun place here => .inr (here ▸ List.prefix_refl _)

theorem prepareScratch_apply (dir : Path) (space : Workspace) : prepareScratch dir space =
    if space.tree.pathExists dir then
      ((FileAction.change (.file dir) fun tree => tree.removeDirs dir) >>= fun _ =>
        FileAction.makeDirs (.file dir) dir : FileAction ExtractionError Unit) space
    else FileAction.makeDirs (.file dir) dir space := by
  unfold prepareScratch
  rw [bind_apply]
  show (if space.tree.pathExists dir then _ else _ : FileAction ExtractionError Unit) space = _
  split <;> rfl

/-- A scratch directory is made empty unless a file is in the way. -/
theorem prepareScratch_of_passable (sound : space.tree.Sound) (straight : Path.Straight dir)
    (ends : Path.EndsInStep dir) (passable : space.tree.Passable dir) :
    ∃ after, prepareScratch dir space = (.ok (), after) ∧ after.tree.Vacant (Path.steps dir) := by
  have finishes (tree : FileTree) (log : List LogEntry) (sound : tree.Sound) (passable : tree.Passable dir)
      (nothing : ∀ names, tree.node? (Path.steps dir ++ names) = none) :
      ∃ after, FileAction.makeDirs (ExtractionError.file dir) dir ⟨tree, log⟩ = (.ok (), after) ∧
        after.tree.Vacant (Path.steps dir) := by
    obtain ⟨made, done⟩ := makeDirs_of_passable sound straight passable ends
    exact ⟨⟨made, log⟩, FileAction.makeDirs_eq_ok_iff.2 ⟨done, rfl⟩, (makeDirs_vacant sound straight nothing done).2⟩
  by_cases present : space.tree.node? (Path.steps dir) = none
  · have absent : space.tree.pathExists dir = false := by
      cases found : space.tree.stat dir with
      | error cause => simp [pathExists, found, Except.isOk, Except.toBool]
      | ok node =>
        obtain ⟨location, located, there⟩ := stat_eq_ok_iff.1 found
        rw [locate_eq_spot located, spot_of_straight straight, present] at there
        cases there
    rw [prepareScratch_apply, if_neg (by simp [absent])]
    exact finishes space.tree space.log sound passable (node?_append_eq_none sound present)
  · obtain ⟨located, directory⟩ := passable.locate sound straight present
    have there : space.tree.pathExists dir = true := by
      rw [pathExists, stat_eq_ok_iff.2 ⟨_, located, directory⟩]
      rfl
    have removes : space.tree.removeDirs dir = .ok (space.tree.prune (Path.steps dir)) := by
      rw [removeDirs, located]
      simp [bind, Except.bind, directoryAt_eq_ok.2 directory]
    have rooted : Path.steps dir ≠ [] := by
      obtain ⟨front, name, parts, step⟩ := ends
      rw [Path.steps, parts, List.filter_append, List.filter_cons_of_pos step]
      simp
    have removed : FileAction.change (ExtractionError.file dir) (fun tree => tree.removeDirs dir) space =
        (.ok (), ⟨space.tree.prune (Path.steps dir), space.log⟩) := FileAction.change_eq_ok_iff.2 ⟨removes, rfl⟩
    rw [prepareScratch_apply, if_pos there, bind_apply, removed]
    refine finishes (space.tree.prune (Path.steps dir)) space.log (sound.prune _) ⟨passable.writable, passable.short, ?_⟩ ?_
    · intro place early
      rw [node?_prune]
      split
      · exact .inl rfl
      · exact passable.free place early
    · intro names
      rw [node?_prune, if_pos ⟨List.prefix_append .., by simp [rooted]⟩]

/-- A scratch directory that has been made could be made. -/
theorem passable_of_prepareScratch {after : Workspace} (sound : space.tree.Sound) (straight : Path.Straight dir)
    (ends : Path.EndsInStep dir) (done : prepareScratch dir space = (.ok (), after)) : space.tree.Passable dir := by
  rw [prepareScratch_apply] at done
  split at done
  · obtain ⟨_, middle, removed, made⟩ := bind_eq_ok_iff.1 done
    obtain ⟨location, located, directory, pruned⟩ := removeDirs_eq_ok (FileAction.change_eq_ok_iff.1 removed).1
    have works := (confined_removeDirs straight).of_eq sound removed
    have passable := passable_of_makeDirs works.sound straight ends (FileAction.makeDirs_eq_ok_iff.1 made).1
    rw [locate_eq_spot located, spot_of_straight straight] at directory
    refine ⟨passable.writable, passable.short, fun place early => ?_⟩
    by_cases whole : place = Path.steps dir
    · rw [whole]
      exact .inr directory
    · exact .inr (sound.directory_of_prefix early directory whole)
  · exact passable_of_makeDirs sound straight ends (FileAction.makeDirs_eq_ok_iff.1 done).1

end Package

end SymbolCache
