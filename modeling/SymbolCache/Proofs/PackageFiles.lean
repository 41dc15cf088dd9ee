import SymbolCache.Proofs.CatalogViews
import SymbolCache.Proofs.PackageAnswers

/-! What the processing of a package depends on and where it leaves traces. Its answer is decided by the
bytes of the package, unless a file is in the way of its scratch directory; what it changes lies in that directory
and in the source directory. -/

namespace SymbolCache

open FileTree

theorem Path.steps_intercalate {names : List String} (named : ∀ name ∈ names, IsName name) (filled : names ≠ []) :
    steps ("/".intercalate names) = names ∧ isAbsolute ("/".intercalate names) = false := by
  induction names with
  | nil => exact absurd rfl filled
  | cons name rest ih =>
    have here := named name (List.mem_cons_self ..)
    cases rest with
    | nil =>
      rw [String.intercalate_singleton]
      exact ⟨here.steps, here.relative⟩
    | cons next rest =>
      obtain ⟨steps, relative⟩ := ih (fun other inside => named other (List.mem_cons_of_mem _ inside)) (by simp)
      have joined : "/".intercalate (name :: next :: rest) = join name ("/".intercalate (next :: rest)) := by
        have written : name ≠ "" := by
          rintro rfl
          cases here.isStep
        have unended : name.toList.getLast? ≠ some '/' := fun last => here.slashless (List.mem_of_getLast? last)
        rw [join, relative, String.intercalate_cons_cons]
        simp [written, unended]
      rw [joined, steps_join relative, isAbsolute_join relative, steps, here.steps]
      exact ⟨rfl, here.relative⟩

namespace FileTree

/-- Neither location lies at or below the other. -/
def Apart (one other : Location) : Prop := ¬ one <+: other ∧ ¬ other <+: one

instance (one other : Location) : Decidable (Apart one other) := inferInstanceAs (Decidable (_ ∧ _))

namespace Apart

variable {one other longer : Location}

theorem symm (apart : Apart one other) : Apart other one := ⟨apart.2, apart.1⟩

theorem below (apart : Apart one other) (below : one <+: longer) : Apart longer other := by
  refine ⟨fun above => apart.1 (below.trans above), fun above => ?_⟩
  rcases List.prefix_or_prefix_of_prefix below above with first | second
  · exact apart.1 first
  · exact apart.2 second

end Apart

/-- Changes elsewhere leave two directories alike. -/
theorem Twin.of_works {root : Location} {first second first' second' : FileTree} {region way : Location → Prop}
    (twin : Twin root first second) (works : Works region way first first') (works' : Works region way second second')
    (outside : ∀ place, root <+: place → ¬ region place ∧ ¬ way place) : Twin root first' second' := by
  have kept {before after : FileTree} (works : Works region way before after) (names : List String) :
      after.node? (root ++ names) = before.node? (root ++ names) :=
    have away := outside (root ++ names) (List.prefix_append ..)
    works.node?_eq away.1 away.2
  refine ⟨works.sound, works'.sound, ?_, fun names => ?_⟩
  · have here := kept works []
    rw [List.append_nil] at here
    rw [here]
    exact twin.directory
  · rw [kept works, kept works']
    exact twin.alike names

end FileTree

namespace Package

variable {base path : Path}

theorem safe_of_sourceSegments? {name : String} {segments : List String} (found : sourceSegments? name = some segments) :
    segments ≠ [] ∧ ∀ segment ∈ segments, Path.IsSafeName segment := by
  obtain ⟨parts, -, found⟩ := Option.bind_eq_some_iff.1 found
  simp only at found
  split at found
  · cases found
  · rename_i filled
    obtain rfl := Option.some.inj found
    refine ⟨?_, fun segment inside => ?_⟩
    · rw [List.isEmpty_iff] at filled
      rwa [Ne, List.map_eq_nil_iff]
    · obtain ⟨raw, -, rfl⟩ := List.mem_map.1 inside
      exact isSafeName_sanitizeSegment _

theorem segments_of_sourcePath? {entry : Archive.Entry} {relative : Path} (found : sourcePath? entry = some relative) :
    ∃ segments, sourceSegments? entry.name = some segments ∧ relative = "/".intercalate segments := by
  unfold sourcePath? at found
  split at found
  · cases found
  · obtain ⟨segments, read, found⟩ := Option.bind_eq_some_iff.1 found
    refine ⟨segments, read, ?_⟩
    simp only at found
    split at found
    · exact (Option.some.inj found).symm
    · cases found

theorem names_of_sourcePath? {entry : Archive.Entry} {relative : Path} (found : sourcePath? entry = some relative) :
    ∃ names, names ≠ [] ∧ (∀ name ∈ names, Path.IsName name) ∧ relative = "/".intercalate names := by
  obtain ⟨segments, read, whole⟩ := segments_of_sourcePath? found
  obtain ⟨filled, safe⟩ := safe_of_sourceSegments? read
  exact ⟨segments, filled, fun name inside => (safe name inside).isName, whole⟩

theorem straight_sourceDir (straight : Path.Straight base) (artifact : Artifact) :
    Path.Straight (artifact.sourceDir base) ∧ Path.steps base <+: Path.steps (artifact.sourceDir base) := by
  have app := isName_appDirName artifact
  have version := isName_sanitizeSegment artifact.appVersion
  refine ⟨(straight.join app).join version, ?_⟩
  rw [Artifact.sourceDir, Path.steps_join_name _ version, Path.steps_join_name _ app, List.append_assoc]
  exact List.prefix_append ..

theorem steps_scratchPath (root path : Path) :
    Path.steps (scratchPath root path) = Path.steps root ++ [scratchName path] :=
  Path.steps_join_name _ (isName_scratchName path)

theorem confined_writeContent {target : Path} {root : Location} (straight : Path.Straight target)
    (below : root <+: Path.steps target) (entry : Archive.Entry) (content : Archive.Content) :
    FileAction.Confined (root <+: ·) (· <+: root) (writeContent entry content target) := by
  unfold writeContent
  refine .bind (.change fun tree after sound done => ?_) fun _ => ?_
  · refine (write_works sound done).mono ?_ nofun
    rintro place rfl
    rwa [spot_of_straight straight]
  · split
    · exact .throw _
    · split
      · exact .throw _
      · exact .pure _

theorem confined_writeEntry {target : Path} {root : Location} (straight : Path.Straight target)
    (below : Inside root (Path.steps target)) (entry : Archive.Entry) (content : Archive.Content) :
    FileAction.Confined (root <+: ·) (· <+: root) (writeEntry entry content target) := by
  have writes := confined_writeContent straight below.1 entry content
  unfold writeEntry
  cases cut : Path.parent? target with
  | none => exact writes
  | some parent =>
    refine .bind (.makeDirs fun tree place visits => ?_) fun _ => writes
    have onWay := (visits_iff_of_straight (straight.parent? cut)).1 visits
    rw [(Path.parent?_eq_some cut).1] at onWay
    exact (List.prefix_or_prefix_of_prefix (onWay.trans (List.dropLast_prefix _)) below.1).symm

variable {dest : Path} {root : Location}

theorem confined_copySource (straight : Path.Straight dest) (below : root <+: Path.steps dest) (entry : Archive.Entry) :
    FileAction.Confined (root <+: ·) (· <+: root) (copySource path dest entry) := by
  unfold copySource
  split
  · exact .throw _
  · split
    · exact .pure _
    · rename_i content _ _ relative found
      obtain ⟨names, filled, named, rfl⟩ := names_of_sourcePath? found
      obtain ⟨steps, relative⟩ := Path.steps_intercalate named filled
      have whole : Path.steps (Path.join dest ("/".intercalate names)) = Path.steps dest ++ names := by
        rw [Path.steps_join relative, steps]
      have target : Path.Straight (Path.join dest ("/".intercalate names)) := by
        refine ⟨(Path.isAbsolute_join relative).trans straight.absolute, ?_⟩
        rw [whole, List.mem_append, not_or]
        exact ⟨straight.forward, fun up => (named _ up).notUp rfl⟩
      refine .bind (confined_writeEntry target ⟨?_, ?_⟩ entry content) fun _ => .pure _
      · rw [whole]
        exact below.trans (List.prefix_append ..)
      · rw [whole]
        intro same
        have short := below.length_le
        rw [← same, List.length_append] at short
        exact filled (List.length_eq_zero_iff.1 (by omega))

end Package

namespace Worker

variable {path base : Path} {options : ProcessOptions} {first second tree : FileTree}

theorem works_copied {dest : Path} {root : Location} (straight : Path.Straight dest) (below : root <+: Path.steps dest)
    (entries : List Archive.Entry) (sound : tree.Sound) :
    Works (root <+: ·) (· <+: root) tree (copied path dest entries tree) := by
  induction entries generalizing tree with
  | nil => exact .refl sound
  | cons entry rest ih =>
    have works := (@Package.confined_copySource path dest root straight below entry).on sound
    unfold copied
    rcases ran : (Package.copySource path dest entry).on tree with ⟨cause | found, after⟩ <;> rw [ran] at works
    · exact works
    · exact works.trans (ih works.sound)

theorem works_withSources (straight : Path.Straight base) (target : options.srcExtractionPath = some base)
    (entries : List Archive.Entry) (sound : tree.Sound) :
    Works (Path.steps base <+: ·) (· <+: Path.steps base) tree (withSources path options entries tree) := by
  unfold withSources
  rw [target]
  split
  · rename_i artifact _ same _
    obtain rfl := Option.some.inj same
    obtain ⟨straightDir, below⟩ := Package.straight_sourceDir straight artifact
    exact works_copied straightDir below entries sound
  · exact .refl sound

/-- The directories of a worker: plain paths, the sources apart from what is unpacked. -/
structure WellPlaced (options : ProcessOptions) (base : Path) : Prop where
  scratch : Path.Straight options.extractPath
  sources : Path.Straight base
  target : options.srcExtractionPath = some base
  apart : Apart (Path.steps options.extractPath) (Path.steps base)

/-- Where the processing of packages changes files: in the scratch directories and among the sources. -/
def Workplace (scratch base : Path) (place : Location) : Prop :=
  (∃ name, Inside (Path.steps scratch ++ [name]) place) ∨ Path.steps base <+: place

/-- Where the processing of packages makes and removes directories. -/
def Approach (scratch base : Path) (place : Location) : Prop :=
  (∃ name, place <+: Path.steps scratch ++ [name]) ∨ place <+: Path.steps base

namespace WellPlaced

variable (placed : WellPlaced options base)

include placed

theorem straight (path : Path) : Path.Straight (Package.scratchPath options.extractPath path) :=
  placed.scratch.join (isName_scratchName path)

theorem endsInStep (path : Path) : Path.EndsInStep (Package.scratchPath options.extractPath path) :=
  Path.endsInStep_join placed.scratch.written (isName_scratchName path)

theorem apart_scratchPath (path : Path) :
    Apart (Path.steps (Package.scratchPath options.extractPath path)) (Path.steps base) := by
  rw [Package.steps_scratchPath]
  exact placed.apart.below (List.prefix_append ..)

end WellPlaced

theorem processed_apply (path : Path) (options : ProcessOptions) (tree : FileTree) :
    ∃ log, processed path options tree = match Package.openArchive tree path with
      | .error cause => (.error cause.chain, tree)
      | .ok entries =>
        match Package.unpackInto (Package.scratchPath options.extractPath path) path entries ⟨tree, log⟩ with
        | (.error cause, after) => (.error cause.chain, after.tree)
        | (.ok unpacked, after) => readUnpacked path options unpacked after.tree := by
  obtain ⟨log, unpacks⟩ := Package.unpack_apply options.extractPath path ⟨tree, []⟩
  refine ⟨log, ?_⟩
  unfold processed FileAction.on
  rw [unpacks]
  cases Package.openArchive tree path with
  | error cause => rfl
  | ok entries =>
    rcases ran : Package.unpackInto (Package.scratchPath options.extractPath path) path entries ⟨tree, log⟩ with
      ⟨_ | _, _⟩ <;> simp only [ran]

theorem root_of_unpackInto {scratch : Path} {entries : List Archive.Entry} {space after : Workspace}
    {unpacked : Package.Unpacked} (done : Package.unpackInto scratch path entries space = (.ok unpacked, after)) :
    unpacked.root = scratch ∧ unpacked.entries = entries := by
  obtain ⟨_, _, -, done⟩ := bind_eq_ok_iff.1 done
  obtain ⟨_, _, -, done⟩ := bind_eq_ok_iff.1 done
  obtain ⟨_, _, -, done⟩ := bind_eq_ok_iff.1 done
  cases done
  exact ⟨rfl, rfl⟩

/-- A package leaves traces in its scratch directory and in the source directory only. -/
theorem works_processed (placed : WellPlaced options base) (path : Path) (sound : tree.Sound) :
    Works (Workplace options.extractPath base) (Approach options.extractPath base) tree (processed path options tree).2 := by
  have scratched {before after : FileTree}
      (works : Works (Inside (Path.steps (Package.scratchPath options.extractPath path)))
        (· <+: Path.steps (Package.scratchPath options.extractPath path)) before after) :
      Works (Workplace options.extractPath base) (Approach options.extractPath base) before after := by
    rw [Package.steps_scratchPath] at works
    exact works.mono (fun _ inside => .inl ⟨_, inside⟩) fun _ onWay => .inr (.inl ⟨_, onWay⟩)
  obtain ⟨log, result⟩ := processed_apply path options tree
  rw [result]
  cases Package.openArchive tree path with
  | error cause => exact .refl sound
  | ok entries =>
    have unpacks := scratched
      (@Package.confined_unpackInto _ path (placed.straight path) (placed.endsInStep path) entries ⟨tree, log⟩ sound)
    simp only
    rcases ran : Package.unpackInto (Package.scratchPath options.extractPath path) path entries ⟨tree, log⟩ with
      ⟨cause | unpacked, after⟩ <;> rw [ran] at unpacks
    · exact unpacks
    · have copies := @works_withSources path base options after.tree placed.sources placed.target unpacked.entries
        unpacks.sound
      have cleans := (@Package.confined_removeScratch _ Fault (placed.straight path)).on copies.sound
      simp only [readUnpacked, (root_of_unpackInto ran).1]
      exact unpacks.trans ((copies.mono (fun _ => .inr) fun _ onWay => .inr (.inr onWay)).trans (scratched cleans))

/-- Unpacked alike, a package is read alike. -/
private theorem readUnpacked_congr (placed : WellPlaced options base) {unpacked : Package.Unpacked}
    (root : unpacked.root = Package.scratchPath options.extractPath path)
    (twin : Twin (Path.steps (Package.scratchPath options.extractPath path)) first second) :
    (readUnpacked path options unpacked first).1 = (readUnpacked path options unpacked second).1 := by
  have copies := @works_withSources path base options first placed.sources placed.target unpacked.entries twin.sound
  have copies' := @works_withSources path base options second placed.sources placed.target unpacked.entries twin.sound'
  have kept := twin.of_works copies copies' fun place below => ((placed.apart_scratchPath path).below below).symm
  simp only [readUnpacked, namedCatalog, root]
  rw [Source.catalog_congr kept (placed.straight path)]

/-- Nothing is unpacked where a file is in the way. -/
private theorem unpackInto_of_blocked {scratch : Path} (straight : Path.Straight scratch) (ends : Path.EndsInStep scratch)
    (entries : List Archive.Entry) {space : Workspace} (sound : space.tree.Sound) (blocked : ¬ space.tree.Passable scratch) :
    ∃ cause after, Package.unpackInto scratch path entries space = (.error cause, after) := by
  rcases ran : Package.unpackInto scratch path entries space with ⟨cause | unpacked, after⟩
  · exact ⟨cause, after, rfl⟩
  · obtain ⟨_, _, prepared, -⟩ := bind_eq_ok_iff.1 ran
    exact absurd (Package.passable_of_prepareScratch sound straight ends prepared) blocked

/-- What is found in a package depends on its bytes, unless a file is in the way of its scratch directory. -/
theorem processed_congr (placed : WellPlaced options base) (sound : first.Sound) (sound' : second.Sound)
    (bytes : first.read path = second.read path)
    (passable : first.Passable (Package.scratchPath options.extractPath path) ↔
      second.Passable (Package.scratchPath options.extractPath path)) :
    (processed path options first).1.toOption = (processed path options second).1.toOption := by
  have straight := placed.straight path
  have ends := placed.endsInStep path
  obtain ⟨log, result⟩ := processed_apply path options first
  obtain ⟨log', result'⟩ := processed_apply path options second
  have archive : Package.openArchive first path = Package.openArchive second path := by
    rw [Package.openArchive, Package.openArchive, bytes]
  rw [result, result', archive]
  cases Package.openArchive second path with
  | error cause => rfl
  | ok entries =>
    simp only
    by_cases free : first.Passable (Package.scratchPath options.extractPath path)
    · have alike := @Package.unpackInto_alike _ path straight ends entries ⟨first, log⟩ ⟨second, log'⟩ sound sound' free
        (passable.1 free)
      rcases ran : Package.unpackInto (Package.scratchPath options.extractPath path) path entries ⟨first, log⟩ with
        ⟨done, after⟩
      rcases ran' : Package.unpackInto (Package.scratchPath options.extractPath path) path entries ⟨second, log'⟩ with
        ⟨done', after'⟩
      rw [ran, ran'] at alike
      rcases alike with ⟨unpacked, root, -, both, both', twin⟩ | ⟨⟨cause, failed⟩, cause', failed'⟩
      · obtain rfl : done = .ok unpacked := both
        obtain rfl : done' = .ok unpacked := both'
        exact congrArg Except.toOption (readUnpacked_congr placed root twin)
      · obtain rfl : done = .error cause := failed
        obtain rfl : done' = .error cause' := failed'
        rfl
    · obtain ⟨cause, after, failed⟩ := @unpackInto_of_blocked path _ straight ends entries ⟨first, log⟩ sound free
      obtain ⟨cause', after', failed'⟩ := @unpackInto_of_blocked path _ straight ends entries ⟨second, log'⟩ sound'
        fun open' => free (passable.2 open')
      rw [failed, failed']
      rfl

end Worker

end SymbolCache
