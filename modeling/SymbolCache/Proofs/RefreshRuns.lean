import SymbolCache.Proofs.ExtractedSources
import SymbolCache.Proofs.PackageDiscovery
import SymbolCache.Proofs.RefreshMerge

/-! What the files have to do with a refresh. As long as its directories keep apart, a package gives the same answer
whenever its turn comes, and the package folders stay as they are. -/

namespace SymbolCache.Refresh

open FileTree Worker

/-- Plain directories of which the package folders keep apart from all others, and the unpacked packages from the
sources and from the files of the cache. -/
structure Options.Separated (options : Options) : Prop where
  folders : ∀ dir ∈ options.packageDirs, Path.Straight dir
  cache : Path.Straight options.cacheDir
  scratch : Path.Straight options.scratchDir
  sources : Path.Straight options.sourceDir
  foldersApart : ∀ dir ∈ options.packageDirs, ∀ other ∈ [options.cacheDir, options.scratchDir, options.sourceDir],
    Apart (Path.steps dir) (Path.steps other)
  unpackedApart : Apart (Path.steps options.scratchDir) (Path.steps options.sourceDir)
  savedApart : ∀ place, CacheFile options.cacheDir place → ¬ place <+: Path.steps options.scratchDir

instance : DecidablePred Options.Separated := fun options =>
  decidable_of_iff ((∀ dir ∈ options.packageDirs, Path.Straight dir) ∧
      (Path.Straight options.cacheDir ∧ Path.Straight options.scratchDir ∧ Path.Straight options.sourceDir) ∧
      (∀ dir ∈ options.packageDirs, ∀ other ∈ [options.cacheDir, options.scratchDir, options.sourceDir],
        Apart (Path.steps dir) (Path.steps other)) ∧
      Apart (Path.steps options.scratchDir) (Path.steps options.sourceDir) ∧
      ∀ name ∈ cacheNames, ¬ Path.steps options.cacheDir ++ [name] <+: Path.steps options.scratchDir ∧
        ¬ Path.steps options.cacheDir ++ [temporaryName name] <+: Path.steps options.scratchDir) (by
    constructor
    · rintro ⟨folders, ⟨cache, scratch, sources⟩, foldersApart, unpackedApart, saved⟩
      refine ⟨folders, cache, scratch, sources, foldersApart, unpackedApart, ?_⟩
      rintro place ⟨name, inside, rfl | rfl⟩
      · exact (saved name inside).1
      · exact (saved name inside).2
    · intro separated
      exact ⟨separated.folders, ⟨separated.cache, separated.scratch, separated.sources⟩, separated.foldersApart,
        separated.unpackedApart, fun name inside => ⟨separated.savedApart _ ⟨name, inside, .inl rfl⟩,
          separated.savedApart _ ⟨name, inside, .inr rfl⟩⟩⟩)

/-- Where a refresh changes files. -/
def Touched (options : Options) (place : Location) : Prop :=
  Workplace options.scratchDir options.sourceDir place ∨ CacheFile options.cacheDir place

/-- Where a refresh makes and removes directories. -/
def Passed (options : Options) (place : Location) : Prop :=
  Approach options.scratchDir options.sourceDir place ∨ place <+: Path.steps options.cacheDir

namespace Options.Separated

variable {options : Options} {before after : FileTree}

theorem wellPlaced {coordinator : Coordinator} (separated : coordinator.options.Separated) :
    WellPlaced coordinator.processOptions coordinator.options.sourceDir :=
  ⟨separated.scratch, separated.sources, rfl, separated.unpackedApart⟩

theorem alikeBelow (separated : options.Separated) (works : Works (Touched options) (Passed options) before after)
    {dir : Path} (known : dir ∈ options.packageDirs) : AlikeBelow (Path.steps dir) before after := by
  intro names
  have cache := (separated.foldersApart dir known options.cacheDir (by simp)).below (List.prefix_append _ names)
  have scratch := (separated.foldersApart dir known options.scratchDir (by simp)).below (List.prefix_append _ names)
  have sources := (separated.foldersApart dir known options.sourceDir (by simp)).below (List.prefix_append _ names)
  have child {other : Path} (apart : Apart (Path.steps dir ++ names) (Path.steps other)) (name : String) :
      Apart (Path.steps dir ++ names) (Path.steps other ++ [name]) :=
    (apart.symm.below (List.prefix_append _ [name])).symm
  rw [works.node?_eq]
  · rintro ((⟨name, inside⟩ | below) | ⟨name, -, here | here⟩)
    · exact (child scratch name).2 inside.1
    · exact sources.2 below
    · exact (child cache name).1 (here ▸ List.prefix_refl _)
    · exact (child cache (temporaryName name)).1 (here ▸ List.prefix_refl _)
  · rintro ((⟨name, above⟩ | above) | above)
    · exact (child scratch name).1 above
    · exact sources.1 above
    · exact cache.1 above

theorem passable_iff (separated : options.Separated) (works : Works (Touched options) (Passed options) before after)
    (path : Path) : before.Passable (Package.scratchPath options.scratchDir path) ↔
      after.Passable (Package.scratchPath options.scratchDir path) := by
  have same (place : Location) (above : place <+: Path.steps (Package.scratchPath options.scratchDir path)) :
      IsOpen (after.node? place) ↔ IsOpen (before.node? place) := by
    rw [Package.steps_scratchPath] at above
    refine works.isOpen_iff ?_
    rintro ((⟨name, inside⟩ | below) | file)
    · have long := inside.1.length_le
      have short := above.length_le
      rw [List.length_append, List.length_singleton] at long short
      exact inside.2 (inside.1.eq_of_length (by simp; omega)).symm
    · exact (separated.unpackedApart.below (List.prefix_append _ [Package.scratchName path])).2 (below.trans above)
    · rcases List.prefix_concat_iff.1 above with whole | higher
      · exact file.ne_scratch _ path whole
      · exact separated.savedApart place file higher
  constructor
  · intro free
    exact ⟨free.writable, free.short, fun place above => (same place above).2 (free.free place above)⟩
  · intro free
    exact ⟨free.writable, free.short, fun place above => (same place above).1 (free.free place above)⟩

end Options.Separated

def answer (coordinator : Coordinator) (tree : FileTree) (artifact : Artifact) : Finished :=
  ⟨artifact, (consult coordinator.program artifact.path coordinator.processOptions tree).outcome⟩

/-- Two answers of the same package that come to the same results; messages about failures may differ. -/
structure Finished.Agrees (one other : Finished) : Prop where
  artifact : one.artifact = other.artifact
  symbols : one.symbols = other.symbols
  procedures : one.procedures = other.procedures

theorem Finished.Agrees.of_toOption {artifact : Artifact} {one other : Except (List String) SymbolTable}
    (same : one.toOption = other.toOption) : Agrees ⟨artifact, outcomeOf one⟩ ⟨artifact, outcomeOf other⟩ := by
  cases one <;> cases other <;> cases same <;> exact ⟨rfl, rfl, rfl⟩

def discovered (options : Options) (tree : FileTree) : List Artifact :=
  Package.discover tree options.packageDirs options.packages

section Answers

variable {coordinator : Coordinator} {before after : FileTree} {artifact : Artifact}

theorem answer_requestLoop (loops : coordinator.program = .requestLoop) (tree : FileTree) (artifact : Artifact) :
    answer coordinator tree artifact =
      ⟨artifact, outcomeOf (processed artifact.path coordinator.processOptions tree).1⟩ := by
  rw [answer, loops, (consult_requestLoop _ _ tree).1]

theorem app_of_mem_answer (loops : coordinator.program = .requestLoop) {tree : FileTree} {record : ObjectRecord}
    (reported : record ∈ (answer coordinator tree artifact).symbols) : record.app = some artifact.fileName := by
  rw [answer_requestLoop loops] at reported
  cases done : (processed artifact.path coordinator.processOptions tree).1 with
  | error chain =>
    rw [done] at reported
    cases reported
  | ok table =>
    rw [done] at reported
    exact (sendable_processed done).2 record reported

theorem discovered_congr (separated : coordinator.options.Separated) (sound : before.Sound)
    (works : Works (Touched coordinator.options) (Passed coordinator.options) before after) :
    discovered coordinator.options before = discovered coordinator.options after :=
  Package.discover_congr sound works.sound separated.folders fun _ known => separated.alikeBelow works known

/-- A package gives the same answer before and after others have had their turn. -/
theorem answer_agrees (separated : coordinator.options.Separated) (loops : coordinator.program = .requestLoop)
    (sound : before.Sound) (works : Works (Touched coordinator.options) (Passed coordinator.options) before after)
    (known : artifact ∈ discovered coordinator.options before) :
    (answer coordinator after artifact).Agrees (answer coordinator before artifact) := by
  rw [answer_requestLoop loops, answer_requestLoop loops]
  refine .of_toOption (processed_congr separated.wellPlaced works.sound sound ?_ ?_)
  · exact (Package.read_of_mem_discover sound works.sound separated.folders
      (fun _ inside => separated.alikeBelow works inside) known).symm
  · exact (separated.passable_iff works artifact.path).symm

theorem works_consult (separated : coordinator.options.Separated) (loops : coordinator.program = .requestLoop)
    (sound : before.Sound) (path : Path) : Works (Touched coordinator.options) (Passed coordinator.options) before
      (consult coordinator.program path coordinator.processOptions before).tree := by
  rw [loops, (consult_requestLoop path coordinator.processOptions before).2]
  exact (works_processed separated.wellPlaced path sound).mono (fun _ => .inl) fun _ onWay => .inr (.inl onWay)

end Answers

def copyEvent (artifact : Artifact) (relative : Path) : Event :=
  .progress artifact.path ("Extracted source " ++ relative)

/-- Packages that told of copied sources have sources. -/
def Backed (options : Options) (events : List Event) (tree : FileTree) : Prop :=
  ∀ artifact relative, copyEvent artifact relative ∈ events → Artifact.ofPath? artifact.path = some artifact →
    tree.HoldsSource (artifact.sourceDir options.sourceDir)

theorem Backed.kept {options : Options} {events : List Event} {before after : FileTree}
    (backed : Backed options events before) (separated : options.Separated)
    (keeps : Keeps (Path.steps options.sourceDir) before after) : Backed options events after := by
  intro artifact relative told made
  exact (backed artifact relative told made).kept keeps (Package.straight_sourceDir separated.sources artifact).2

/-- Packages have been processed: each gave the answer that it gives before all others. -/
structure Progress (coordinator : Coordinator) (tree : FileTree) (done : List Artifact) (run : Run) : Prop where
  works : Works (Touched coordinator.options) (Passed coordinator.options) tree run.tree
  agrees : List.Forall₂ Finished.Agrees run.finished (done.map (answer coordinator tree))
  backed : Backed coordinator.options run.events run.tree

section Runs

variable {coordinator : Coordinator} {tree : FileTree} {done order : List Artifact} {run : Run}

theorem Run.process_tree (program : Program) (options : ProcessOptions) (run : Run) (artifact : Artifact) :
    (run.process program options artifact).tree = (consult program artifact.path options run.tree).tree := rfl

theorem Run.process_events (program : Program) (options : ProcessOptions) (run : Run) (artifact : Artifact) :
    (run.process program options artifact).events = run.events ++ [.stateChanged artifact.path .running] ++
      (consult program artifact.path options run.tree).events ++
        Finished.events ⟨artifact, (consult program artifact.path options run.tree).outcome⟩ := rfl

theorem Progress.process (separated : coordinator.options.Separated) (loops : coordinator.program = .requestLoop)
    (sound : tree.Sound) (progress : Progress coordinator tree done run) {artifact : Artifact}
    (known : artifact ∈ discovered coordinator.options tree) :
    Progress coordinator tree (done ++ [artifact])
      (run.process coordinator.program coordinator.processOptions artifact) where
  works := progress.works.trans (works_consult separated loops progress.works.sound artifact.path)
  agrees := by
    rw [List.map_append]
    exact List.rel_append progress.agrees (.cons (answer_agrees separated loops sound progress.works known) .nil)
  backed := by
    intro other relative told made
    have processed := Package.ofPath?_of_mem_discover sound known
    have keeps := keeps_consult separated.wellPlaced processed progress.works.sound
    have earlier := progress.backed.kept separated keeps
    rw [Run.process_events, loops] at told
    rw [Run.process_tree, loops]
    simp only [List.append_assoc, List.mem_append] at told
    rcases told with early | state | heard | last
    · exact earlier other relative early made
    · cases List.mem_singleton.1 state
    · obtain ⟨same, holds⟩ := holdsSource_of_progress separated.wellPlaced processed progress.works.sound heard
      obtain rfl : artifact = other := Option.some.inj (processed.symm.trans (same ▸ made))
      exact holds
    · unfold Finished.events at last
      split at last <;> simp [copyEvent] at last

theorem Progress.foldl (separated : coordinator.options.Separated) (loops : coordinator.program = .requestLoop)
    (sound : tree.Sound) (progress : Progress coordinator tree done run)
    (known : ∀ artifact ∈ order, artifact ∈ discovered coordinator.options tree) :
    Progress coordinator tree (done ++ order)
      (order.foldl (Run.process coordinator.program coordinator.processOptions) run) := by
  induction order generalizing done run with
  | nil => rwa [List.append_nil]
  | cons artifact rest ih =>
    have next := progress.process separated loops sound (known artifact (List.mem_cons_self ..))
    rw [List.append_cons]
    exact ih next fun other inside => known other (List.mem_cons_of_mem _ inside)

end Runs

/-- A refresh leaves a coordinator that can begin the next one alike. -/
structure Coordinator.Resumes (before after : Coordinator) : Prop where
  options : after.options = before.options
  program : after.program = before.program
  logLevel : after.logLevel = before.logLevel
  idle : after.running = false

theorem Coordinator.Resumes.answer_eq {before after : Coordinator} (resumes : before.Resumes after) :
    answer after = answer before := by
  funext tree artifact
  rw [answer, answer, Coordinator.processOptions, Coordinator.processOptions, resumes.options, resumes.program,
    resumes.logLevel]

def skippedOf (options : Options) (store : Store) (tree : FileTree) : List Artifact :=
  (discovered options tree).filter (isSkipped options store tree)

def remainingOf (options : Options) (store : Store) (tree : FileTree) : List Artifact :=
  (discovered options tree).filter fun artifact => !isSkipped options store tree artifact

theorem mem_skippedOf_or_remainingOf {options : Options} {tree : FileTree} {artifact : Artifact}
    (inside : artifact ∈ discovered options tree) (store : Store) :
    artifact ∈ skippedOf options store tree ∨ artifact ∈ remainingOf options store tree := by
  cases skips : isSkipped options store tree artifact with
  | true => exact .inl (List.mem_filter.2 ⟨inside, skips⟩)
  | false => exact .inr (List.mem_filter.2 ⟨inside, by simp [skips]⟩)

section Refreshes

variable {coordinator : Coordinator} {store : Store} {tree : FileTree} {order : List Artifact → List Artifact}

private def opening (coordinator : Coordinator) (store : Store) (tree : FileTree) : Begun :=
  ⟨{ coordinator with running := true }, store, tree, discovered coordinator.options tree,
    skippedOf coordinator.options store tree⟩

private theorem refreshIn_idle (idle : coordinator.running = false) : refreshIn order coordinator store tree =
    { (opening coordinator store tree).finish (order (remainingOf coordinator.options store tree)) with
      events := (opening coordinator store tree).events ++
        ((opening coordinator store tree).finish (order (remainingOf coordinator.options store tree))).events } := by
  unfold refreshIn begin?
  rw [if_neg (by simp [idle])]
  rfl

private theorem works_updateFields (separated : coordinator.options.Separated) (sound : tree.Sound) (app : Option String) :
    Works (CacheFile coordinator.options.cacheDir) (· <+: Path.steps coordinator.options.cacheDir) tree
      (coordinator.updateFields app tree).2.2 :=
  coordinator.fieldWorker.works_update (coordinator.fieldOptions app) sound separated.cache

/-- A refresh in the course of which every package gives its answer: what is committed, reported and left behind. -/
structure Course (order : List Artifact → List Artifact) (coordinator : Coordinator) (store : Store) (tree : FileTree)
    (finished : List Finished) (result : Result) : Prop where
  agrees : List.Forall₂ Finished.Agrees finished
    ((order (remainingOf coordinator.options store tree)).map (answer coordinator tree))
  works : Works (Touched coordinator.options) (Passed coordinator.options) tree result.tree
  commits : result.store = committed store (skippedOf coordinator.options store tree) finished
  reports : ∃ report, result.report = some report ∧ report.artifacts = (discovered coordinator.options tree).map
    (reportOf (skippedOf coordinator.options store tree) finished)
  resumes : coordinator.Resumes result.coordinator
  backed : Backed coordinator.options result.events result.tree

theorem refreshIn_course (separated : coordinator.options.Separated) (loops : coordinator.program = .requestLoop)
    (idle : coordinator.running = false) (located : store.dir = coordinator.options.cacheDir) (sound : tree.Sound)
    (reorders : ∀ list, (order list).Perm list) :
    ∃ finished, Course order coordinator store tree finished (refreshIn order coordinator store tree) := by
  have known : ∀ artifact ∈ order (remainingOf coordinator.options store tree),
      artifact ∈ discovered coordinator.options tree := fun artifact inside =>
    (List.mem_filter.1 ((reorders _).subset inside)).1
  have start : Progress coordinator tree [] ⟨tree, [], [], []⟩ := ⟨.refl sound, .nil, nofun⟩
  have progress := start.foldl separated loops sound known
  rw [List.nil_append] at progress
  rw [refreshIn_idle idle]
  generalize ended : (order (remainingOf coordinator.options store tree)).foldl
    (Run.process coordinator.program coordinator.processOptions) ⟨tree, [], [], []⟩ = run at progress
  have consulted : (opening coordinator store tree).consultAll (order (remainingOf coordinator.options store tree)) = run :=
    ended
  have merged : (committed store (skippedOf coordinator.options store tree) run.finished).dir =
      coordinator.options.cacheDir := located
  have saves := (@Store.confined_save (committed store (skippedOf coordinator.options store tree) run.finished)
    (merged ▸ separated.cache)).on progress.works.sound
  rw [merged] at saves
  have updates := @works_updateFields { coordinator with running := true } _ separated saves.sound none
  have finishes {final : FileTree} (writes : Works (CacheFile coordinator.options.cacheDir)
      (· <+: Path.steps coordinator.options.cacheDir) run.tree final) :
      Works (Touched coordinator.options) (Passed coordinator.options) tree final ∧
        Backed coordinator.options run.events final := by
    refine ⟨progress.works.trans (writes.mono (fun _ => .inr) fun _ onWay => .inr (.inr onWay)),
      progress.backed.kept separated (writes.keeps fun front name _ source file => ?_)⟩
    rw [file.notSource] at source
    cases source
  have told {final : FileTree} (backed : Backed coordinator.options run.events final) (objects procedures : Nat) :
      Backed coordinator.options ((opening coordinator store tree).events ++
        (run.events ++ [.committed objects procedures])) final := by
    intro artifact relative event made
    refine backed artifact relative ?_ made
    simpa [opening, Begun.events, copyEvent] using event
  refine ⟨run.finished, ?_⟩
  unfold Begun.finish Begun.conclude Begun.updateFields
  simp only [consulted]
  split
  · obtain ⟨works, backed⟩ := finishes (saves.trans updates)
    exact ⟨progress.agrees, works, rfl, ⟨_, rfl, rfl⟩, ⟨rfl, rfl, rfl, rfl⟩, told backed _ _⟩
  · obtain ⟨works, backed⟩ := finishes saves
    exact ⟨progress.agrees, works, rfl, ⟨_, rfl, rfl⟩, ⟨rfl, rfl, rfl, rfl⟩, told backed _ _⟩

end Refreshes

end SymbolCache.Refresh
