import SymbolCache.FieldIndex.Update
import SymbolCache.Proofs.FieldLedger
import SymbolCache.Proofs.FilesBelow

/-! Updating a field index tree by tree comes to the same as reading the last tree from scratch.
What an index holds is compared with what a scan sights: for each path the watermark and the text
of the file. -/

namespace SymbolCache.FieldIndex
open Source

abbrev Sighting := Binary64 × List Char

/-- What a scan of a tree finds at a path. -/
def sighted (tree : FileTree) (root path : Path) : Option Sighting :=
  if path ∈ sourceFiles tree root then
    match fileWatermark tree path, readLossy tree path with
    | .ok watermark, .ok text => some (watermark, text)
    | _, _ => none
  else none

/-- An index holds exactly what has been sighted. -/
structure Holds (index : FieldIndex) (view : Path → Option Sighting) : Prop where
  derived : Derived index
  watermarks : ∀ path, index.watermarks.get? path = (view path).map Prod.fst
  contributions : ∀ path, index.contributions.get? path =
    (view path).map fun sighting => Contribution.ofSource sighting.2

theorem empty_holds : Holds empty fun _ => none := ⟨empty_derived, fun _ => rfl, fun _ => rfl⟩

theorem Holds.unique {first second : FieldIndex} {view : Path → Option Sighting} (holds : first.Holds view)
    (holds' : second.Holds view) : first = second := by
  apply holds.derived.ext holds'.derived
  · exact Dict.ext_get? fun path => (holds.contributions path).trans (holds'.contributions path).symm
  · exact Dict.ext_get? fun path => (holds.watermarks path).trans (holds'.watermarks path).symm

theorem Holds.congr {index : FieldIndex} {view other : Path → Option Sighting} (holds : index.Holds view)
    (same : ∀ path, view path = other path) : index.Holds other := by
  have equal : view = other := funext same
  rwa [equal] at holds

theorem updateFile_holds {index : FieldIndex} {view : Path → Option Sighting} (holds : index.Holds view)
    (path : Path) (watermark : Binary64) (text : List Char) :
    (index.updateFile path watermark (.ofSource text)).Holds
      fun other => if other = path then some (watermark, text) else view other := by
  refine ⟨(apply_preserves holds.derived path (.ofSource text)).withWatermarks _, ?_, ?_⟩
  · intro other
    rw [updateFile, apply_watermarks, Dict.get?_insert, holds.watermarks]
    split <;> rfl
  · intro other
    rw [updateFile, apply_contributions, Dict.get?_insert, holds.contributions]
    split <;> rfl

theorem retract_holds {index : FieldIndex} {view : Path → Option Sighting} (holds : index.Holds view)
    (path : Path) : (index.retract path).Holds fun other => if other = path then none else view other := by
  refine ⟨retract_preserves holds.derived path, ?_, ?_⟩
  · intro other
    rw [retract_watermarks, Dict.get?_erase, holds.watermarks]
    split <;> rfl
  · intro other
    rw [retract_contributions, Dict.get?_erase, holds.contributions]
    split <;> rfl

theorem retractAll_holds {index : FieldIndex} {view : Path → Option Sighting} (holds : index.Holds view)
    (paths : List Path) :
    (paths.foldl retract index).Holds fun other => if other ∈ paths then none else view other := by
  induction paths generalizing index view with
  | nil => exact holds.congr fun path => by simp
  | cons path rest ih =>
    apply (ih (retract_holds holds path)).congr
    intro other
    by_cases here : other = path
    · simp [here]
    · simp [here]

/-- Watermarks are never negative, so that equal ones are the same number. -/
def Plain (view : Path → Option Sighting) : Prop :=
  ∀ path sighting, view path = some sighting → sighting.1.negative = false

theorem same_iff {a b : Binary64} (first : a.negative = false) (second : b.negative = false) :
    Binary64.same a b = true ↔ a = b := by
  obtain ⟨negative, magnitude⟩ := a
  obtain ⟨negative', magnitude'⟩ := b
  cases first
  cases second
  simp only [Binary64.same, Bool.or_eq_true, Bool.and_eq_true, beq_iff_eq, Binary64.mk.injEq, true_and]
  omega

theorem sighted_eq_some {tree : FileTree} {root path : Path} {watermark : Binary64} {text : List Char}
    (found : sighted tree root path = some (watermark, text)) :
    path ∈ sourceFiles tree root ∧ fileWatermark tree path = .ok watermark ∧ readLossy tree path = .ok text := by
  unfold sighted at found
  split at found
  · rename_i member
    split at found
    · rename_i mark read
      cases found
      exact ⟨member, mark, read⟩
    · cases found
  · cases found

theorem sighted_plain (tree : FileTree) (root : Path) : Plain (sighted tree root) := by
  intro path sighting found
  obtain ⟨-, mark, -⟩ := sighted_eq_some found
  unfold fileWatermark at mark
  cases modified : tree.modified path with
  | error cause =>
    rw [modified] at mark
    cases mark
  | ok time =>
    rw [modified] at mark
    rw [← Except.ok.inj mark]
    rfl

theorem isCurrent_iff {index : FieldIndex} {view : Path → Option Sighting} (holds : index.Holds view)
    (plain : Plain view) (path : Path) {watermark : Binary64} (positive : watermark.negative = false) :
    index.isCurrent path watermark = true ↔ (view path).map Prod.fst = some watermark := by
  rw [isCurrent, Dict.contains, holds.watermarks, holds.contributions]
  cases seen : view path with
  | none => simp
  | some sighting =>
    have equal := same_iff positive (plain path sighting seen)
    simp only [Option.map_some, Option.any_some, Option.isSome_some, Bool.and_true, Option.some.injEq]
    exact equal.trans eq_comm

/-- The ordinary reader of source files. -/
def plainly {m : Type → Type} [Monad m] (_ : Path) (text : List Char) : m Contribution :=
  pure (Contribution.ofSource text)

/-- The ordinary reader, which also notes every file it is called on. -/
def noting (path : Path) (text : List Char) : StateM (List Path) Contribution := do
  modify (· ++ [path])
  plainly path text

def next (tree : FileTree) (run : UpdateRun) (path : Path) : UpdateRun := Id.run (visit plainly tree run path)

theorem foldlM_next (tree : FileTree) (paths : List Path) (run : UpdateRun) :
    Id.run (paths.foldlM (visit plainly tree) run) = paths.foldl (next tree) run := by
  induction paths generalizing run with
  | nil => rfl
  | cons path rest ih =>
    rw [List.foldlM_cons, List.foldl_cons, ← ih]
    rfl

/-- A sighted file is read exactly when its watermark is not the known one. -/
theorem visit_sighted {tree : FileTree} {root path : Path} {watermark : Binary64} {text : List Char}
    (found : sighted tree root path = some (watermark, text)) (run : UpdateRun) (calls : List Path) :
    (next tree run path).seen = run.seen ++ [path] ∧
    (next tree run path).index = (if run.index.isCurrent path watermark then run.index
      else run.index.updateFile path watermark (.ofSource text)) ∧
    visit noting tree run path calls =
      (next tree run path, if run.index.isCurrent path watermark then calls else calls ++ [path]) := by
  obtain ⟨-, mark, read⟩ := sighted_eq_some found
  by_cases current : run.index.isCurrent path watermark = true
  · have quiet {m : Type → Type} [Monad m] (parse : Path → List Char → m Contribution) :
        visit parse tree run path =
          pure ⟨run.index, { run.stats with unchanged := run.stats.unchanged + 1 }, run.seen ++ [path]⟩ := by
      simp only [visit, mark, current, if_true]
    rw [next, quiet, quiet, if_pos current, if_pos current]
    exact ⟨rfl, rfl, rfl⟩
  · have reading {m : Type → Type} [Monad m] (parse : Path → List Char → m Contribution) :
        visit parse tree run path = (do
          let contribution ← parse path text
          return ⟨run.index.updateFile path watermark contribution,
            { run.stats with parsed := run.stats.parsed + 1 }, run.seen ++ [path]⟩) := by
      simp only [visit, mark, read, current, if_false, Bool.false_eq_true]
    rw [next, reading, reading, if_neg current, if_neg current]
    exact ⟨rfl, rfl, rfl⟩

section Update

variable (tree : FileTree) (root : Path) (old : Path → Option Sighting)

/-- What is known when an update has come through some files of a tree: these as they are now, and
all others as they were. -/
def partway (done : List Path) (path : Path) : Option Sighting :=
  if path ∈ done then sighted tree root path else old path

/-- An update has come through some files, and its reader has been called on those among them whose
watermark is new. -/
structure Progress (done : List Path) (run : UpdateRun) (calls : List Path) : Prop where
  holds : run.index.Holds (partway tree root old done)
  seen : run.seen = done
  called : ∀ path, path ∈ calls ↔
    path ∈ done ∧ (old path).map Prod.fst ≠ (sighted tree root path).map Prod.fst
  distinct : calls.Nodup

/-- A file that keeps its watermark keeps its text. -/
def Agrees : Prop :=
  ∀ path ∈ sourceFiles tree root, (old path).map Prod.fst = (sighted tree root path).map Prod.fst →
    old path = sighted tree root path

variable {tree root old}

theorem partway_plain (plain : Plain old) (done : List Path) : Plain (partway tree root old done) := by
  intro path sighting found
  unfold partway at found
  split at found
  · exact sighted_plain tree root path sighting found
  · exact plain path sighting found

theorem partway_append {done : List Path} {path : Path} (other : Path) :
    partway tree root old (done ++ [path]) other =
      if other = path then sighted tree root path else partway tree root old done other := by
  by_cases here : other = path
  · simp [partway, here]
  · simp [partway, here]

theorem Progress.skip (agrees : Agrees tree root old) {done : List Path} {run after : UpdateRun}
    {calls : List Path} (progress : Progress tree root old done run calls) {path : Path}
    (member : path ∈ sourceFiles tree root)
    (known : (partway tree root old done path).map Prod.fst = (sighted tree root path).map Prod.fst)
    (index : after.index = run.index) (seen : after.seen = run.seen ++ [path]) :
    Progress tree root old (done ++ [path]) after calls := by
  have settled : path ∉ done → old path = sighted tree root path := by
    intro outside
    rw [partway, if_neg outside] at known
    exact agrees path member known
  refine ⟨?_, by rw [seen, progress.seen], ?_, progress.distinct⟩
  · rw [index]
    apply progress.holds.congr
    intro other
    rw [partway_append]
    split
    · rename_i here
      rw [here, partway]
      split
      · rfl
      · rename_i outside
        exact settled outside
    · rfl
  · intro other
    rw [progress.called]
    constructor
    · intro ⟨inside, moved⟩
      exact ⟨List.mem_append_left _ inside, moved⟩
    · intro ⟨inside, moved⟩
      refine ⟨?_, moved⟩
      rcases List.mem_append.1 inside with earlier | here
      · exact earlier
      · rw [List.mem_singleton] at here
        apply Classical.byContradiction
        intro outside
        rw [here] at outside moved
        exact moved (by rw [settled outside])

theorem Progress.read {done : List Path} {run after : UpdateRun} {calls : List Path}
    (progress : Progress tree root old done run calls) {path : Path} {watermark : Binary64} {text : List Char}
    (found : sighted tree root path = some (watermark, text))
    (unknown : (partway tree root old done path).map Prod.fst ≠ some watermark)
    (index : after.index = run.index.updateFile path watermark (.ofSource text))
    (seen : after.seen = run.seen ++ [path]) :
    Progress tree root old (done ++ [path]) after (calls ++ [path]) := by
  have outside : path ∉ done := by
    intro inside
    rw [partway, if_pos inside, found] at unknown
    exact unknown rfl
  rw [partway, if_neg outside] at unknown
  refine ⟨?_, by rw [seen, progress.seen], ?_, ?_⟩
  · rw [index]
    apply (updateFile_holds progress.holds path watermark text).congr
    intro other
    rw [partway_append, found]
  · intro other
    rw [List.mem_append, List.mem_append, progress.called]
    by_cases here : other = path
    · subst here
      simpa [outside, found] using unknown
    · simp [here]
  · rw [List.nodup_append]
    refine ⟨progress.distinct, List.pairwise_singleton _ _, ?_⟩
    intro earlier called other single same
    rw [List.mem_singleton] at single
    exact outside ((progress.called path).1 (by rwa [← single, ← same])).1

theorem next_progress (plain : Plain old) (agrees : Agrees tree root old) {done : List Path} {run : UpdateRun}
    {calls : List Path} (progress : Progress tree root old done run calls) {path : Path}
    {sighting : Sighting} (found : sighted tree root path = some sighting) :
    ∃ after, visit noting tree run path calls = (next tree run path, after) ∧
      Progress tree root old (done ++ [path]) (next tree run path) after := by
  obtain ⟨watermark, text⟩ := sighting
  obtain ⟨seen, index, noted⟩ := visit_sighted found run calls
  have current := isCurrent_iff progress.holds (partway_plain plain done) path (sighted_plain tree root path _ found)
  by_cases fresh : run.index.isCurrent path watermark = true
  · rw [if_pos fresh] at index noted
    have known := current.1 fresh
    refine ⟨calls, noted, progress.skip agrees (sighted_eq_some found).1 ?_ index seen⟩
    rw [known, found]
    rfl
  · rw [if_neg fresh] at index noted
    exact ⟨calls ++ [path], noted, progress.read found (fun known => fresh (current.2 known)) index seen⟩

theorem foldlM_progress (plain : Plain old) (agrees : Agrees tree root old) {paths done : List Path}
    {run : UpdateRun} {calls : List Path} (progress : Progress tree root old done run calls)
    (readable : ∀ path ∈ paths, ∃ sighting, sighted tree root path = some sighting) :
    ∃ after, paths.foldlM (visit noting tree) run calls = (paths.foldl (next tree) run, after) ∧
      Progress tree root old (done ++ paths) (paths.foldl (next tree) run) after := by
  induction paths generalizing done run calls with
  | nil => exact ⟨calls, rfl, by simpa using progress⟩
  | cons path rest ih =>
    obtain ⟨sighting, found⟩ := readable path (List.mem_cons_self ..)
    obtain ⟨middle, noted, onward⟩ := next_progress plain agrees progress found
    obtain ⟨after, folded, finished⟩ := ih onward fun other member => readable other (List.mem_cons_of_mem _ member)
    refine ⟨after, ?_, by simpa using finished⟩
    rw [List.foldlM_cons, List.foldl_cons, ← folded]
    have step : (visit noting tree run path >>= fun next => rest.foldlM (visit noting tree) next) calls =
        rest.foldlM (visit noting tree) (visit noting tree run path calls).1 (visit noting tree run path calls).2 := rfl
    rw [step, noted]

/-- Files that are no longer there are forgotten, so that an index holds what the tree has. -/
theorem dropStale_holds (below : ∀ path sighting, old path = some sighting → Path.startsWith path root = true)
    {run : UpdateRun} {calls : List Path}
    (progress : Progress tree root old (sourceFiles tree root) run calls) :
    (dropStale root run).index.Holds (sighted tree root) := by
  apply (retractAll_holds progress.holds (run.index.stalePaths root run.seen)).congr
  intro path
  have stale : path ∈ run.index.stalePaths root run.seen ↔
      path ∈ run.index.watermarks.keys ∧ Path.startsWith path root = true ∧ path ∉ sourceFiles tree root := by
    rw [stalePaths, List.mem_filter, pathsUnder, List.mem_filter, progress.seen]
    simp [and_assoc]
  by_cases present : path ∈ sourceFiles tree root
  · rw [if_neg fun dropped => (stale.1 dropped).2.2 present, partway, if_pos present]
  · have nothing : sighted tree root path = none := by rw [sighted, if_neg present]
    rw [nothing]
    split
    · rfl
    · rename_i kept
      rw [partway, if_neg present]
      cases before : old path with
      | none => rfl
      | some sighting =>
        have marked : path ∈ run.index.watermarks.keys := by
          rw [Dict.mem_keys_iff, progress.holds.watermarks, partway, if_neg present, before]
          exact ⟨_, rfl⟩
        exact absurd (stale.2 ⟨marked, below path sighting before, present⟩) kept

/-- An update makes an index hold what the tree has, and calls its reader once on each file whose
watermark is new. -/
theorem update_holds (plain : Plain old) (agrees : Agrees tree root old)
    (below : ∀ path sighting, old path = some sighting → Path.startsWith path root = true)
    (readable : ∀ path ∈ sourceFiles tree root, ∃ sighting, sighted tree root path = some sighting)
    {index : FieldIndex} (holds : index.Holds old) :
    (update tree root index).1.Holds (sighted tree root) ∧
    ∃ calls, (updateWith noting tree root index).run [] = (update tree root index, calls) ∧ calls.Nodup ∧
      ∀ path, path ∈ calls ↔ path ∈ sourceFiles tree root ∧
        (old path).map Prod.fst ≠ (sighted tree root path).map Prod.fst := by
  have start : Progress tree root old [] ⟨index, ⟨0, 0, 0⟩, []⟩ [] :=
    ⟨holds.congr fun _ => rfl, rfl, by simp, List.nodup_nil⟩
  obtain ⟨calls, noted, finished⟩ := foldlM_progress plain agrees start readable
  rw [List.nil_append] at finished
  let visited := (sourceFiles tree root).foldl (next tree) ⟨index, ⟨0, 0, 0⟩, []⟩
  have result : update tree root index = ((dropStale root visited).index, (dropStale root visited).stats) := by
    have folded := foldlM_next tree (sourceFiles tree root) ⟨index, ⟨0, 0, 0⟩, []⟩
    exact congrArg (fun run => ((dropStale root run).index, (dropStale root run).stats)) folded
  refine ⟨by rw [result]; exact dropStale_holds below finished, calls, ?_, finished.distinct, finished.called⟩
  rw [result]
  exact congrArg (fun outcome : UpdateRun × List Path =>
    (((dropStale root outcome.1).index, (dropStale root outcome.1).stats), outcome.2)) noted

end Update

/-- Trees that can be scanned one after the other: every source file can be read, and a path that
has the same watermark twice has the same content. -/
structure Scannable (root : Path) (trees : List FileTree) : Prop where
  named : ∀ tree ∈ trees, tree.WellNamed
  readable : ∀ tree ∈ trees, ∀ path ∈ sourceFiles tree root, ∃ content, tree.read path = .ok content
  faithful : ∀ first ∈ trees, ∀ second ∈ trees, ∀ path ∈ sourceFiles first root, path ∈ sourceFiles second root →
    fileWatermark first path = fileWatermark second path → first.read path = second.read path

def scanAll (root : Path) (trees : List FileTree) : FieldIndex :=
  trees.foldl (fun index tree => (update tree root index).1) empty

/-- What is known after a tree, or before any. -/
def viewOf (root : Path) : Option FileTree → Path → Option Sighting
  | none => fun _ => none
  | some tree => sighted tree root

theorem sighted_of_readable {tree : FileTree} {root path : Path} {content : Bytes}
    (member : path ∈ sourceFiles tree root) (read : tree.read path = .ok content) :
    ∃ watermark, fileWatermark tree path = .ok watermark ∧
      sighted tree root path = some (watermark, Text.dropByteOrderMarks (Text.decodeLossy content)) := by
  have text : readLossy tree path = .ok (Text.dropByteOrderMarks (Text.decodeLossy content)) := by
    rw [readLossy, read]
    rfl
  unfold FileTree.read at read
  cases stat : tree.stat path with
  | error cause =>
    rw [stat] at read
    cases read
  | ok node =>
    cases node with
    | directory =>
      rw [stat] at read
      cases read
    | file bytes modified =>
      have mark : fileWatermark tree path = .ok (watermarkOf modified) := by
        rw [fileWatermark, FileTree.modified, stat]
        rfl
      exact ⟨_, mark, by rw [sighted, if_pos member, mark, text]⟩

theorem viewOf_plain (root : Path) (previous : Option FileTree) : Plain (viewOf root previous) := by
  cases previous with
  | none => nofun
  | some tree => exact sighted_plain tree root

namespace Scannable

variable {root : Path} {trees : List FileTree} (scannable : Scannable root trees)

include scannable

theorem sights {tree : FileTree} (member : tree ∈ trees) {path : Path} (inside : path ∈ sourceFiles tree root) :
    ∃ watermark content, fileWatermark tree path = .ok watermark ∧ tree.read path = .ok content ∧
      sighted tree root path = some (watermark, Text.dropByteOrderMarks (Text.decodeLossy content)) := by
  obtain ⟨content, read⟩ := scannable.readable tree member path inside
  obtain ⟨watermark, mark, found⟩ := sighted_of_readable inside read
  exact ⟨watermark, content, mark, read, found⟩

/-- A file has kept its watermark when it was there before with the same one. -/
theorem kept_iff {previous : Option FileTree} (known : ∀ before ∈ previous, before ∈ trees) {tree : FileTree}
    (member : tree ∈ trees) {path : Path} (inside : path ∈ sourceFiles tree root) :
    (viewOf root previous path).map Prod.fst = (sighted tree root path).map Prod.fst ↔
      ∃ before ∈ previous, path ∈ sourceFiles before root ∧ fileWatermark before path = fileWatermark tree path := by
  obtain ⟨watermark, _, mark, -, found⟩ := scannable.sights member inside
  rw [found, mark]
  cases previous with
  | none => simp [viewOf]
  | some before =>
    simp only [viewOf, Option.mem_some_iff, exists_eq_left']
    by_cases there : path ∈ sourceFiles before root
    · obtain ⟨watermark', _, mark', -, found'⟩ := scannable.sights (known before rfl) there
      simp [found', mark', there]
    · simp [sighted, there]

theorem agrees {previous : Option FileTree} (known : ∀ before ∈ previous, before ∈ trees) {tree : FileTree}
    (member : tree ∈ trees) : Agrees tree root (viewOf root previous) := by
  intro path inside same
  obtain ⟨before, earlier, there, marks⟩ := (scannable.kept_iff known member inside).1 same
  cases earlier
  obtain ⟨_, content, mark, read, found⟩ := scannable.sights member inside
  obtain ⟨_, content', mark', read', found'⟩ := scannable.sights (known before rfl) there
  have contents := scannable.faithful before (known before rfl) tree member path there inside marks
  rw [read, read'] at contents
  rw [mark, mark'] at marks
  cases contents
  cases marks
  exact found'.trans found.symm

theorem below {previous : Option FileTree} (known : ∀ before ∈ previous, before ∈ trees) :
    ∀ path sighting, viewOf root previous path = some sighting → Path.startsWith path root = true := by
  intro path sighting found
  cases previous with
  | none => cases found
  | some before =>
    exact startsWith_of_mem_sourceFiles (scannable.named before (known before rfl)) (sighted_eq_some found).1

theorem step {previous : Option FileTree} (known : ∀ before ∈ previous, before ∈ trees) {tree : FileTree}
    (member : tree ∈ trees) {index : FieldIndex} (holds : index.Holds (viewOf root previous)) :
    (update tree root index).1.Holds (sighted tree root) ∧
    ∃ calls, (updateWith noting tree root index).run [] = (update tree root index, calls) ∧ calls.Nodup ∧
      ∀ path, path ∈ calls ↔ path ∈ sourceFiles tree root ∧
        ∀ before ∈ previous, path ∉ sourceFiles before root ∨ fileWatermark before path ≠ fileWatermark tree path := by
  have readable : ∀ path ∈ sourceFiles tree root, ∃ sighting, sighted tree root path = some sighting := by
    intro path inside
    obtain ⟨_, _, -, -, found⟩ := scannable.sights member inside
    exact ⟨_, found⟩
  obtain ⟨held, calls, noted, distinct, called⟩ := update_holds (viewOf_plain root previous)
    (scannable.agrees known member) (scannable.below known) readable holds
  refine ⟨held, calls, noted, distinct, ?_⟩
  intro path
  rw [called]
  apply and_congr_right
  intro inside
  rw [Ne, scannable.kept_iff known member inside]
  simp only [not_exists, not_and, Decidable.imp_iff_not_or]

theorem scanAll_holds {index : FieldIndex} {previous : Option FileTree} (known : ∀ before ∈ previous, before ∈ trees)
    (holds : index.Holds (viewOf root previous)) {later : List FileTree} (inside : ∀ tree ∈ later, tree ∈ trees) :
    (later.foldl (fun index tree => (update tree root index).1) index).Holds
      (viewOf root (later.getLast?.or previous)) := by
  induction later generalizing index previous with
  | nil => exact holds
  | cons tree rest ih =>
    have member := inside tree (List.mem_cons_self ..)
    have held := (scannable.step known member holds).1
    have final := @ih _ (some tree) (by simpa using member) held
      fun other within => inside other (List.mem_cons_of_mem _ within)
    rw [List.foldl_cons, List.getLast?_cons]
    cases last : rest.getLast? with
    | none =>
      rw [last] at final
      exact final
    | some other =>
      rw [last] at final
      exact final

end Scannable

/-- Scanning trees in turn leaves the index that a scan of the last tree from scratch gives, and at
each tree the reader is called once on each source file that is new or has a new watermark, and on
no other. -/
theorem scanAll_eq_scratch (root : Path) (trees : List FileTree) (scannable : Scannable root trees) :
    (∀ last, trees.getLast? = some last → scanAll root trees = (update last root empty).1) ∧
    ∀ earlier tree later, trees = earlier ++ tree :: later →
      ∃ calls, (updateWith noting tree root (scanAll root earlier)).run [] =
          (update tree root (scanAll root earlier), calls) ∧ calls.Nodup ∧
        ∀ path, path ∈ calls ↔ path ∈ sourceFiles tree root ∧
          ∀ before, earlier.getLast? = some before →
            path ∉ sourceFiles before root ∨ fileWatermark before path ≠ fileWatermark tree path := by
  have nothing : ∀ before ∈ (none : Option FileTree), before ∈ trees := nofun
  have scanned (part : List FileTree) (inside : ∀ tree ∈ part, tree ∈ trees) :
      (scanAll root part).Holds (viewOf root part.getLast?) := by
    have held := scannable.scanAll_holds nothing empty_holds inside
    rwa [Option.or_none] at held
  constructor
  · intro last ending
    have member := List.mem_of_getLast? ending
    have held := scanned trees fun _ member => member
    have scratch := (scannable.step nothing member empty_holds).1
    rw [ending] at held
    exact held.unique scratch
  · intro earlier tree later split
    have inside : ∀ other ∈ earlier, other ∈ trees := by
      intro other member
      rw [split]
      exact List.mem_append_left _ member
    have member : tree ∈ trees := by simp [split]
    have held := scanned earlier inside
    exact (scannable.step (fun before last => inside before (List.mem_of_getLast? last)) member held).2

def unedited : FileTree :=
  ⟨[(["r"], .directory), (["r", "a.al"], .file [65] 1000), (["r", "b.al"], .file [66] 1000)], [], 0⟩

/-- The directory after one file was changed and another one added. -/
def edited : FileTree :=
  ⟨[(["r"], .directory), (["r", "a.al"], .file [65] 1000), (["r", "b.al"], .file [67] 2000),
    (["r", "c.al"], .file [68] 2000)], [], 0⟩

theorem scanAll_edited : Scannable "/r" [unedited, edited] ∧
    scanAll "/r" [unedited, edited] = (update edited "/r" empty).1 := by
  have first : sourceFiles unedited "/r" = ["/r/a.al", "/r/b.al"] := by
    have children : unedited.childNames ["r"] = ["a.al", "b.al"] :=
      FileTree.childNames_of_sorted (by decide +kernel) (by decide +kernel)
    refine sourceFiles_of_files rfl rfl rfl children ?_ (by decide +kernel) (by decide +kernel)
    simp only [List.mem_cons, List.not_mem_nil, or_false, forall_eq_or_imp, forall_eq]
    exact ⟨⟨_, _, rfl⟩, _, _, rfl⟩
  have second : sourceFiles edited "/r" = ["/r/a.al", "/r/b.al", "/r/c.al"] := by
    have children : edited.childNames ["r"] = ["a.al", "b.al", "c.al"] :=
      FileTree.childNames_of_sorted (by decide +kernel) (by decide +kernel)
    refine sourceFiles_of_files rfl rfl rfl children ?_ (by decide +kernel) (by decide +kernel)
    simp only [List.mem_cons, List.not_mem_nil, or_false, forall_eq_or_imp, forall_eq]
    exact ⟨⟨_, _, rfl⟩, ⟨_, _, rfl⟩, _, _, rfl⟩
  have moved : fileWatermark unedited "/r/b.al" ≠ fileWatermark edited "/r/b.al" := by
    intro same
    have marks : watermarkOf 1000 ≠ watermarkOf 2000 := by decide +kernel
    exact marks (Except.ok.inj same)
  have scannable : Scannable "/r" [unedited, edited] := by
    constructor
    · unfold FileTree.WellNamed
      decide +kernel
    · simp only [List.mem_cons, List.not_mem_nil, or_false, forall_eq_or_imp, forall_eq, first, second]
      exact ⟨⟨⟨_, rfl⟩, ⟨_, rfl⟩⟩, ⟨_, rfl⟩, ⟨_, rfl⟩, ⟨_, rfl⟩⟩
    · have kept : ∀ path ∈ sourceFiles unedited "/r", fileWatermark unedited path = fileWatermark edited path →
          unedited.read path = edited.read path := by
        simp only [first, List.mem_cons, List.not_mem_nil, or_false, forall_eq_or_imp, forall_eq]
        exact ⟨fun _ => rfl, fun same => absurd same moved⟩
      simp only [List.mem_cons, List.not_mem_nil, or_false, forall_eq_or_imp, forall_eq, implies_true, true_and,
        and_true]
      exact ⟨fun path here _ same => kept path here same, fun path _ here same => (kept path here same.symm).symm⟩
  exact ⟨scannable, (scanAll_eq_scratch "/r" _ scannable).1 edited rfl⟩

end SymbolCache.FieldIndex
