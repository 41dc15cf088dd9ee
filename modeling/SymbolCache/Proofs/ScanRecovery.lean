import SymbolCache.Proofs.IncrementalScan

/-! Updates that start from maps of different generations. Tables and pages heal, since every entry is
right for the old ledger or for the new one; watermarks without their ledger do not. -/

namespace SymbolCache.FieldIndex
open Source

/-- Every entry of an index is what its ledger says or what a later one says. -/
structure Settling (target : Dict Contribution) (index : FieldIndex) : Prop where
  tables : ∀ name, index.tableFields.get? name = tableValue? index.contributions name ∨
    index.tableFields.get? name = tableValue? target name
  pages : ∀ page, index.pageSources.get? page = pageValue? index.contributions page ∨
    index.pageSources.get? page = pageValue? target page

namespace Settling

variable {target : Dict Contribution} {index after : FieldIndex}

theorem patched (settling : Settling target index) (patched : Patched index after) : Settling target after := by
  constructor
  · intro name
    rcases patched.tables name with new | ⟨stayed, same⟩
    · exact .inl new
    · rw [stayed, same]
      exact settling.tables name
  · intro page
    rcases patched.pages page with new | ⟨stayed, same⟩
    · exact .inl new
    · rw [stayed, same]
      exact settling.pages page

theorem withWatermarks (settling : Settling target index) (watermarks : Dict Binary64) :
    Settling target { index with watermarks } := ⟨settling.tables, settling.pages⟩

/-- Once the later ledger is there, everything is as it says. -/
theorem derived (settling : Settling target index) (arrived : index.contributions = target) : Derived index := by
  constructor
  · intro name
    rcases settling.tables name with now | later
    · exact now
    · rw [later, arrived]
  · intro page
    rcases settling.pages page with now | later
    · exact now
    · rw [later, arrived]

end Settling

/-- Takes in a file as it is sighted, unless it is known at this watermark. -/
def take (view : Path → Option Sighting) (index : FieldIndex) (path : Path) : FieldIndex :=
  match view path with
  | none => index
  | some (watermark, text) =>
    if index.isCurrent path watermark then index else index.updateFile path watermark (.ofSource text)

def takeAll (view : Path → Option Sighting) (paths : List Path) (index : FieldIndex) : FieldIndex :=
  paths.foldl (take view) index

/-- Forgets the files below a directory that are not among some others. -/
def forget (root : Path) (paths : List Path) (index : FieldIndex) : FieldIndex :=
  (index.stalePaths root paths).foldl retract index

theorem update_eq_take {tree : FileTree} {root : Path}
    (readable : ∀ path ∈ sourceFiles tree root, ∃ sighting, sighted tree root path = some sighting)
    (index : FieldIndex) : (update tree root index).1 =
      forget root (sourceFiles tree root) (takeAll (sighted tree root) (sourceFiles tree root) index) := by
  have visits (paths : List Path) (run : UpdateRun)
      (readable : ∀ path ∈ paths, ∃ sighting, sighted tree root path = some sighting) :
      (paths.foldl (next tree) run).seen = run.seen ++ paths ∧
        (paths.foldl (next tree) run).index = takeAll (sighted tree root) paths run.index := by
    induction paths generalizing run with
    | nil => simp [takeAll]
    | cons path rest ih =>
      obtain ⟨⟨watermark, text⟩, found⟩ := readable path (List.mem_cons_self ..)
      obtain ⟨seen, index, -⟩ := visit_sighted found run []
      obtain ⟨laterSeen, laterIndex⟩ := ih (next tree run path)
        fun other member => readable other (List.mem_cons_of_mem _ member)
      rw [List.foldl_cons, laterSeen, laterIndex, seen, index]
      simp [takeAll, take, found]
  obtain ⟨seen, visited⟩ := visits (sourceFiles tree root) ⟨index, ⟨0, 0, 0⟩, []⟩ readable
  have folded := foldlM_next tree (sourceFiles tree root) ⟨index, ⟨0, 0, 0⟩, []⟩
  have result : (update tree root index).1 =
      (dropStale root ((sourceFiles tree root).foldl (next tree) ⟨index, ⟨0, 0, 0⟩, []⟩)).index :=
    congrArg (fun run => (dropStale root run).index) folded
  rw [result, dropStale, seen, visited]
  rfl

section Settle

variable {target : Dict Contribution} {view : Path → Option Sighting}

theorem take_settles {index : FieldIndex} (settling : Settling target index) (path : Path) :
    Settling target (take view index path) := by
  unfold take
  split
  · exact settling
  · split
    · exact settling
    · exact (settling.patched (apply_patches ..)).withWatermarks _

theorem takeAll_settles {index : FieldIndex} (settling : Settling target index) (paths : List Path) :
    Settling target (takeAll view paths index) := by
  induction paths generalizing index with
  | nil => exact settling
  | cons path rest ih => exact ih (take_settles settling path)

theorem forget_settles {index : FieldIndex} (settling : Settling target index) (root : Path) (paths : List Path) :
    Settling target (forget root paths index) := by
  unfold forget
  induction index.stalePaths root paths generalizing index with
  | nil => exact settling
  | cons path rest ih => exact ih (settling.patched (retract_patches index path))

end Settle

/-- Two indexes have the same watermarks and the same ledger. -/
structure SameRecords (first second : FieldIndex) : Prop where
  watermarks : first.watermarks = second.watermarks
  contributions : first.contributions = second.contributions

namespace SameRecords

variable {first second : FieldIndex}

theorem isCurrent_eq (same : SameRecords first second) (path : Path) (watermark : Binary64) :
    first.isCurrent path watermark = second.isCurrent path watermark := by
  rw [isCurrent, isCurrent, same.watermarks, same.contributions]

theorem take (same : SameRecords first second) (view : Path → Option Sighting) (path : Path) :
    SameRecords (take view first path) (FieldIndex.take view second path) := by
  unfold FieldIndex.take
  split
  · exact same
  · rw [same.isCurrent_eq]
    split
    · exact same
    · constructor
      · rw [updateFile, updateFile, apply_watermarks, apply_watermarks, same.watermarks]
      · rw [updateFile, updateFile, apply_contributions, apply_contributions, same.contributions]

theorem takeAll (same : SameRecords first second) (view : Path → Option Sighting) (paths : List Path) :
    SameRecords (takeAll view paths first) (FieldIndex.takeAll view paths second) := by
  induction paths generalizing first second with
  | nil => exact same
  | cons path rest ih => exact ih (same.take view path)

theorem forget (same : SameRecords first second) (root : Path) (paths : List Path) :
    SameRecords (forget root paths first) (FieldIndex.forget root paths second) := by
  have stale : first.stalePaths root paths = second.stalePaths root paths := by
    rw [stalePaths, stalePaths, pathsUnder, pathsUnder, same.watermarks]
  unfold FieldIndex.forget
  rw [stale]
  clear stale
  induction second.stalePaths root paths generalizing first second with
  | nil => exact same
  | cons path rest ih =>
    refine ih ⟨?_, ?_⟩
    · rw [retract_watermarks, retract_watermarks, same.watermarks]
    · rw [retract_contributions, retract_contributions, same.contributions]

end SameRecords

section Recovery

variable {tree : FileTree} {root : Path}
  (readable : ∀ path ∈ sourceFiles tree root, ∃ sighting, sighted tree root path = some sighting)

include readable

theorem scratch_holds : (update tree root empty).1.Holds (sighted tree root) := by
  have nothing : Agrees tree root fun _ => none := by
    intro path _ unmarked
    exact (Option.map_eq_none_iff.1 unmarked.symm).symm
  have unseen : Plain fun _ => none := fun _ _ found => nomatch found
  exact (update_holds unseen nothing (fun _ _ found => nomatch found) readable empty_holds).1

/-- Watermarks and ledger of one generation heal tables and pages of another one. -/
theorem update_heals {old : Path → Option Sighting} (plain : Plain old) (agrees : Agrees tree root old)
    (below : ∀ path sighting, old path = some sighting → Path.startsWith path root = true)
    {known index : FieldIndex} (holds : known.Holds old) (same : SameRecords index known)
    (settling : Settling (update tree root empty).1.contributions index) :
    (update tree root index).1 = (update tree root empty).1 := by
  have scratch := scratch_holds readable
  have updated := (update_holds plain agrees below readable holds).1.unique scratch
  have records : SameRecords (update tree root index).1 (update tree root known).1 := by
    rw [update_eq_take readable, update_eq_take readable]
    exact (same.takeAll _ _).forget _ _
  have settled : Settling (update tree root empty).1.contributions (update tree root index).1 := by
    rw [update_eq_take readable index]
    exact forget_settles (takeAll_settles settling _) _ _
  rw [updated] at records
  exact (settled.derived records.contributions).ext scratch.derived records.contributions records.watermarks

end Recovery

/-- All watermarks are the present ones, and files are taken in only where the ledger has nothing. -/
structure Blinded (view : Path → Option Sighting) (ledger : Dict Contribution) (done : List Path)
    (index : FieldIndex) : Prop where
  watermarks : ∀ path, index.watermarks.get? path = (view path).map Prod.fst
  contributions : ∀ path, index.contributions.get? path = if path ∈ done then
    (ledger.get? path).or ((view path).map fun sighting => Contribution.ofSource sighting.2) else ledger.get? path

namespace Blinded

variable {view : Path → Option Sighting} {ledger : Dict Contribution} {done : List Path} {index : FieldIndex}

theorem take (plain : Plain view) (blinded : Blinded view ledger done index) (path : Path) :
    Blinded view ledger (done ++ [path]) (index.take view path) := by
  have elsewhere (other : Path) (distinct : other ≠ path) : other ∈ done ++ [path] ↔ other ∈ done := by simp [distinct]
  have here : path ∈ done ++ [path] := by simp
  cases seen : view path with
  | none =>
    rw [FieldIndex.take, seen]
    refine ⟨blinded.watermarks, fun other => ?_⟩
    rw [blinded.contributions]
    by_cases same : other = path
    · rw [same, if_pos here, seen]
      simp
    · simp only [elsewhere other same]
  | some sighting =>
    obtain ⟨watermark, text⟩ := sighting
    have marked : index.watermarks.get? path = some watermark := by rw [blinded.watermarks, seen]; rfl
    have equal : Binary64.same watermark watermark = true :=
      (same_iff (plain path _ seen) (plain path _ seen)).2 rfl
    have current : index.isCurrent path watermark = (index.contributions.get? path).isSome := by
      rw [isCurrent, marked, Option.any_some, equal, Bool.true_and]
      rfl
    rw [FieldIndex.take, seen]
    simp only [current]
    have known := blinded.contributions path
    cases found : index.contributions.get? path with
    | some old =>
      rw [Option.isSome_some, if_pos rfl]
      refine ⟨blinded.watermarks, fun other => ?_⟩
      by_cases same : other = path
      · rw [same, if_pos here, known]
        split
        · rfl
        · rename_i fresh
          rw [found, if_neg fresh] at known
          rw [← known]
          rfl
      · rw [blinded.contributions]
        simp only [elsewhere other same]
    | none =>
      rw [Option.isSome_none, if_neg Bool.false_ne_true]
      constructor
      · intro other
        rw [updateFile, apply_watermarks, Dict.get?_insert]
        split
        · rename_i same
          rw [same, seen]
          rfl
        · exact blinded.watermarks other
      · intro other
        rw [updateFile, apply_contributions, Dict.get?_insert]
        split
        · rename_i same
          have unknown : ledger.get? path = none := by
            rw [found] at known
            split at known
            · exact (Option.or_eq_none_iff.1 known.symm).1
            · exact known.symm
          rw [same, if_pos here, unknown, seen]
          rfl
        · rename_i distinct
          rw [blinded.contributions]
          simp only [elsewhere other distinct]

theorem takeAll (plain : Plain view) (blinded : Blinded view ledger done index) (paths : List Path) :
    Blinded view ledger (done ++ paths) (index.takeAll view paths) := by
  induction paths generalizing done index with
  | nil => simpa [FieldIndex.takeAll] using blinded
  | cons path rest ih => simpa [FieldIndex.takeAll] using ih (blinded.take plain path)

end Blinded

section Blind

variable {tree : FileTree} {root : Path}
  (readable : ∀ path ∈ sourceFiles tree root, ∃ sighting, sighted tree root path = some sighting)

include readable

/-- An update that finds the present watermarks keeps whatever ledger it is given, and adds to it only
files that it does not have. -/
theorem update_blinded {index : FieldIndex} (marked : index.watermarks = (update tree root empty).1.watermarks) :
    (update tree root index).1.watermarks = (update tree root empty).1.watermarks ∧
    ∀ path, (update tree root index).1.contributions.get? path =
      (index.contributions.get? path).or ((update tree root empty).1.contributions.get? path) := by
  have scratch := scratch_holds readable
  have start : Blinded (sighted tree root) index.contributions [] index :=
    ⟨fun path => by rw [marked, scratch.watermarks], fun path => by simp⟩
  have taken := start.takeAll (sighted_plain tree root) (sourceFiles tree root)
  rw [List.nil_append] at taken
  -- Every path with a watermark is a source file, so that nothing counts as gone.
  have nothing : (index.takeAll (sighted tree root) (sourceFiles tree root)).stalePaths root (sourceFiles tree root) =
      [] := by
    rw [stalePaths, List.filter_eq_nil_iff]
    intro path member
    obtain ⟨watermark, found⟩ := Dict.mem_keys_iff.1 (List.mem_filter.1 member).1
    rw [taken.watermarks] at found
    obtain ⟨sighting, seen, -⟩ := Option.map_eq_some_iff.1 found
    simpa using (sighted_eq_some seen).1
  rw [update_eq_take readable index, forget, nothing, List.foldl_nil]
  constructor
  · refine Dict.ext_get? fun path => ?_
    rw [taken.watermarks, scratch.watermarks]
  · intro path
    rw [taken.contributions, scratch.contributions]
    split
    · rfl
    · rename_i outside
      rw [sighted, if_neg outside]
      simp

/-- It ends in the right index exactly when all it was given is still right. -/
theorem update_blinded_eq_iff {index : FieldIndex} (marked : index.watermarks = (update tree root empty).1.watermarks)
    (settling : Settling (update tree root empty).1.contributions index) :
    (update tree root index).1 = (update tree root empty).1 ↔
      ∀ path contribution, index.contributions.get? path = some contribution →
        (update tree root empty).1.contributions.get? path = some contribution := by
  obtain ⟨watermarks, contributions⟩ := update_blinded readable marked
  constructor
  · intro same path contribution found
    have kept := contributions path
    rw [found, Option.some_or] at kept
    rw [← same, kept]
  · intro right
    have ledger : (update tree root index).1.contributions = (update tree root empty).1.contributions := by
      refine Dict.ext_get? fun path => ?_
      rw [contributions]
      cases found : index.contributions.get? path with
      | none => simp
      | some contribution =>
        rw [right path contribution found]
        rfl
    have settled : Settling (update tree root empty).1.contributions (update tree root index).1 := by
      rw [update_eq_take readable index]
      exact forget_settles (takeAll_settles settling _) _ _
    exact (settled.derived ledger).ext (scratch_holds readable).derived ledger watermarks

end Blind

end SymbolCache.FieldIndex
