import SymbolCache.Proofs.DictLookup
import SymbolCache.Refresh.Coordinator

/-! Merging the results of packages into a previous store, for every division of the packages into skipped, succeeded
and failed ones and every order of the results. Later results win, so each entry is described by the last contribution to
its key. -/

namespace SymbolCache

def LastWith {α : Type} (property : α → Prop) (list : List α) (item : α) : Prop :=
  ∃ before after, list = before ++ item :: after ∧ property item ∧ ∀ later ∈ after, ¬ property later

namespace LastWith

variable {α β : Type} {property : α → Prop} {list : List α} {item : α}

theorem mem (last : LastWith property list item) : item ∈ list := by
  obtain ⟨before, after, split, -, -⟩ := last
  simp [split]

theorem holds (last : LastWith property list item) : property item := by
  obtain ⟨-, -, -, holds, -⟩ := last
  exact holds

theorem exists_of_mem (property : α → Prop) (member : item ∈ list) (holds : property item) :
    ∃ last, LastWith property list last := by
  induction list generalizing item with
  | nil => cases member
  | cons head rest ih =>
    by_cases inRest : ∃ other ∈ rest, property other
    · obtain ⟨other, inside, otherHolds⟩ := inRest
      obtain ⟨last, before, after, split, lastHolds, none⟩ := ih inside otherHolds
      exact ⟨last, head :: before, after, by rw [split, List.cons_append], lastHolds, none⟩
    · have atHead : item = head := by
        rcases List.mem_cons.1 member with same | inside
        · exact same
        · exact absurd ⟨item, inside, holds⟩ inRest
      subst atHead
      exact ⟨item, [], rest, rfl, holds, fun later inside found => inRest ⟨later, inside, found⟩⟩

/-- The last of all results comes from the last item that has results. -/
theorem flatMap {results : α → List β} {wanted : β → Prop} {result : β}
    (last : LastWith (fun candidate => ∃ value ∈ results candidate, wanted value) list item)
    (within : LastWith wanted (results item) result) : LastWith wanted (list.flatMap results) result := by
  obtain ⟨before, after, rfl, -, none⟩ := last
  obtain ⟨earlier, later, split, holds, noneLater⟩ := within
  refine ⟨before.flatMap results ++ earlier, later ++ after.flatMap results, by simp [split], holds, ?_⟩
  intro value member found
  rcases List.mem_append.1 member with inItem | inAfter
  · exact noneLater value inItem found
  · obtain ⟨other, inside, produced⟩ := List.mem_flatMap.1 inAfter
    exact none other inside ⟨value, produced, found⟩

theorem map {f : α → β} {wanted : β → Prop} (last : LastWith (fun candidate => wanted (f candidate)) list item) :
    LastWith wanted (list.map f) (f item) := by
  obtain ⟨before, after, rfl, holds, none⟩ := last
  refine ⟨before.map f, after.map f, by simp, holds, ?_⟩
  intro later member
  obtain ⟨origin, inside, rfl⟩ := List.mem_map.1 member
  exact none origin inside

theorem filter {test : α → Bool}
    (last : LastWith (fun candidate => test candidate = true ∧ property candidate) list item) :
    LastWith property (list.filter test) item := by
  obtain ⟨before, after, rfl, ⟨tested, holds⟩, none⟩ := last
  refine ⟨before.filter test, after.filter test, by simp [tested], holds, ?_⟩
  intro later member found
  obtain ⟨inside, passed⟩ := List.mem_filter.1 member
  exact none later inside ⟨passed, found⟩

end LastWith

namespace Dict

variable {α : Type}

theorem get?_insertAll_of_last {dict : Dict α} {entries : List (String × α)} {key : String}
    {entry : String × α} (last : LastWith (fun candidate => candidate.1 = key) entries entry) :
    (dict.insertAll entries).get? key = some entry.2 := by
  obtain ⟨before, after, rfl, same, none⟩ := last
  have nothing : after.filter (fun candidate => candidate.1 == key) = [] := by
    rw [List.filter_eq_nil_iff]
    intro later inside
    rw [beq_iff_eq]
    exact none later inside
  rw [get?_insertAll, List.filter_append, List.filter_cons_of_pos (by simpa using same), nothing]
  simp

theorem get?_insertAll_of_absent {dict : Dict α} {entries : List (String × α)} {key : String}
    (absent : ∀ entry ∈ entries, entry.1 ≠ key) : (dict.insertAll entries).get? key = dict.get? key := by
  have nothing : entries.filter (fun candidate => candidate.1 == key) = [] := by
    rw [List.filter_eq_nil_iff]
    intro entry inside
    rw [beq_iff_eq]
    exact absent entry inside
  rw [get?_insertAll, nothing]
  simp

theorem get?_insertAll_map_of_last {β : Type} {dict : Dict α} {items : List β} {entryOf : β → String × α}
    {key : String} {item : β} (last : LastWith (fun candidate => (entryOf candidate).1 = key) items item) :
    (dict.insertAll (items.map entryOf)).get? key = some (entryOf item).2 := by
  have mapped : LastWith (fun entry => entry.1 = key) (items.map entryOf) (entryOf item) := last.map
  exact get?_insertAll_of_last mapped

/-- An entry is the last one under its key, since keys are distinct. -/
theorem last_of_get? {dict : Dict α} {key : String} {value : α} (found : dict.get? key = some value) :
    LastWith (fun candidate => candidate.1 = key) dict.entries (key, value) := by
  obtain ⟨before, after, split⟩ := List.append_of_mem (get?_eq_some_iff.1 found)
  refine ⟨before, after, split, rfl, ?_⟩
  intro later inside same
  have sorted := (List.pairwise_append.1 (split ▸ dict.sorted)).2.1
  have greater : key < later.1 := List.rel_of_pairwise_cons sorted inside
  exact String.lt_irrefl key (same ▸ greater)

end Dict

namespace Refresh

namespace Finished

/-- The worker succeeded and reported an object of this name. -/
def Finds (item : Finished) (name : String) : Prop :=
  ∃ symbols procedures, item.outcome = .succeeded symbols procedures ∧ ∃ record ∈ symbols, record.name = name

/-- The worker succeeded and reported procedures under this key. -/
def Carries (item : Finished) (key : String) : Prop :=
  ∃ symbols procedures, item.outcome = .succeeded symbols procedures ∧ procedures.contains key = true

theorem finds_iff {item : Finished} {name : String} :
    item.Finds name ↔ ∃ record ∈ item.symbols, record.name = name := by
  unfold Finds symbols
  cases item.outcome <;> simp

theorem carries_iff {item : Finished} {key : String} : item.Carries key ↔ item.procedures.contains key = true := by
  unfold Carries procedures
  cases item.outcome with
  | succeeded symbols procedures =>
    constructor
    · intro ⟨_, _, same, present⟩
      cases same
      exact present
    · intro present
      exact ⟨symbols, procedures, rfl, present⟩
  | failed message benign => simp [Dict.contains]

theorem nothing_of_failed {item : Finished} (failed : item.isSuccess = false) :
    item.symbols = [] ∧ item.procedures = .empty := by
  unfold isSuccess at failed
  unfold symbols procedures
  cases seen : item.outcome <;> simp [seen] at failed ⊢

end Finished

/-- No object name and no procedure key occurs in both packages. -/
def Separate (first second : Finished) : Prop :=
  (∀ name, ¬ (first.Finds name ∧ second.Finds name)) ∧ ∀ key, ¬ (first.Carries key ∧ second.Carries key)

def Carried (skipped : List Artifact) (record : ObjectRecord) : Prop :=
  ∃ artifact ∈ skipped, record.app = some artifact.fileName

/-- What a store holds after packages have been merged into a previous one. -/
structure Merged (store : Store) (skipped : List Artifact) (finished : List Finished) (result : Store) : Prop where
  dir : result.dir = store.dir
  names : ∀ name, result.objects.contains name = true ↔ (∃ item ∈ finished, item.Finds name) ∨
    ∃ record ∈ store.objects.values, Carried skipped record ∧ record.name = name
  found : ∀ name item record, LastWith (fun candidate => candidate.Finds name) finished item →
    LastWith (fun candidate => candidate.name = name) item.symbols record →
    result.objects.get? name = some record
  kept : ∀ name record, (∀ item ∈ finished, ¬ item.Finds name) → result.objects.get? name = some record →
    LastWith (fun candidate => Carried skipped candidate ∧ candidate.name = name) store.objects.values record
  /-- In a store that files records under their names, the kept record is that of the key. -/
  filed : (∀ key record, store.objects.get? key = some record → record.name = key) →
    ∀ name record, (∀ item ∈ finished, ¬ item.Finds name) → result.objects.get? name = some record →
    store.objects.get? name = some record
  carried : ∀ key item, LastWith (fun candidate => candidate.Carries key) finished item →
    result.procedures.get? key = item.procedures.get? key
  others : ∀ key, (∀ item ∈ finished, ¬ item.Carries key) →
    result.procedures.get? key = store.procedures.get? key
  /-- Failed packages might as well not have been there. -/
  isolated : result = committed store skipped (finished.filter Finished.isSuccess)

variable {store : Store} {skipped : List Artifact} {finished : List Finished}

private theorem carried_iff {record : ObjectRecord} :
    (record.app.any fun app => skipped.any fun artifact => artifact.fileName == app) = true ↔
      Carried skipped record := by
  unfold Carried
  cases record.app with
  | none => simp
  | some app =>
    simp only [Option.any_some, List.any_eq_true, beq_iff_eq, Option.some.injEq]
    exact ⟨fun ⟨artifact, inside, same⟩ => ⟨artifact, inside, same.symm⟩,
      fun ⟨artifact, inside, same⟩ => ⟨artifact, inside, same.symm⟩⟩

theorem get?_carriedOver {name : String} {record : ObjectRecord}
    (last : LastWith (fun candidate => Carried skipped candidate ∧ candidate.name = name)
      store.objects.values record) : (carriedOver store skipped).get? name = some record := by
  simp only [← carried_iff] at last
  unfold carriedOver Dict.ofList
  exact Dict.get?_insertAll_map_of_last last.filter

theorem get?_carriedOver_eq_none {name : String}
    (absent : ∀ record ∈ store.objects.values, Carried skipped record → record.name ≠ name) :
    (carriedOver store skipped).get? name = none := by
  refine (Dict.get?_insertAll_of_absent ?_).trans (Dict.get?_empty name)
  intro entry member
  obtain ⟨record, chosen, rfl⟩ := List.mem_map.1 member
  obtain ⟨inside, carried⟩ := List.mem_filter.1 chosen
  exact absent record inside (carried_iff.1 carried)

theorem get?_mergedObjects_of_found {name : String} {item : Finished} {record : ObjectRecord}
    (last : LastWith (fun candidate => candidate.Finds name) finished item)
    (within : LastWith (fun candidate => candidate.name = name) item.symbols record) :
    (mergedObjects store skipped finished).get? name = some record := by
  simp only [Finished.finds_iff] at last
  unfold mergedObjects
  exact Dict.get?_insertAll_map_of_last (last.flatMap within)

theorem get?_mergedObjects_of_absent {name : String} (absent : ∀ item ∈ finished, ¬ item.Finds name) :
    (mergedObjects store skipped finished).get? name = (carriedOver store skipped).get? name := by
  refine Dict.get?_insertAll_of_absent ?_
  intro entry member same
  obtain ⟨record, produced, rfl⟩ := List.mem_map.1 member
  obtain ⟨item, inside, reported⟩ := List.mem_flatMap.1 produced
  exact absent item inside (Finished.finds_iff.2 ⟨record, reported, same⟩)

/-- Every name that a package has found has its last record in the last such package. -/
theorem exists_last_found {name : String} {item : Finished} (inside : item ∈ finished) (finds : item.Finds name) :
    ∃ last record, LastWith (fun candidate => candidate.Finds name) finished last ∧
      LastWith (fun candidate => candidate.name = name) last.symbols record := by
  obtain ⟨last, lastFinds⟩ := LastWith.exists_of_mem (fun candidate => candidate.Finds name) inside finds
  obtain ⟨candidate, reported, same⟩ := Finished.finds_iff.1 lastFinds.holds
  obtain ⟨record, lastNamed⟩ := LastWith.exists_of_mem (fun candidate => candidate.name = name) reported same
  exact ⟨last, record, lastFinds, lastNamed⟩

theorem contains_mergedObjects {name : String} :
    (mergedObjects store skipped finished).contains name = true ↔ (∃ item ∈ finished, item.Finds name) ∨
      ∃ record ∈ store.objects.values, Carried skipped record ∧ record.name = name := by
  rw [Dict.contains_iff]
  by_cases found : ∃ item ∈ finished, item.Finds name
  · obtain ⟨item, inside, finds⟩ := found
    obtain ⟨last, record, lastFinds, lastNamed⟩ := exists_last_found inside finds
    exact iff_of_true ⟨record, get?_mergedObjects_of_found lastFinds lastNamed⟩ (.inl ⟨item, inside, finds⟩)
  · have absent : ∀ item ∈ finished, ¬ item.Finds name := fun item inside finds => found ⟨item, inside, finds⟩
    rw [get?_mergedObjects_of_absent absent]
    by_cases carried : ∃ record ∈ store.objects.values, Carried skipped record ∧ record.name = name
    · obtain ⟨record, inside, kept⟩ := carried
      obtain ⟨last, lastKept⟩ := LastWith.exists_of_mem
        (fun candidate => Carried skipped candidate ∧ candidate.name = name) inside kept
      exact iff_of_true ⟨last, get?_carriedOver lastKept⟩ (.inr ⟨record, inside, kept⟩)
    · have nothing : (carriedOver store skipped).get? name = none :=
        get?_carriedOver_eq_none fun record inside kept same => carried ⟨record, inside, kept, same⟩
      simp [nothing, found, carried]

theorem last_carried_of_get? {name : String} {record : ObjectRecord}
    (found : (carriedOver store skipped).get? name = some record) :
    LastWith (fun candidate => Carried skipped candidate ∧ candidate.name = name) store.objects.values record := by
  by_cases carried : ∃ record ∈ store.objects.values, Carried skipped record ∧ record.name = name
  · obtain ⟨candidate, inside, kept⟩ := carried
    obtain ⟨last, lastKept⟩ := LastWith.exists_of_mem
      (fun candidate => Carried skipped candidate ∧ candidate.name = name) inside kept
    rw [get?_carriedOver lastKept] at found
    cases found
    exact lastKept
  · have nothing : (carriedOver store skipped).get? name = none :=
      get?_carriedOver_eq_none fun record inside kept same => carried ⟨record, inside, kept, same⟩
    rw [nothing] at found
    cases found

@[simp] theorem committed_objects :
    (committed store skipped finished).objects = mergedObjects store skipped finished := rfl

private theorem carries_iff_entries {item : Finished} {key : String} :
    item.Carries key ↔ ∃ entry ∈ item.procedures.entries, entry.1 = key := by
  rw [Finished.carries_iff, Dict.contains_iff]
  constructor
  · intro ⟨value, found⟩
    exact ⟨(key, value), Dict.get?_eq_some_iff.1 found, rfl⟩
  · intro ⟨entry, inside, same⟩
    exact ⟨entry.2, Dict.get?_eq_some_iff.2 (same ▸ inside)⟩

theorem get?_procedures_of_carried {key : String} {item : Finished}
    (last : LastWith (fun candidate => candidate.Carries key) finished item) :
    (committed store skipped finished).procedures.get? key = item.procedures.get? key := by
  obtain ⟨value, found⟩ := Dict.contains_iff.1 (Finished.carries_iff.1 last.holds)
  simp only [carries_iff_entries] at last
  rw [found]
  exact Dict.get?_insertAll_of_last (last.flatMap (Dict.last_of_get? found))

theorem get?_procedures_of_absent {key : String} (absent : ∀ item ∈ finished, ¬ item.Carries key) :
    (committed store skipped finished).procedures.get? key = store.procedures.get? key := by
  refine Dict.get?_insertAll_of_absent ?_
  intro entry member same
  obtain ⟨item, inside, reported⟩ := List.mem_flatMap.1 member
  exact absent item inside (carries_iff_entries.2 ⟨entry, reported, same⟩)

private theorem flatMap_filter_isSuccess {β : Type} {results : Finished → List β}
    (nothing : ∀ item, item.isSuccess = false → results item = []) (items : List Finished) :
    (items.filter Finished.isSuccess).flatMap results = items.flatMap results := by
  induction items with
  | nil => rfl
  | cons head rest ih =>
    cases success : head.isSuccess with
    | true => rw [List.filter_cons_of_pos success, List.flatMap_cons, List.flatMap_cons, ih]
    | false => rw [List.filter_cons_of_neg (by simp [success]), List.flatMap_cons, nothing head success, ih,
        List.nil_append]

theorem committed_filter_isSuccess :
    committed store skipped (finished.filter Finished.isSuccess) = committed store skipped finished := by
  have symbols := flatMap_filter_isSuccess (fun item failed => (Finished.nothing_of_failed failed).1) finished
  have procedures : (finished.filter Finished.isSuccess).flatMap (fun item => item.procedures.entries) =
      finished.flatMap fun item => item.procedures.entries := by
    refine flatMap_filter_isSuccess ?_ finished
    intro item failed
    rw [(Finished.nothing_of_failed failed).2]
    rfl
  unfold committed mergedObjects
  rw [symbols, procedures]

theorem merged_committed (store : Store) (skipped : List Artifact) (finished : List Finished) :
    Merged store skipped finished (committed store skipped finished) where
  dir := rfl
  names _ := contains_mergedObjects
  found _ _ _ last within := get?_mergedObjects_of_found last within
  kept name record absent found := by
    rw [committed_objects, get?_mergedObjects_of_absent absent] at found
    exact last_carried_of_get? found
  filed named name record absent found := by
    rw [committed_objects, get?_mergedObjects_of_absent absent] at found
    have last := last_carried_of_get? found
    obtain ⟨key, previous⟩ := Dict.mem_values_iff.1 last.mem
    have same : key = name := (named key record previous).symm.trans last.holds.2
    exact same ▸ previous
  carried _ _ last := get?_procedures_of_carried last
  others _ absent := get?_procedures_of_absent absent
  isolated := committed_filter_isSuccess.symm

/-- Results of which no two items share a part come out the same in every order. -/
private theorem flatMap_perm {α β : Type} {results : α → List β} {items reordered : List α}
    (same : reordered.Perm items) (apart : items.Pairwise fun first second => results first = [] ∨ results second = []) :
    reordered.flatMap results = items.flatMap results := by
  have apart' := apart.perm same.symm fun alternative => alternative.symm
  clear apart
  induction same with
  | nil => rfl
  | cons item _ ih => rw [List.flatMap_cons, List.flatMap_cons, ih (List.pairwise_cons.1 apart').2]
  | swap first second rest =>
    have alternative := (List.pairwise_cons.1 apart').1 first (List.mem_cons_self ..)
    rcases alternative with none | none <;> simp [none]
  | trans firstSwaps _ ihFirst ihSecond =>
    rw [ihFirst apart', ihSecond (apart'.perm firstSwaps fun alternative => alternative.symm)]

private theorem insertAll_flatMap_perm {α : Type} {dict : Dict α} {results : Finished → List (String × α)}
    {reordered : List Finished} (same : reordered.Perm finished)
    (apart : ∀ key, finished.Pairwise fun first second =>
      ¬ ((∃ entry ∈ results first, entry.1 = key) ∧ ∃ entry ∈ results second, entry.1 = key)) :
    dict.insertAll (reordered.flatMap results) = dict.insertAll (finished.flatMap results) := by
  refine Dict.ext_get? fun key => ?_
  -- Under one key at most one item has entries, so the entries of that key do not depend on the order.
  have entries : (reordered.flatMap results).filter (fun entry => entry.1 == key) =
      (finished.flatMap results).filter fun entry => entry.1 == key := by
    rw [List.filter_flatMap, List.filter_flatMap]
    refine flatMap_perm same ((apart key).imp ?_)
    intro first second separate
    rw [List.filter_eq_nil_iff, List.filter_eq_nil_iff]
    by_cases inFirst : ∃ entry ∈ results first, entry.1 = key
    · refine .inr fun entry inside equal => separate ⟨inFirst, entry, inside, beq_iff_eq.1 equal⟩
    · refine .inl fun entry inside equal => inFirst ⟨entry, inside, beq_iff_eq.1 equal⟩
  rw [Dict.get?_insertAll, Dict.get?_insertAll, entries]

theorem committed_perm {reordered : List Finished} (same : reordered.Perm finished)
    (separate : finished.Pairwise Separate) :
    committed store skipped reordered = committed store skipped finished := by
  have objects : mergedObjects store skipped reordered = mergedObjects store skipped finished := by
    unfold mergedObjects
    rw [List.map_flatMap, List.map_flatMap]
    refine insertAll_flatMap_perm same fun name => separate.imp ?_
    intro first second apart
    simpa [Finished.finds_iff] using apart.1 name
  have procedures := @insertAll_flatMap_perm finished _ store.procedures (fun item => item.procedures.entries)
    reordered same fun key => separate.imp fun apart => by
      simpa only [carries_iff_entries] using apart.2 key
  unfold committed Store.mergeProcedures Store.replaceObjects
  rw [objects, procedures]

private theorem foldl_process_artifacts (program : Worker.Program) (options : ProcessOptions) (order : List Artifact)
    (run : Run) : (order.foldl (Run.process program options) run).finished.map Finished.artifact =
      run.finished.map Finished.artifact ++ order := by
  induction order generalizing run with
  | nil => simp
  | cons artifact rest ih =>
    rw [List.foldl_cons, ih]
    simp [Run.process]

/-- Every package that goes to a worker finishes once, in the order of completion. -/
theorem consultAll_artifacts (begun : Begun) (order : List Artifact) :
    (begun.consultAll order).finished.map Finished.artifact = order :=
  foldl_process_artifacts _ _ order _

/-- What a refresh that has begun knows. -/
theorem begun_of_begin? {coordinator : Coordinator} {tree : FileTree} {begun : Begun}
    (begins : begin? coordinator store tree = some begun) :
    let artifacts := Package.discover tree coordinator.options.packageDirs coordinator.options.packages
    coordinator.running = false ∧ begun = ⟨{ coordinator with running := true }, store, tree, artifacts,
      artifacts.filter (isSkipped coordinator.options store tree)⟩ := by
  unfold begin? at begins
  split at begins
  · cases begins
  · rename_i idle
    exact ⟨eq_false_of_ne_true idle, (Option.some.inj begins).symm⟩

theorem skipped_append_remaining {coordinator : Coordinator} {tree : FileTree} {begun : Begun}
    (begins : begin? coordinator store tree = some begun) :
    (begun.skipped ++ begun.remaining).Perm begun.artifacts := by
  obtain ⟨-, rfl⟩ := begun_of_begin? begins
  exact List.filter_append_perm ..

theorem begin?_store {coordinator : Coordinator} {tree : FileTree} {begun : Begun}
    (begins : begin? coordinator store tree = some begun) : begun.store = store := by
  obtain ⟨-, rfl⟩ := begun_of_begin? begins
  rfl

theorem Finished.report_artifact (item : Finished) : item.report.artifact = item.artifact := by
  unfold Finished.report
  split <;> rfl

theorem artifact_reportOf (skipped : List Artifact) (finished : List Finished) (artifact : Artifact) :
    (reportOf skipped finished artifact).artifact = artifact := by
  unfold reportOf
  split
  · rfl
  · split
    · rename_i item found
      rw [item.report_artifact]
      simpa using List.find?_some found
    · rfl

end Refresh

end SymbolCache
