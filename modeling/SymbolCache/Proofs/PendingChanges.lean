import SymbolCache.Proofs.RefreshLifecycle
import SymbolCache.Watch.Response

/-! What becomes of a changed source file. Between two pauses it asks for an update of the field index, but if a package
has changed too the update is left to a refresh, which makes it only after a success. -/

namespace SymbolCache
open Worker (FieldWorker)

namespace Refresh

def Result.Succeeds (result : Result) : Prop :=
  ∃ report, result.report = some report ∧ ∃ item ∈ report.artifacts, item.state = .succeeded

theorem Finished.isSuccess_iff (item : Finished) : item.isSuccess = true ↔ item.report.state = .succeeded := by
  unfold Finished.isSuccess Finished.report
  split <;> simp

theorem find?_artifact {finished : List Finished} {item : Finished} (distinct : (finished.map Finished.artifact).Nodup)
    (inside : item ∈ finished) : finished.find? (fun other => other.artifact = item.artifact) = some item := by
  cases first : finished.find? fun other => other.artifact = item.artifact with
  | none =>
    have other := List.find?_eq_none.1 first item inside
    simp at other
  | some found =>
    have named : found.artifact = item.artifact := by simpa using List.find?_some first
    rw [List.inj_on_of_nodup_map distinct (List.mem_of_find?_eq_some first) inside named]

def Coordinator.withFieldWorker (coordinator : Coordinator) (worker : FieldWorker) : Coordinator :=
  { coordinator with fieldWorker := worker }

def Begun.withFieldWorker (begun : Begun) (worker : FieldWorker) : Begun :=
  { begun with coordinator := begun.coordinator.withFieldWorker worker }

section Concluding

variable {coordinator : Coordinator} {store : Store} {tree : FileTree} {begun : Begun} {run : Run} {order : List Artifact}

/-- A package is reported as a success if its worker has answered with one. -/
theorem succeeds_result_iff (begins : begin? coordinator store tree = some begun) (given : order.Perm begun.remaining)
    (finished : run.finished.map Finished.artifact = order) :
    (begun.result run).Succeeds ↔ run.finished.any Finished.isSuccess = true := by
  rw [List.any_eq_true]
  constructor
  · rintro ⟨_, ⟨⟩, item, listed, succeeded⟩
    obtain ⟨artifact, -, rfl⟩ := List.mem_map.1 listed
    unfold reportOf at succeeded
    split at succeeded
    · cases succeeded
    · split at succeeded
      · rename_i found
        exact ⟨_, List.mem_of_find?_eq_some found, (Finished.isSuccess_iff _).2 succeeded⟩
      · cases succeeded
  · rintro ⟨item, inside, success⟩
    have distinct : (run.finished.map Finished.artifact).Nodup := by
      rw [finished, given.nodup_iff]
      exact (List.Nodup.of_map _ (distinct_of_begin? begins)).filter _
    have remains : item.artifact ∈ begun.remaining :=
      given.mem_iff.1 (finished ▸ List.mem_map.2 ⟨item, inside, rfl⟩)
    have listed : item.artifact ∈ begun.artifacts := (List.mem_filter.1 remains).1
    have unskipped : item.artifact ∉ begun.skipped := fun skipped => (mem_skipped_iff begins listed).1 skipped remains
    refine ⟨_, rfl, _, List.mem_map.2 ⟨item.artifact, listed, rfl⟩, ?_⟩
    rw [reportOf, if_neg (by simpa using unskipped), find?_artifact distinct inside]
    exact (Finished.isSuccess_iff item).1 success

theorem begin?_withFieldWorker (coordinator : Coordinator) (store : Store) (tree : FileTree) (worker : FieldWorker) :
    begin? (coordinator.withFieldWorker worker) store tree =
      (begin? coordinator store tree).map (·.withFieldWorker worker) := by
  unfold begin?
  by_cases running : coordinator.running = true
  · rw [if_pos running, if_pos (show (coordinator.withFieldWorker worker).running = true from running)]
    rfl
  · rw [if_neg running, if_neg (show ¬ (coordinator.withFieldWorker worker).running = true from running)]
    rfl

theorem updateFields_withFieldWorker (begun : Begun) (run : Run) (tree : FileTree) (worker : FieldWorker) :
    let updated := (begun.withFieldWorker worker).updateFields run tree
    (updated.1.fieldWorker, updated.2) =
      if begun.coordinator.options.extractSources && run.finished.any Finished.isSuccess then
        (worker.update (begun.coordinator.fieldOptions none) tree).2
      else (worker, tree) := by
  unfold Begun.updateFields
  by_cases chosen : (begun.coordinator.options.extractSources && run.finished.any Finished.isSuccess) = true
  · rw [if_pos chosen, if_pos (show (begun.withFieldWorker worker).coordinator.options.extractSources && _ from chosen)]
    rfl
  · rw [if_neg chosen, if_neg (show ¬ ((begun.withFieldWorker worker).coordinator.options.extractSources && _) from chosen)]
    rfl

/-- A refresh asks the field worker for an update after a success, and otherwise leaves it alone. The worker has no say in
what else happens. -/
theorem refreshIn_withFieldWorker (order : List Artifact → List Artifact) (reorders : ∀ list, (order list).Perm list)
    (coordinator : Coordinator) (store : Store) (tree : FileTree) :
    let updates := coordinator.options.extractSources = true ∧ (refreshIn order coordinator store tree).Succeeds
    let fields worker :=
      let result := refreshIn order (coordinator.withFieldWorker worker) store tree
      (result.coordinator.fieldWorker, result.tree)
    ∃ saved, (updates ∧ ∀ worker, fields worker = (worker.update (coordinator.fieldOptions none) saved).2) ∨
      (¬ updates ∧ ∀ worker, fields worker = (worker, saved)) := by
  intro updates fields
  cases begins : begin? coordinator store tree with
  | none =>
    refine ⟨tree, .inr ⟨?_, fun worker => ?_⟩⟩
    · rintro ⟨-, _, reported, -⟩
      rw [refreshIn, begins] at reported
      cases reported
    · simp only [fields, refreshIn, begin?_withFieldWorker, begins]
      rfl
  | some begun =>
    have options : begun.coordinator.options = coordinator.options ∧
        begun.coordinator.fieldOptions = coordinator.fieldOptions := by
      obtain ⟨-, rfl⟩ := begun_of_begin? begins
      exact ⟨rfl, rfl⟩
    let run := begun.consultAll (order begun.remaining)
    have succeeds : updates ↔ (begun.coordinator.options.extractSources && run.finished.any Finished.isSuccess) = true := by
      rw [Bool.and_eq_true, ← succeeds_result_iff begins (reorders _) (consultAll_artifacts begun _),
        ← refreshIn_eq_result begins, options.1]
    let saved := ((committed begun.store begun.skipped run.finished).save.on run.tree).2
    have ran (worker : FieldWorker) : fields worker =
        if begun.coordinator.options.extractSources && run.finished.any Finished.isSuccess then
          (worker.update (coordinator.fieldOptions none) saved).2
        else (worker, saved) := by
      rw [← options.2, ← updateFields_withFieldWorker begun run saved worker]
      simp only [fields, refreshIn, begin?_withFieldWorker, begins]
      rfl
    refine ⟨saved, ?_⟩
    simp only [ran]
    by_cases chosen : updates
    · exact .inl ⟨chosen, fun worker => if_pos (succeeds.1 chosen)⟩
    · exact .inr ⟨chosen, fun worker => if_neg (mt succeeds.2 chosen)⟩

end Concluding

end Refresh

namespace Watch

variable {session : Session} {order : List Artifact → List Artifact} {events : List FileEvent} {work : Pending}
  {tree : FileTree}

def Session.Records (session : Session) (events : List FileEvent) (trigger : Trigger) : Prop :=
  ∃ event ∈ events, event.kind.isChange = true ∧ ∃ path ∈ event.paths, session.targets.classify path = some trigger

def Pending.asks (pending : Pending) : Trigger → Bool
  | .sources => pending.sources
  | .packages => pending.packages

theorem asks_foldl_record (triggers : List Trigger) (pending : Pending) (trigger : Trigger) :
    (triggers.foldl Pending.record pending).asks trigger = true ↔ pending.asks trigger = true ∨ trigger ∈ triggers := by
  induction triggers generalizing pending with
  | nil => simp
  | cons recorded rest ih =>
    rw [List.foldl_cons, ih, List.mem_cons, ← or_assoc]
    refine or_congr_left ?_
    cases recorded <;> cases trigger <;> simp [Pending.record, Pending.asks]

/-- One event asks for nothing more than its paths do. -/
theorem asks_handle (targets : Targets) (pending : Pending) (event : FileEvent) (trigger : Trigger) :
    (targets.handle pending event).asks trigger = true ↔ pending.asks trigger = true ∨
      event.kind.isChange = true ∧ ∃ path ∈ event.paths, targets.classify path = some trigger := by
  unfold Targets.handle
  split
  · rename_i change
    simp only [asks_foldl_record, List.mem_filterMap, change, true_and]
  · rename_i change
    exact (or_iff_left fun asked => change asked.1).symm

theorem asks_foldl_handle (targets : Targets) (events : List FileEvent) (pending : Pending) (trigger : Trigger) :
    (events.foldl targets.handle pending).asks trigger = true ↔ pending.asks trigger = true ∨
      ∃ event ∈ events, event.kind.isChange = true ∧ ∃ path ∈ event.paths, targets.classify path = some trigger := by
  induction events generalizing pending with
  | nil => simp
  | cons event rest ih => rw [List.foldl_cons, ih, asks_handle, List.exists_mem_cons_iff, or_assoc]

/-- What is pending is what the events have asked for. -/
theorem asks_collect (session : Session) (events : List FileEvent) (trigger : Trigger) :
    (session.collect events).asks trigger = true ↔ session.Records events trigger := by
  have nothing : Pending.none.asks trigger = false := by cases trigger <;> rfl
  rw [Session.collect, asks_foldl_handle, nothing]
  simp [Session.Records]

def Session.fieldsAfter (order : List Artifact → List Artifact) (session : Session) (work : Pending) (tree : FileTree)
    (worker : FieldWorker) : FieldWorker × FileTree :=
  let (after, final) :=
    { session with coordinator := session.coordinator.withFieldWorker worker }.respondIn order work tree
  (after.coordinator.fieldWorker, final)

/-- The pause ends with an update of the field index over all sources, whatever the worker for it does. -/
def Session.UpdatesFields (order : List Artifact → List Artifact) (session : Session) (work : Pending) (tree : FileTree) :
    Prop :=
  ∃ middle, ∀ worker, session.fieldsAfter order work tree worker =
    (worker.update (session.coordinator.fieldOptions none) middle).2

def Session.SparesFields (order : List Artifact → List Artifact) (session : Session) (work : Pending) (tree : FileTree) :
    Prop :=
  ∃ final, ∀ worker, session.fieldsAfter order work tree worker = (worker, final)

/-- A process that has something to log and dies of the first request. -/
def dyingWorker : FieldWorker := ⟨.scripted [] 0, some ⟨.scripted [] 0, true, [], none, [⟨.info, ""⟩]⟩, []⟩

theorem not_sparesFields_of_updatesFields (updates : session.UpdatesFields order work tree) :
    ¬ session.SparesFields order work tree := by
  rintro ⟨final, spares⟩
  obtain ⟨middle, updates⟩ := updates
  have same := congrArg Prod.fst ((updates dyingWorker).symm.trans (spares dyingWorker))
  cases same

theorem fieldsAfter_of_packages (asked : work.packages = true) (worker : FieldWorker) :
    session.fieldsAfter order work tree worker =
      let result := Refresh.refreshIn order (session.coordinator.withFieldWorker worker) session.store tree
      (result.coordinator.fieldWorker, result.tree) := by
  rw [Session.fieldsAfter, Session.respondIn, if_pos asked]

theorem fieldsAfter_of_sources (asked : work.sources = true) (alone : work.packages = false) (worker : FieldWorker) :
    session.fieldsAfter order work tree worker = (worker.update (session.coordinator.fieldOptions none) tree).2 := by
  rw [Session.fieldsAfter, Session.respondIn, alone, if_neg Bool.false_ne_true, if_pos asked]
  rfl

/-- A changed source file has the field index updated, unless a package has changed between the same two pauses and the
refresh that is made for it is turned away or has no success. Then the field worker is not asked at all. Either way nothing
stays pending. -/
theorem source_change_updates_fields_iff (session : Session) (events : List FileEvent) (tree : FileTree)
    (order : List Artifact → List Artifact) (reorders : ∀ list, (order list).Perm list)
    (source : session.Records events .sources) :
    let (work, left) := (session.collect events).take
    (session.UpdatesFields order work tree ↔ ¬ session.Records events .packages ∨
      session.coordinator.options.extractSources = true ∧
        (Refresh.refreshIn order session.coordinator session.store tree).Succeeds) ∧
    (session.UpdatesFields order work tree ∨ session.SparesFields order work tree) ∧ left.isEmpty = true := by
  dsimp only [Pending.take]
  have sources : (session.collect events).sources = true := (asks_collect session events .sources).2 source
  rw [← asks_collect session events .packages]
  cases packages : (session.collect events).packages with
  | false =>
    have updates : session.UpdatesFields order (session.collect events) tree := ⟨tree, fieldsAfter_of_sources sources packages⟩
    exact ⟨iff_of_true updates (.inl (by simp [Pending.asks, packages])), .inl updates, rfl⟩
  | true =>
    obtain ⟨saved, ⟨chosen, runs⟩ | ⟨chosen, runs⟩⟩ :=
      Refresh.refreshIn_withFieldWorker order reorders session.coordinator session.store tree
    · have updates : session.UpdatesFields order (session.collect events) tree :=
        ⟨saved, fun worker => (fieldsAfter_of_packages packages worker).trans (runs worker)⟩
      exact ⟨iff_of_true updates (.inr chosen), .inl updates, rfl⟩
    · have spares : session.SparesFields order (session.collect events) tree :=
        ⟨saved, fun worker => (fieldsAfter_of_packages packages worker).trans (runs worker)⟩
      refine ⟨iff_of_false (fun updates => not_sparesFields_of_updatesFields updates spares) ?_, .inr spares, rfl⟩
      rintro (unasked | updates)
      · exact unasked packages
      · exact chosen updates

def bothChange : List FileEvent := [⟨.modify, ["/s/Base/1.0/Customer.al"]⟩, ⟨.create, ["/p/P_A_1.app"]⟩]

def watching : Session :=
  ⟨.new ⟨{}, ["/p"], "/c", "/t", "/s", true, true, "warn"⟩ .requestLoop, .new "/c", 500⟩

theorem failed_package_loses_source_change :
    watching.Records bothChange .sources ∧ ¬ watching.UpdatesFields id (watching.collect bothChange) Refresh.soleFile ∧
      watching.SparesFields id (watching.collect bothChange) Refresh.soleFile := by
  have source : watching.Records bothChange .sources :=
    ⟨_, List.mem_cons_self .., rfl, _, List.mem_singleton_self _, by decide +kernel⟩
  have package : watching.Records bothChange .packages :=
    ⟨_, List.mem_cons_of_mem _ (List.mem_singleton_self _), rfl, _, List.mem_singleton_self _, by decide +kernel⟩
  have reports : (Refresh.refreshIn id watching.coordinator watching.store Refresh.soleFile).report.map
      (fun report => report.artifacts.map Refresh.PackageReport.state) = some [.failed] := by decide +kernel
  obtain ⟨updates, either, -⟩ := source_change_updates_fields_iff watching bothChange Refresh.soleFile id (fun _ => .refl _) source
  have lost : ¬ watching.UpdatesFields id (watching.collect bothChange) Refresh.soleFile := by
    rintro updated
    rcases updates.1 updated with alone | ⟨-, report, reported, item, listed, success⟩
    · exact alone package
    · rw [reported, Option.map_some, Option.some.injEq] at reports
      have state : item.state ∈ [Refresh.PackageState.failed] := reports ▸ List.mem_map.2 ⟨item, listed, rfl⟩
      rw [success, List.mem_singleton] at state
      cases state
  exact ⟨source, lost, either.resolve_left lost⟩

end Watch

end SymbolCache
