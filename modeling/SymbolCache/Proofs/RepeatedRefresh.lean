import Mathlib.Data.List.Pairwise
import SymbolCache.Package.ArchiveWriter
import SymbolCache.Proofs.RefreshRuns

/-! A refresh after a refresh. Where packages share no names, the second one commits what the first one did, from
cached records and from answers that come out the same. -/

namespace SymbolCache.Refresh

open FileTree Worker

variable {store : Store} {skipped artifacts remaining : List Artifact} {finished : List Finished}

private theorem flatMap_agrees {β : Type} {results : Finished → List β}
    (same : ∀ one other, one.Agrees other → results one = results other) {others : List Finished}
    (agrees : List.Forall₂ Finished.Agrees finished others) : finished.flatMap results = others.flatMap results := by
  induction agrees with
  | nil => rfl
  | cons first _ ih => rw [List.flatMap_cons, List.flatMap_cons, same _ _ first, ih]

theorem committed_congr {others : List Finished} (agrees : List.Forall₂ Finished.Agrees finished others) :
    committed store skipped finished = committed store skipped others := by
  have symbols := flatMap_agrees (fun _ _ same => same.symbols) agrees
  have procedures := flatMap_agrees (fun one other same => congrArg Dict.entries same.procedures) agrees
  unfold committed mergedObjects
  rw [symbols, procedures]

theorem name_of_get?_committed {name : String} {record : ObjectRecord}
    (found : (committed store skipped finished).objects.get? name = some record) : record.name = name := by
  rw [committed_objects] at found
  by_cases finds : ∃ item ∈ finished, item.Finds name
  · obtain ⟨item, inside, here⟩ := finds
    obtain ⟨last, other, lastFinds, lastNamed⟩ := exists_last_found inside here
    rw [get?_mergedObjects_of_found lastFinds lastNamed] at found
    cases found
    exact lastNamed.holds
  · rw [get?_mergedObjects_of_absent fun item inside here => finds ⟨item, inside, here⟩] at found
    exact (last_carried_of_get? found).holds.2

theorem get?_carriedOver_of_filed (filed : ∀ key record, store.objects.get? key = some record → record.name = key)
    {name : String} {record : ObjectRecord} (found : store.objects.get? name = some record)
    (carried : Carried skipped record) : (carriedOver store skipped).get? name = some record := by
  have inside := Dict.mem_values_iff.2 ⟨name, found⟩
  obtain ⟨last, isLast⟩ := LastWith.exists_of_mem (fun candidate => Carried skipped candidate ∧ candidate.name = name)
    inside ⟨carried, filed name record found⟩
  obtain ⟨key, stored⟩ := Dict.mem_values_iff.1 isLast.mem
  obtain rfl : key = name := (filed key last stored).symm.trans isLast.holds.2
  obtain rfl : last = record := Option.some.inj (stored.symm.trans found)
  exact get?_carriedOver isLast

theorem get?_of_get?_carriedOver (filed : ∀ key record, store.objects.get? key = some record → record.name = key)
    {name : String} {record : ObjectRecord} (found : (carriedOver store skipped).get? name = some record) :
    store.objects.get? name = some record := by
  have last := last_carried_of_get? found
  obtain ⟨key, stored⟩ := Dict.mem_values_iff.1 last.mem
  obtain rfl : key = name := (filed key record stored).symm.trans last.holds.2
  exact stored

section Separate

variable {answers : Artifact → Finished}
  (separate : artifacts.Pairwise fun one other => Separate (answers one) (answers other))

include separate

private theorem separate_of_ne {one other : Artifact} (inside : one ∈ artifacts) (inside' : other ∈ artifacts)
    (differs : one ≠ other) : Separate (answers one) (answers other) := by
  have symmetric : Std.Symm fun one other => Separate (answers one) (answers other) :=
    ⟨fun _ _ apart => ⟨fun name both => apart.1 name both.symm, fun key both => apart.2 key both.symm⟩⟩
  exact separate.forall inside inside' differs

theorem eq_of_finds {one other : Artifact} (inside : one ∈ artifacts) (inside' : other ∈ artifacts) {name : String}
    (finds : (answers one).Finds name) (finds' : (answers other).Finds name) : one = other := by
  by_contra differs
  exact (separate_of_ne separate inside inside' differs).1 name ⟨finds, finds'⟩

theorem eq_of_carries {one other : Artifact} (inside : one ∈ artifacts) (inside' : other ∈ artifacts) {key : String}
    (carries : (answers one).Carries key) (carries' : (answers other).Carries key) : one = other := by
  by_contra differs
  exact (separate_of_ne separate inside inside' differs).2 key ⟨carries, carries'⟩

theorem get?_committed_of_finds (known : remaining ⊆ artifacts) {artifact : Artifact} (inside : artifact ∈ remaining)
    {name : String} {record : ObjectRecord}
    (last : LastWith (fun candidate => candidate.name = name) (answers artifact).symbols record) :
    (committed store skipped (remaining.map answers)).objects.get? name = some record := by
  have finds : (answers artifact).Finds name := Finished.finds_iff.2 ⟨record, last.mem, last.holds⟩
  obtain ⟨item, isLast⟩ := LastWith.exists_of_mem (fun candidate : Finished => candidate.Finds name)
    (List.mem_map_of_mem inside) finds
  obtain ⟨origin, member, rfl⟩ := List.mem_map.1 isLast.mem
  obtain rfl := eq_of_finds separate (known member) (known inside) isLast.holds finds
  exact get?_mergedObjects_of_found isLast last

theorem get?_procedures_of_carries (known : remaining ⊆ artifacts) {artifact : Artifact} (inside : artifact ∈ remaining)
    {key : String} (carries : (answers artifact).Carries key) :
    (committed store skipped (remaining.map answers)).procedures.get? key = (answers artifact).procedures.get? key := by
  obtain ⟨item, isLast⟩ := LastWith.exists_of_mem (fun candidate : Finished => candidate.Carries key)
    (List.mem_map_of_mem inside) carries
  obtain ⟨origin, member, rfl⟩ := List.mem_map.1 isLast.mem
  obtain rfl := eq_of_carries separate (known member) (known inside) isLast.holds carries
  exact get?_procedures_of_carried isLast

variable {dir : Path} (filled : store = committed (.new dir) [] (artifacts.map answers)) (known : remaining ⊆ artifacts)

include filled known

/-- Some packages skipped and the others processed again make up the same objects. -/
theorem objects_of_repeated (parts : ∀ artifact ∈ artifacts, artifact ∈ skipped ∨ artifact ∈ remaining)
    (stamped : ∀ artifact, ∀ record ∈ (answers artifact).symbols, record.app = some artifact.fileName) :
    (committed store skipped (remaining.map answers)).objects = store.objects := by
  subst filled
  have filed : ∀ key record, (committed (.new dir) [] (artifacts.map answers)).objects.get? key = some record →
      record.name = key := fun key record found => name_of_get?_committed found
  refine Dict.ext_get? fun name => ?_
  by_cases finds : ∃ artifact ∈ artifacts, (answers artifact).Finds name
  · obtain ⟨artifact, inside, here⟩ := finds
    obtain ⟨candidate, reported, named⟩ := Finished.finds_iff.1 here
    obtain ⟨record, last⟩ := LastWith.exists_of_mem (fun candidate => candidate.name = name) reported named
    have before : (committed (.new dir) [] (artifacts.map answers)).objects.get? name = some record :=
      get?_committed_of_finds separate (List.Subset.refl _) inside last
    rw [before]
    by_cases again : artifact ∈ remaining
    · exact get?_committed_of_finds separate known again last
    · -- The name belongs to a skipped package, so none of the others has it.
      have chosen := (parts artifact inside).resolve_right again
      rw [committed_objects, get?_mergedObjects_of_absent]
      · exact get?_carriedOver_of_filed filed before ⟨artifact, chosen, stamped artifact record last.mem⟩
      · intro item member found
        obtain ⟨other, processed, rfl⟩ := List.mem_map.1 member
        exact again (eq_of_finds separate (known processed) inside found here ▸ processed)
  · have absent : ∀ items ⊆ artifacts, ∀ item ∈ items.map answers, ¬ item.Finds name := by
      intro items within item member found
      obtain ⟨other, processed, rfl⟩ := List.mem_map.1 member
      exact finds ⟨other, within processed, found⟩
    have before : (committed (.new dir) [] (artifacts.map answers)).objects.get? name = none := by
      rw [committed_objects, get?_mergedObjects_of_absent (absent artifacts (List.Subset.refl _))]
      exact get?_carriedOver_eq_none nofun
    rw [before, committed_objects, get?_mergedObjects_of_absent (absent remaining known)]
    cases carried : (carriedOver (committed (.new dir) [] (artifacts.map answers)) skipped).get? name with
    | none => rfl
    | some record =>
      rw [get?_of_get?_carriedOver filed carried] at before
      cases before

theorem procedures_of_repeated : (committed store skipped (remaining.map answers)).procedures = store.procedures := by
  subst filled
  refine Dict.ext_get? fun key => ?_
  by_cases carries : ∃ artifact ∈ remaining, (answers artifact).Carries key
  · obtain ⟨artifact, inside, here⟩ := carries
    rw [get?_procedures_of_carries separate known inside here,
      get?_procedures_of_carries separate (List.Subset.refl _) (known inside) here]
  · refine get?_procedures_of_absent ?_
    intro item member here
    obtain ⟨artifact, inside, rfl⟩ := List.mem_map.1 member
    exact carries ⟨artifact, inside, here⟩

end Separate

section Twice

variable {coordinator : Coordinator} {tree : FileTree} {order : List Artifact → List Artifact}

theorem Finished.Agrees.trans {one other third : Finished} (first : one.Agrees other) (second : other.Agrees third) :
    one.Agrees third :=
  ⟨first.artifact.trans second.artifact, first.symbols.trans second.symbols, first.procedures.trans second.procedures⟩

theorem isSkipped_new (options : Options) (dir : Path) (tree : FileTree) (artifact : Artifact) :
    isSkipped options (.new dir) tree artifact = false := by
  simp [isSkipped, Store.new, Dict.values, Dict.empty]

theorem skippedOf_new (options : Options) (dir : Path) (tree : FileTree) : skippedOf options (.new dir) tree = [] := by
  simp [skippedOf, isSkipped_new]

theorem remainingOf_new (options : Options) (dir : Path) (tree : FileTree) :
    remainingOf options (.new dir) tree = discovered options tree := by
  simp [remainingOf, isSkipped_new]

/-- Answers in the order of completion commit the same as in the order of the packages. -/
theorem committed_answers {answers : Artifact → Finished}
    (separate : artifacts.Pairwise fun one other => Separate (answers one) (answers other))
    (reorders : ∀ list, (order list).Perm list) (agrees : List.Forall₂ Finished.Agrees finished ((order artifacts).map answers)) :
    committed store skipped finished = committed store skipped (artifacts.map answers) := by
  rw [committed_congr agrees]
  exact committed_perm ((reorders artifacts).map answers) (List.pairwise_map.2 separate)

private theorem exists_agreed {others : List Finished} (agrees : List.Forall₂ Finished.Agrees finished others)
    {item : Finished} (inside : item ∈ finished) : ∃ other ∈ others, item.Agrees other := by
  induction agrees with
  | nil => cases inside
  | @cons one other _ _ same _ ih =>
    rcases List.mem_cons.1 inside with rfl | later
    · exact ⟨other, List.mem_cons_self .., same⟩
    · obtain ⟨found, member, agreed⟩ := ih later
      exact ⟨found, List.mem_cons_of_mem _ member, agreed⟩

private theorem agrees_map {answers answers' : Artifact → Finished}
    (agrees : List.Forall₂ Finished.Agrees finished (artifacts.map answers))
    (same : ∀ artifact ∈ artifacts, (answers artifact).Agrees (answers' artifact)) :
    List.Forall₂ Finished.Agrees finished (artifacts.map answers') := by
  rw [List.forall₂_map_right_iff] at agrees ⊢
  induction agrees with
  | nil => exact .nil
  | cons first _ ih =>
    exact .cons (first.trans (same _ (List.mem_cons_self ..))) (ih fun other inside => same other (List.mem_cons_of_mem _ inside))

theorem objects_of_succeeded {answers : Artifact → Finished} (itself : ∀ artifact, (answers artifact).artifact = artifact)
    (agrees : List.Forall₂ Finished.Agrees finished (artifacts.map answers)) {artifact : Artifact}
    (succeeded : (reportOf [] finished artifact).state = .succeeded) :
    (reportOf [] finished artifact).objects = (answers artifact).symbols.length := by
  unfold reportOf at succeeded ⊢
  rw [if_neg (by simp)] at succeeded ⊢
  cases found : finished.find? fun item => item.artifact = artifact with
  | none =>
    rw [found] at succeeded
    cases succeeded
  | some item =>
    rw [found] at succeeded
    simp only at succeeded ⊢
    have same : item.artifact = artifact := by simpa using List.find?_some found
    obtain ⟨other, inside, agreement⟩ := exists_agreed agrees (List.mem_of_find?_eq_some found)
    obtain ⟨origin, -, rfl⟩ := List.mem_map.1 inside
    obtain rfl : origin = artifact := (itself origin).symm.trans (agreement.artifact.symm.trans same)
    rw [← agreement.symbols]
    unfold Finished.report at succeeded ⊢
    unfold Finished.symbols
    cases outcome : item.outcome with
    | succeeded symbols procedures => rfl
    | failed message benign =>
      rw [outcome] at succeeded
      cases succeeded

/-- A package that succeeded with some objects has one of its own in the cache. -/
theorem exists_cached_of_succeeded {answers : Artifact → Finished} {dir : Path}
    (itself : ∀ artifact, (answers artifact).artifact = artifact)
    (separate : artifacts.Pairwise fun one other => Separate (answers one) (answers other))
    (agrees : List.Forall₂ Finished.Agrees finished ((order artifacts).map answers))
    (commits : store = committed (.new dir) [] (artifacts.map answers)) {artifact : Artifact} (inside : artifact ∈ artifacts)
    (succeeded : (reportOf [] finished artifact).state = .succeeded) (counted : 0 < (reportOf [] finished artifact).objects) :
    ∃ name record, store.objects.get? name = some record ∧ record ∈ (answers artifact).symbols := by
  rw [objects_of_succeeded itself agrees succeeded] at counted
  obtain ⟨record, reports⟩ := List.exists_mem_of_length_pos counted
  obtain ⟨last, isLast⟩ := LastWith.exists_of_mem (fun candidate => candidate.name = record.name) reports rfl
  refine ⟨record.name, last, ?_, isLast.mem⟩
  rw [commits]
  exact get?_committed_of_finds separate (List.Subset.refl _) inside isLast

theorem state_of_mem_skipped {artifact : Artifact} (chosen : artifact ∈ skipped) {report : PackageReport}
    (inside : report ∈ artifacts.map (reportOf skipped finished)) (same : report.artifact = artifact) :
    report.state = .skipped := by
  obtain ⟨other, -, rfl⟩ := List.mem_map.1 inside
  rw [artifact_reportOf] at same
  subst same
  unfold reportOf
  rw [if_pos (List.contains_iff_mem.2 chosen)]

/-- A package with a cached object and with sources is skipped. -/
theorem isSkipped_of_sources {options : Options} (extracts : options.extractSources = true) (sound : tree.Sound)
    (straight : Path.Straight options.sourceDir) {artifact : Artifact} {name : String} {record : ObjectRecord}
    (cached : store.objects.get? name = some record) (stamped : record.app = some artifact.fileName)
    (holds : tree.HoldsSource (artifact.sourceDir options.sourceDir)) : isSkipped options store tree artifact = true := by
  have sources := holds.any_isSourceFile sound (Package.straight_sourceDir straight artifact).1
  have known : (store.objects.values.any fun record => record.app == some artifact.fileName) = true :=
    List.any_eq_true.2 ⟨record, Dict.mem_values_iff.2 ⟨name, cached⟩, by simpa using stamped⟩
  rw [isSkipped, extracts, known, Bool.true_and, Bool.true_and, Package.hasSources]
  exact sources

end Twice

section Repeating

variable {coordinator : Coordinator} {tree : FileTree} {firstOrder secondOrder : List Artifact → List Artifact}

/-- Where no two packages have an object name or a procedure key in common, a second refresh commits the objects and
procedures of the first, and skips every package that was found to have objects and told of a copied source. -/
theorem second_refresh_repeats (separated : coordinator.options.Separated)
    (extracts : coordinator.options.extractSources = true) (loops : coordinator.program = .requestLoop)
    (idle : coordinator.running = false) (sound : tree.Sound) (reorders : ∀ list, (firstOrder list).Perm list)
    (reorders' : ∀ list, (secondOrder list).Perm list)
    (separate : (discovered coordinator.options tree).Pairwise fun one other =>
      Separate (answer coordinator tree one) (answer coordinator tree other)) :
    let first := refreshIn firstOrder coordinator (.new coordinator.options.cacheDir) tree
    let second := refreshIn secondOrder first.coordinator first.store first.tree
    second.store.objects = first.store.objects ∧ second.store.procedures = first.store.procedures ∧
      ∃ firstReport secondReport, first.report = some firstReport ∧ second.report = some secondReport ∧
        ∀ item ∈ firstReport.artifacts, item.state = .succeeded → 0 < item.objects →
          (∃ relative, copyEvent item.artifact relative ∈ first.events) →
          (∃ again ∈ secondReport.artifacts, again.artifact = item.artifact) ∧
          ∀ again ∈ secondReport.artifacts, again.artifact = item.artifact → again.state = .skipped := by
  intro first second
  obtain ⟨finished, course⟩ := @refreshIn_course coordinator (.new coordinator.options.cacheDir) tree firstOrder separated
    loops idle rfl sound reorders
  have resumes := course.resumes
  have agrees := course.agrees
  have commits := course.commits
  obtain ⟨report, reported, items⟩ := course.reports
  rw [skippedOf_new] at commits items
  rw [remainingOf_new] at agrees
  rw [committed_answers separate reorders agrees] at commits
  have located : first.store.dir = first.coordinator.options.cacheDir := by
    rw [resumes.options, commits]
    rfl
  obtain ⟨finished', course'⟩ := @refreshIn_course first.coordinator first.store first.tree secondOrder
    (resumes.options ▸ separated) (resumes.program.trans loops) resumes.idle located course.works.sound reorders'
  obtain ⟨report', reported', items'⟩ := course'.reports
  have folders : discovered first.coordinator.options first.tree = discovered coordinator.options tree := by
    rw [resumes.options]
    exact (discovered_congr separated sound course.works).symm
  have known : remainingOf first.coordinator.options first.store first.tree ⊆ discovered coordinator.options tree := by
    rw [← folders]
    exact fun _ inside => (List.mem_filter.1 inside).1
  have agrees' : List.Forall₂ Finished.Agrees finished'
      ((secondOrder (remainingOf first.coordinator.options first.store first.tree)).map (answer coordinator tree)) := by
    refine agrees_map course'.agrees fun artifact inside => ?_
    rw [resumes.answer_eq]
    exact answer_agrees separated loops sound course.works (known ((reorders' _).subset inside))
  have apart := (folders ▸ separate).filter (p := fun artifact =>
    !isSkipped first.coordinator.options first.store first.tree artifact)
  have commits' : second.store = committed first.store (skippedOf first.coordinator.options first.store first.tree)
      ((remainingOf first.coordinator.options first.store first.tree).map (answer coordinator tree)) :=
    course'.commits.trans (committed_answers apart reorders' agrees')
  have parts : ∀ artifact ∈ discovered coordinator.options tree,
      artifact ∈ skippedOf first.coordinator.options first.store first.tree ∨
        artifact ∈ remainingOf first.coordinator.options first.store first.tree := by
    intro artifact inside
    exact mem_skippedOf_or_remainingOf (folders ▸ inside) first.store
  have stamped : ∀ artifact, ∀ record ∈ (answer coordinator tree artifact).symbols,
      record.app = some artifact.fileName := fun artifact record => app_of_mem_answer loops
  refine ⟨?_, ?_, report, report', reported, reported', ?_⟩
  · rw [commits']
    exact objects_of_repeated separate commits known parts stamped
  · rw [commits']
    exact procedures_of_repeated separate commits known
  · intro item inside succeeded counted ⟨relative, told⟩
    rw [items] at inside
    obtain ⟨artifact, member, rfl⟩ := List.mem_map.1 inside
    obtain ⟨name, record, cached, reports⟩ := exists_cached_of_succeeded (fun _ => rfl) separate agrees commits member
      succeeded counted
    have made := Package.ofPath?_of_mem_discover sound member
    rw [artifact_reportOf] at told ⊢
    have skips := isSkipped_of_sources extracts course.works.sound separated.sources cached
      (stamped artifact record reports) (course.backed artifact relative told made)
    have chosen : artifact ∈ skippedOf first.coordinator.options first.store first.tree := by
      rw [skippedOf, List.mem_filter, folders, resumes.options]
      exact ⟨member, skips⟩
    rw [items', folders]
    exact ⟨⟨_, List.mem_map_of_mem member, artifact_reportOf ..⟩, fun again => state_of_mem_skipped chosen⟩

end Repeating

def onePackage : FileTree :=
  ⟨[(["p"], .directory), (["p", "P_A_1.app"],
    .file (Archive.render [.stored "src/A.al" (Text.encodeUtf8 "table 1 A { }".toList)]) 1000)], [], 5000⟩

def plainOptions : Options :=
  { packages := {}, packageDirs := ["/p"], cacheDir := "/c", scratchDir := "/t", sourceDir := "/s"
    extractSources := true, extractProcedures := true, logLevel := "warn" }

theorem second_refresh_skips_package :
    let coordinator := Coordinator.new plainOptions .requestLoop
    let first := refreshIn id coordinator (.new coordinator.options.cacheDir) onePackage
    let second := refreshIn id first.coordinator first.store first.tree
    plainOptions.Separated ∧ onePackage.Sound ∧ first.store.objects.contains "A" = true ∧
      second.store.objects = first.store.objects ∧ second.store.procedures = first.store.procedures ∧
      ∃ report, second.report = some report ∧ ∃ item ∈ report.artifacts, item.artifact.fileName = "P_A_1.app" ∧
        item.state = .skipped := by
  have separated : plainOptions.Separated := by decide +kernel
  have sound : onePackage.Sound := by decide +kernel
  have found : discovered plainOptions onePackage = [⟨"/p/P_A_1.app", "A", "1", true⟩] := by decide +kernel
  have repeats := @second_refresh_repeats (.new plainOptions .requestLoop) onePackage id id separated rfl rfl rfl sound
    (fun _ => .refl _) (fun _ => .refl _) (found ▸ List.pairwise_singleton ..)
  have succeeds : ∃ first, first = refreshIn id (.new plainOptions .requestLoop) (.new plainOptions.cacheDir) onePackage ∧
      first.store.objects.contains "A" = true ∧
      first.report.map Report.artifacts = some [⟨⟨"/p/P_A_1.app", "A", "1", true⟩, .succeeded, none, false, 1⟩] ∧
      copyEvent ⟨"/p/P_A_1.app", "A", "1", true⟩ "A.al" ∈ first.events := by
    refine ⟨_, rfl, ?_⟩
    decide +kernel
  obtain ⟨first, same, filled, reports, told⟩ := succeeds
  dsimp only at repeats ⊢
  change _ = refreshIn id (.new plainOptions .requestLoop) (.new (Coordinator.new plainOptions .requestLoop).options.cacheDir) onePackage at same
  rw [← same] at repeats ⊢
  obtain ⟨objects, procedures, firstReport, secondReport, reported, reported', skips⟩ := repeats
  rw [reported, Option.map_some, Option.some.injEq] at reports
  obtain ⟨⟨again, inside, same⟩, skipped⟩ := skips _ (reports ▸ List.mem_singleton_self _) rfl Nat.one_pos ⟨_, told⟩
  have named : again.artifact.fileName = "P_A_1.app" := by
    rw [same]
    decide +kernel
  exact ⟨separated, sound, filled, objects, procedures, secondReport, reported', again, inside, named,
    skipped again inside same⟩

/-- A package folder named by a detour through a directory that the first refresh makes. -/
def detourOptions : Options := { plainOptions with packageDirs := ["/m/../p"], cacheDir := "/m/c" }

/-- Only the second refresh finds the package, though nobody else has touched the files. -/
theorem second_refresh_finds_more :
    let first := refreshIn id (.new detourOptions .requestLoop) (.new detourOptions.cacheDir) onePackage
    let second := refreshIn id first.coordinator first.store first.tree
    (onePackage.Sound ∧ (∀ dir ∈ detourOptions.packageDirs,
      ∀ other ∈ [detourOptions.cacheDir, detourOptions.scratchDir, detourOptions.sourceDir],
        Apart (Path.steps dir) (Path.steps other)) ∧ detourOptions.extractSources = true ∧
      discovered detourOptions onePackage = []) ∧
    first.store.objects.contains "A" = false ∧ second.store.objects.contains "A" = true := by
  decide +kernel

end SymbolCache.Refresh
