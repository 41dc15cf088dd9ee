import SymbolCache.Proofs.RepeatedRefresh

/-! The names in the cache after refreshes of package folders that change. A package whose objects are cached in part
is skipped, so a name can be missing that another package declared as well; names that only one package declares are
never lost, and no name stays that none declares. -/

namespace SymbolCache.Refresh

open FileTree Worker

/-- What the packages of each file name declare is what a refresh of these files finds in them. A package that cannot
be read declares nothing. -/
structure Steady (coordinator : Coordinator) (declares : String → String → Prop) (tree : FileTree) : Prop where
  sound : tree.Sound
  finds : ∀ artifact ∈ discovered coordinator.options tree, ∀ name,
    (answer coordinator tree artifact).Finds name ↔ declares artifact.fileName name

/-- Refreshes one after the other, from an empty store on. The files may change in any way before each; the list has
them as each refresh found them, the last one first. -/
inductive Refreshed (coordinator : Coordinator) (declares : String → String → Prop) :
    List FileTree → Coordinator → Store → Prop where
  | start : Refreshed coordinator declares [] coordinator (.new coordinator.options.cacheDir)
  | next {trees : List FileTree} {started : Coordinator} {store : Store} {tree : FileTree}
    {order : List Artifact → List Artifact} (earlier : Refreshed coordinator declares trees started store)
    (steady : Steady coordinator declares tree) (reorders : ∀ list, (order list).Perm list) :
    Refreshed coordinator declares (tree :: trees) (refreshIn order started store tree).coordinator
      (refreshIn order started store tree).store

def Declared (coordinator : Coordinator) (declares : String → String → Prop) (tree : FileTree) (name : String) : Prop :=
  ∃ artifact ∈ discovered coordinator.options tree, declares artifact.fileName name

def Sole (coordinator : Coordinator) (declares : String → String → Prop) (tree : FileTree) (name : String) : Prop :=
  ∀ one ∈ discovered coordinator.options tree, ∀ other ∈ discovered coordinator.options tree,
    declares one.fileName name → declares other.fileName name → one.fileName = other.fileName

def Holds (store : Store) (name file : String) : Prop :=
  ∃ record, store.objects.get? name = some record ∧ record.app = some file

structure Attributed (declares : String → String → Prop) (store : Store) : Prop where
  filed : ∀ key record, store.objects.get? key = some record → record.name = key
  declared : ∀ key record, store.objects.get? key = some record → ∃ file, record.app = some file ∧ declares file key

/-- A package of which anything is cached has this name cached too, if it declares it. -/
def Whole (declares : String → String → Prop) (store : Store) (name : String) : Prop :=
  ∀ key file, Holds store key file → declares file name → Holds store name file

section Merging

variable {coordinator : Coordinator} {declares : String → String → Prop} {tree : FileTree} {store : Store}
  {skipped processed : List Artifact} {name : String}

theorem record_of_get?_committed (loops : coordinator.program = .requestLoop)
    (filed : ∀ key record, store.objects.get? key = some record → record.name = key) {record : ObjectRecord}
    (found : (committed store skipped (processed.map (answer coordinator tree))).objects.get? name = some record) :
    (∃ artifact ∈ processed, record.app = some artifact.fileName ∧ (answer coordinator tree artifact).Finds name) ∨
      store.objects.get? name = some record ∧ Carried skipped record := by
  rw [committed_objects] at found
  by_cases finds : ∃ item ∈ processed.map (answer coordinator tree), item.Finds name
  · obtain ⟨item, inside, here⟩ := finds
    obtain ⟨last, other, lastFinds, lastNamed⟩ := exists_last_found inside here
    rw [get?_mergedObjects_of_found lastFinds lastNamed] at found
    cases found
    obtain ⟨artifact, member, rfl⟩ := List.mem_map.1 lastFinds.mem
    exact .inl ⟨artifact, member, app_of_mem_answer loops lastNamed.mem, lastFinds.holds⟩
  · rw [get?_mergedObjects_of_absent fun item inside here => finds ⟨item, inside, here⟩] at found
    exact .inr ⟨get?_of_get?_carriedOver filed found, (last_carried_of_get? found).holds.1⟩

variable (loops : coordinator.program = .requestLoop) (steady : Steady coordinator declares tree)
  (attributed : Attributed declares store) (known : ∀ artifact ∈ processed, artifact ∈ discovered coordinator.options tree)
  (chosen : ∀ artifact ∈ skipped, artifact ∈ discovered coordinator.options tree)

include loops steady attributed known chosen

theorem present_of_committed {record : ObjectRecord}
    (found : (committed store skipped (processed.map (answer coordinator tree))).objects.get? name = some record) :
    ∃ artifact ∈ discovered coordinator.options tree, record.app = some artifact.fileName ∧
      declares artifact.fileName name := by
  rcases record_of_get?_committed loops attributed.filed found with ⟨artifact, inside, stamped, finds⟩ | ⟨stored, carried⟩
  · exact ⟨artifact, known artifact inside, stamped, (steady.finds artifact (known artifact inside) name).1 finds⟩
  · obtain ⟨artifact, inside, stamped⟩ := carried
    obtain ⟨file, stamped', declared⟩ := attributed.declared name record stored
    obtain rfl : file = artifact.fileName := Option.some.inj (stamped'.symm.trans stamped)
    exact ⟨artifact, chosen artifact inside, stamped, declared⟩

theorem attributed_committed : Attributed declares (committed store skipped (processed.map (answer coordinator tree))) where
  filed _ _ found := name_of_get?_committed found
  declared key record found := by
    obtain ⟨artifact, -, stamped, declared⟩ := present_of_committed loops steady attributed known chosen found
    exact ⟨artifact.fileName, stamped, declared⟩

/-- A refresh that skips only packages of which something is cached commits what the others declare, and what a
skipped one alone declares. -/
theorem holds_committed (sole : Sole coordinator declares tree name) (whole : Whole declares store name)
    (cached : ∀ artifact ∈ skipped, ∃ key, Holds store key artifact.fileName) {artifact : Artifact}
    (member : artifact ∈ skipped ∨ artifact ∈ processed) (declared : declares artifact.fileName name) :
    Holds (committed store skipped (processed.map (answer coordinator tree))) name artifact.fileName := by
  have inside : artifact ∈ discovered coordinator.options tree := member.elim (chosen artifact) (known artifact)
  have present : ∃ record, (committed store skipped (processed.map (answer coordinator tree))).objects.get? name =
      some record := by
    by_cases finds : ∃ item ∈ processed.map (answer coordinator tree), item.Finds name
    · obtain ⟨item, processed, here⟩ := finds
      obtain ⟨last, record, lastFinds, lastNamed⟩ := exists_last_found processed here
      exact ⟨record, get?_mergedObjects_of_found lastFinds lastNamed⟩
    · -- No package that is processed has the name, so this one is skipped and has its record carried over.
      rcases member with skips | processes
      · obtain ⟨key, some⟩ := cached artifact skips
        obtain ⟨record, stored, stamped⟩ := whole key artifact.fileName some declared
        rw [committed_objects, get?_mergedObjects_of_absent fun item inside here => finds ⟨item, inside, here⟩]
        exact ⟨record, get?_carriedOver_of_filed attributed.filed stored ⟨artifact, skips, stamped⟩⟩
      · exact absurd ⟨_, List.mem_map_of_mem processes, (steady.finds artifact inside name).2 declared⟩ finds
  obtain ⟨record, found⟩ := present
  obtain ⟨other, there, stamped, declared'⟩ := present_of_committed loops steady attributed known chosen found
  exact ⟨record, found, stamped.trans (congrArg some (sole other there artifact inside declared' declared))⟩

end Merging

section Histories

variable {coordinator started : Coordinator} {declares : String → String → Prop} {trees : List FileTree} {store : Store}
  {tree : FileTree} {order : List Artifact → List Artifact}

theorem holds_of_mem_skippedOf {options : Options} {artifact : Artifact} (skips : artifact ∈ skippedOf options store tree) :
    ∃ key, Holds store key artifact.fileName := by
  have test := (List.mem_filter.1 skips).2
  simp only [isSkipped, Bool.and_eq_true, List.any_eq_true, beq_iff_eq] at test
  obtain ⟨⟨-, record, inside, stamped⟩, -⟩ := test
  obtain ⟨key, stored⟩ := Dict.mem_values_iff.1 inside
  exact ⟨key, record, stored, stamped⟩

theorem Coordinator.Resumes.trans {first second third : Coordinator} (earlier : first.Resumes second)
    (later : second.Resumes third) : first.Resumes third :=
  ⟨later.options.trans earlier.options, later.program.trans earlier.program, later.logLevel.trans earlier.logLevel,
    later.idle⟩

/-- What holds between the refreshes of a history. -/
structure Accounted (coordinator : Coordinator) (declares : String → String → Prop) (trees : List FileTree)
    (started : Coordinator) (store : Store) : Prop where
  resumes : coordinator.Resumes started
  located : store.dir = coordinator.options.cacheDir
  attributed : Attributed declares store
  whole : ∀ name, (∀ tree ∈ trees, Sole coordinator declares tree name) → Whole declares store name

variable (separated : coordinator.options.Separated) (loops : coordinator.program = .requestLoop)

def answersOf (coordinator : Coordinator) (order : List Artifact → List Artifact) (store : Store) (tree : FileTree) :
    List Finished :=
  (order (remainingOf coordinator.options store tree)).map (answer coordinator tree)

include separated loops

theorem refreshIn_answers (accounted : Accounted coordinator declares trees started store)
    (steady : Steady coordinator declares tree) (reorders : ∀ list, (order list).Perm list) :
    coordinator.Resumes (refreshIn order started store tree).coordinator ∧
      (refreshIn order started store tree).store =
        committed store (skippedOf coordinator.options store tree) (answersOf coordinator order store tree) := by
  have resumes := accounted.resumes
  obtain ⟨finished, course⟩ := @refreshIn_course started store tree order (resumes.options ▸ separated)
    (resumes.program.trans loops) resumes.idle (accounted.located.trans (by rw [resumes.options])) steady.sound reorders
  refine ⟨resumes.trans course.resumes, ?_⟩
  rw [course.commits, committed_congr course.agrees, resumes.answer_eq, resumes.options, answersOf]

/-- What a refresh commits comes from packages that are there, and has every name that one of them alone declares. -/
theorem holds_refreshIn (accounted : Accounted coordinator declares trees started store)
    (steady : Steady coordinator declares tree) (reorders : ∀ list, (order list).Perm list) :
    Attributed declares (refreshIn order started store tree).store ∧
      (∀ key file, Holds (refreshIn order started store tree).store key file →
        ∃ artifact ∈ discovered coordinator.options tree, artifact.fileName = file ∧ declares file key) ∧
      ∀ name, Sole coordinator declares tree name → Whole declares store name →
        ∀ artifact ∈ discovered coordinator.options tree, declares artifact.fileName name →
          Holds (refreshIn order started store tree).store name artifact.fileName := by
  rw [(refreshIn_answers separated loops accounted steady reorders).2]
  have known : ∀ artifact ∈ order (remainingOf coordinator.options store tree),
      artifact ∈ discovered coordinator.options tree := fun artifact inside =>
    (List.mem_filter.1 ((reorders _).subset inside)).1
  have chosen : ∀ artifact ∈ skippedOf coordinator.options store tree,
      artifact ∈ discovered coordinator.options tree := fun artifact inside => (List.mem_filter.1 inside).1
  refine ⟨attributed_committed loops steady accounted.attributed known chosen, ?_, ?_⟩
  · rintro key file ⟨record, found, stamped⟩
    obtain ⟨artifact, inside, stamped', declared⟩ :=
      present_of_committed loops steady accounted.attributed known chosen found
    obtain rfl : file = artifact.fileName := Option.some.inj (stamped.symm.trans stamped')
    exact ⟨artifact, inside, rfl, declared⟩
  · intro name sole whole artifact inside declared
    have member := (mem_skippedOf_or_remainingOf inside store).imp_right fun rest =>
      (reorders _).symm.subset rest
    exact holds_committed loops steady accounted.attributed known chosen sole whole
      (fun _ skips => holds_of_mem_skippedOf skips) member declared

theorem Accounted.next (accounted : Accounted coordinator declares trees started store)
    (steady : Steady coordinator declares tree) (reorders : ∀ list, (order list).Perm list) :
    Accounted coordinator declares (tree :: trees) (refreshIn order started store tree).coordinator
      (refreshIn order started store tree).store := by
  obtain ⟨resumes, commits⟩ := refreshIn_answers separated loops accounted steady reorders
  obtain ⟨attributed, present, holds⟩ := holds_refreshIn separated loops accounted steady reorders
  refine ⟨resumes, ?_, attributed, ?_⟩
  · rw [commits]
    exact accounted.located
  · intro name sole key file cached declared
    obtain ⟨artifact, inside, rfl, -⟩ := present key file cached
    exact holds name (sole tree (List.mem_cons_self ..))
      (accounted.whole name fun past inside => sole past (List.mem_cons_of_mem _ inside)) artifact inside declared

theorem Refreshed.accounted (idle : coordinator.running = false)
    (history : Refreshed coordinator declares trees started store) :
    Accounted coordinator declares trees started store := by
  induction history with
  | start => exact ⟨⟨rfl, rfl, rfl, idle⟩, rfl, ⟨nofun, nofun⟩, fun name sole key file ⟨record, found, _⟩ => nomatch found⟩
  | next earlier steady reorders ih => exact ih.next separated loops steady reorders

omit separated loops in
theorem contains_iff_holds (attributed : Attributed declares store) {name : String} :
    store.objects.contains name = true ↔ ∃ file, Holds store name file := by
  rw [Dict.contains_iff]
  constructor
  · intro ⟨record, found⟩
    obtain ⟨file, stamped, -⟩ := attributed.declared name record found
    exact ⟨file, record, found, stamped⟩
  · intro ⟨file, record, found, stamped⟩
    exact ⟨record, found⟩

theorem contains_refreshIn_new (idle : coordinator.running = false) (steady : Steady coordinator declares tree)
    (reorders : ∀ list, (order list).Perm list) {name : String} :
    (refreshIn order coordinator (.new coordinator.options.cacheDir) tree).store.objects.contains name = true ↔
      Declared coordinator declares tree name := by
  have start := Refreshed.accounted separated loops idle (.start : Refreshed coordinator declares _ _ _)
  rw [(refreshIn_answers separated loops start steady reorders).2, committed_objects, contains_mergedObjects, answersOf,
    skippedOf_new, remainingOf_new]
  constructor
  · rintro (⟨item, inside, finds⟩ | ⟨record, -, ⟨artifact, none, -⟩, -⟩)
    · obtain ⟨artifact, member, rfl⟩ := List.mem_map.1 inside
      have present := (reorders _).subset member
      exact ⟨artifact, present, (steady.finds artifact present name).1 finds⟩
    · cases none
  · intro ⟨artifact, present, declared⟩
    exact .inl ⟨_, List.mem_map_of_mem ((reorders _).symm.subset present),
      (steady.finds artifact present name).2 declared⟩

/-- After any number of refreshes, the cache has no names but those that a refresh of the present files from an empty
store commits, which are the names that present packages declare. Of these it has every one that, at each of the
refreshes, one package alone declared. -/
theorem names_after_refreshes (idle : coordinator.running = false)
    (history : Refreshed coordinator declares (tree :: trees) started store) (reorders : ∀ list, (order list).Perm list) :
    let fresh := refreshIn order coordinator (.new coordinator.options.cacheDir) tree
    ∀ name, (fresh.store.objects.contains name = true ↔ Declared coordinator declares tree name) ∧
      (store.objects.contains name = true → fresh.store.objects.contains name = true) ∧
      ((∀ past ∈ tree :: trees, Sole coordinator declares past name) →
        (store.objects.contains name = true ↔ fresh.store.objects.contains name = true)) := by
  intro fresh name
  cases history with
  | @next _ previous cached _ order' earlier steady reorders' =>
    have accounted := earlier.accounted separated loops idle
    obtain ⟨attributed, present, holds⟩ := holds_refreshIn separated loops accounted steady reorders'
    have declared : fresh.store.objects.contains name = true ↔ Declared coordinator declares tree name :=
      contains_refreshIn_new separated loops idle steady reorders
    rw [declared, contains_iff_holds attributed]
    have bounded : (∃ file, Holds (refreshIn order' previous cached tree).store name file) →
        Declared coordinator declares tree name := by
      intro ⟨file, cached⟩
      obtain ⟨artifact, inside, rfl, declared⟩ := present name file cached
      exact ⟨artifact, inside, declared⟩
    refine ⟨.rfl, bounded, fun sole => ⟨bounded, ?_⟩⟩
    intro ⟨artifact, inside, declared⟩
    have whole := accounted.whole name fun past inside => sole past (List.mem_cons_of_mem _ inside)
    exact ⟨_, holds name (sole tree (List.mem_cons_self ..)) whole artifact inside declared⟩

end Histories

def noPackage : FileTree := ⟨[(["p"], .directory)], [], 5000⟩

theorem names_after_return :
    let declares (file name : String) : Prop := file = "P_A_1.app" ∧ name = "A"
    let coordinator := Coordinator.new plainOptions .requestLoop
    ∃ started store, Refreshed coordinator declares [onePackage, noPackage, onePackage] started store ∧
      (∀ past ∈ [onePackage, noPackage, onePackage], Sole coordinator declares past "A") ∧
      store.objects.contains "A" = true := by
  intro declares coordinator
  have separated : coordinator.options.Separated := by decide +kernel
  have found : discovered plainOptions onePackage = [⟨"/p/P_A_1.app", "A", "1", true⟩] := by decide +kernel
  have none : discovered plainOptions noPackage = [] := by decide +kernel
  have symbols : (answer coordinator onePackage ⟨"/p/P_A_1.app", "A", "1", true⟩).symbols.map ObjectRecord.name = ["A"] := by
    rw [answer_requestLoop rfl]
    decide +kernel
  have steady : Steady coordinator declares onePackage := by
    refine ⟨by decide +kernel, fun artifact inside name => ?_⟩
    rw [show discovered coordinator.options onePackage = _ from found, List.mem_singleton] at inside
    subst inside
    rw [Finished.finds_iff, ← List.mem_map, symbols, List.mem_singleton]
    exact ⟨fun same => ⟨by decide +kernel, same⟩, And.right⟩
  have gone : Steady coordinator declares noPackage := by
    refine ⟨by decide +kernel, fun artifact inside => ?_⟩
    rw [show discovered coordinator.options noPackage = _ from none] at inside
    cases inside
  have sole : ∀ past ∈ [onePackage, noPackage, onePackage], Sole coordinator declares past "A" :=
    fun past _ one _ other _ first second => first.1.trans second.1.symm
  have history := ((Refreshed.start.next steady fun _ => .refl _).next gone fun _ => .refl _).next steady fun _ => .refl _
  have names := names_after_refreshes separated rfl rfl history (fun _ => .refl _) "A"
  refine ⟨_, _, history, sole, (names.2.2 sole).2 (names.1.2 ?_)⟩
  exact ⟨_, found ▸ List.mem_singleton_self _, by decide +kernel, rfl⟩

end SymbolCache.Refresh
