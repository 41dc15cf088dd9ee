import SymbolCache.Proofs.RefreshLifecycle

/-! What refreshes commit: the merge of what their own workers have come to, in the order in which these were heard to
the end. The order shows only where two packages have a name or a key in common. -/

namespace SymbolCache.Refresh

open Worker

def Contact.finish (contact : Contact) (artifact : Artifact) : Finished := ⟨artifact, contact.outcome artifact.path⟩

/-- A store is the merge of what the workers have come to: every package given to one counts once, with the outcome that
its own worker has told. -/
structure Commits (begun : Begun) (contacts : Artifact → Contact) (finished : List Finished) (result : Store) : Prop where
  once : finished.Perm (begun.remaining.map fun artifact => (contacts artifact).finish artifact)
  answered : ∀ item ∈ finished, ∀ lines code replies outcome, contacts item.artifact = .talks lines (.ok code) →
    messages? Json.reply? lines = some replies → replies.findSome? told? = some outcome → item.outcome = outcome
  unanswered : ∀ item ∈ finished, (∀ line ∈ (contacts item.artifact).lines, ∀ reply,
    Json.reply? line = some reply → told? reply = none) → item.isSuccess = false
  merged : Merged begun.store begun.skipped finished result

variable {coordinator : Coordinator} {store : Store} {tree : FileTree} {begun : Begun} {flight : Flight}
  {contacts : Artifact → Contact}

/-- With every package heard to the end, the results are one for each, in some order. -/
theorem finished_perm_of_landed (distinct : (begun.remaining.map Artifact.path).Nodup) (underway : Underway begun flight)
    (lands : flight.Landed begun contacts) :
    flight.run.finished.Perm (begun.remaining.map fun artifact => (contacts artifact).finish artifact) := by
  have accounts := underway.accounts distinct
  have own : ∀ artifact ∈ begun.remaining,
      ofPackage artifact flight.run.finished = [(contacts artifact).finish artifact] := by
    intro artifact given
    simpa [Contact.finish] using (accounts.busy artifact _ (lands artifact given)).2.finished
  have single : flight.run.finished.Nodup := by
    rw [List.nodup_iff_sublist]
    intro item twice
    have within := twice.filter fun other : Finished => other.artifact = item.artifact
    rw [← ofPackage, ← ofPackage, own _ (accounts.ended item (twice.subset (List.mem_cons_self ..)))] at within
    simpa [ofPackage] using within.length_le
  have apart : (begun.remaining.map fun artifact => (contacts artifact).finish artifact).Nodup :=
    distinct.of_map.map_on fun one _ other _ same => congrArg Finished.artifact same
  refine (List.perm_ext_iff_of_nodup single apart).2 fun item => ?_
  have among : ∀ artifact, item ∈ ofPackage artifact flight.run.finished ↔
      item ∈ flight.run.finished ∧ item.artifact = artifact := by simp [ofPackage]
  constructor
  · intro done
    have given := accounts.ended item done
    have here := (among item.artifact).2 ⟨done, rfl⟩
    rw [own _ given, List.mem_singleton] at here
    exact List.mem_map.2 ⟨item.artifact, given, here.symm⟩
  · intro listed
    obtain ⟨artifact, given, rfl⟩ := List.mem_map.1 listed
    have here := own artifact given ▸ List.mem_singleton_self ((contacts artifact).finish artifact)
    exact ((among artifact).1 here).1

theorem commits_of_landed (begins : begin? coordinator store tree = some begun) (underway : Underway begun flight)
    (lands : flight.Landed begun contacts) :
    Commits begun contacts flight.run.finished (begun.result flight.run).store := by
  have once := finished_perm_of_landed ((distinct_of_begin? begins).sublist (List.filter_sublist.map _)) underway lands
  refine ⟨once, ?_, ?_, merged_committed ..⟩
  · intro item done lines code replies outcome talks found told
    obtain ⟨artifact, -, rfl⟩ := List.mem_map.1 (once.subset done)
    change (contacts artifact).outcome artifact.path = outcome
    rw [show contacts artifact = .talks lines (.ok code) from talks, Contact.outcome_of_messages? found told]
  · intro item done silent
    obtain ⟨artifact, -, rfl⟩ := List.mem_map.1 (once.subset done)
    obtain ⟨message, benign, failed⟩ := @Contact.failed_of_silent artifact.path (contacts artifact) silent
    rw [Finished.isSuccess, Contact.finish, failed]

/-- Exchanges that wait can be brought to their ends one after the other, in any order. -/
theorem Underway.finishAll (underway : Underway begun flight) {completion : List Artifact} (distinct : completion.Nodup)
    (listed : ∀ artifact ∈ completion, artifact ∈ begun.remaining)
    (waits : ∀ artifact ∈ completion, flight.tasks artifact = none) (contacts : Artifact → Contact) :
    ∃ last, Underway begun last ∧
      last.run.finished = flight.run.finished ++ completion.map (fun artifact => (contacts artifact).finish artifact) ∧
      (∀ artifact ∈ completion, last.tasks artifact = some ⟨contacts artifact, .done⟩) ∧
      ∀ artifact ∉ completion, last.tasks artifact = flight.tasks artifact := by
  induction completion generalizing flight with
  | nil => exact ⟨flight, underway, by simp, nofun, fun _ _ => rfl⟩
  | cons first rest ih =>
    obtain ⟨once, others⟩ := List.nodup_cons.1 distinct
    have begins := underway.startAndFinish (listed first (List.mem_cons_self ..)) (waits first (List.mem_cons_self ..))
      (contacts first)
    obtain ⟨last, lands, finished, done, kept⟩ := ih begins others
      (fun artifact inside => listed artifact (List.mem_cons_of_mem _ inside)) (by
        intro artifact inside
        have apart : artifact ≠ first := ne_of_mem_of_not_mem inside once
        simp [Flight.start, Flight.move, apart, waits artifact (List.mem_cons_of_mem _ inside)])
    refine ⟨last, lands, ?_, ?_, ?_⟩
    · simp [finished, Flight.start, Flight.move, Phase.closing, Contact.finish]
    · intro artifact inside
      rcases List.mem_cons.1 inside with rfl | later
      · rw [kept artifact once]
        simp [Flight.start, Flight.move, Phase.closing]
      · exact done artifact later
    · intro artifact outside
      obtain ⟨notFirst, notLater⟩ := not_or.1 (mt List.mem_cons.2 outside)
      rw [kept artifact notLater]
      simp [Flight.start, Flight.move, notFirst]

/-- A refresh commits the merge of what its workers have come to, in the order of completion. Whatever workers there are,
they may come to their ends in every order; and the order shows only where two packages have a name or a key in common. -/
theorem refresh_merges :
    (∀ (begun : Begun) (run : Run), Merged begun.store begun.skipped run.finished (begun.result run).store) ∧
    (∀ (begun : Begun) (first second : Run), first.finished.Pairwise Separate → second.finished.Perm first.finished →
      (begun.result second).store = (begun.result first).store) ∧
    ∀ coordinator store tree begun, begin? coordinator store tree = some begun →
      begun.store = store ∧ (begun.skipped ++ begun.remaining).Perm begun.artifacts ∧
      (∀ flight contacts, Underway begun flight → flight.Landed begun contacts →
        Commits begun contacts flight.run.finished (begun.result flight.run).store) ∧
      (∀ (contacts : Artifact → Contact) (completion : List Artifact), completion.Perm begun.remaining →
        ∃ flight, Underway begun flight ∧ flight.Landed begun contacts ∧
          flight.run.finished = completion.map fun artifact => (contacts artifact).finish artifact) ∧
      ∀ order : List Artifact → List Artifact, (∀ list, (order list).Perm list) →
        (begun.consultAll (order begun.remaining)).finished.map Finished.artifact = order begun.remaining ∧
        ∃ contacts, (∀ artifact ∈ begun.remaining, ∃ seen, contacts artifact =
            .ofProgram coordinator.program artifact.path coordinator.processOptions seen) ∧
          Commits begun contacts (begun.consultAll (order begun.remaining)).finished
            (refreshIn order coordinator store tree).store := by
  refine ⟨fun _ _ => merged_committed .., fun _ _ _ separate same => committed_perm same separate, ?_⟩
  intro coordinator store tree begun begins
  refine ⟨begin?_store begins, skipped_append_remaining begins, fun _ _ => commits_of_landed begins, ?_, ?_⟩
  · intro contacts completion reordered
    have distinct : completion.Nodup := reordered.nodup_iff.2 ((distinct_of_begin? begins).of_map.filter _)
    obtain ⟨last, underway, finished, done, -⟩ := Underway.idle.finishAll distinct
      (fun artifact => reordered.mem_iff.1) (fun _ _ => rfl) contacts
    exact ⟨last, underway, fun artifact given => done artifact (reordered.mem_iff.2 given), finished⟩
  · intro order reorders
    obtain ⟨flight, contacts, underway, lands, ran, met⟩ := exists_landed_consultAll begins reorders
    refine ⟨consultAll_artifacts begun _, contacts, met, ?_⟩
    rw [refreshIn_eq_result begins, ← ran]
    exact commits_of_landed begins underway lands

def twoPackages : FileTree :=
  ⟨[(["p"], .directory), (["p", "P_A_1.app"], .file [] 1000), (["q"], .directory), (["q", "P_B_1.app"], .file [] 1000)],
    [], 5000⟩

def packageA : Artifact := ⟨"/p/P_A_1.app", "A", "1", true⟩

def packageB : Artifact := ⟨"/q/P_B_1.app", "B", "1", true⟩

def bareTable (name app : String) : ObjectRecord := ⟨name, .table, none, some app, .empty⟩

def findsTable (name app : String) : Reply := .success [bareTable name app] .empty app

def tableFinder (name app : String) : Contact := .talks ([findsTable name app].map Peer.replyLine) (.ok 0)

def tableFinders (artifact : Artifact) : Contact :=
  tableFinder (if artifact = packageA then "Item" else "Vendor") artifact.fileName

/-- A store with the table of a package that is no longer there. -/
def outdated : Store := (Store.new "/c").replaceObjects (.ofList [("Old", bareTable "Old" "P_Old_1.app")])

def finderCoordinator : Coordinator :=
  .new ⟨{}, ["/p", "/q"], "/c", "/t", "/s", false, true, "warn"⟩ (.scripted ([findsTable "Item" "P_A_1.app"].map Peer.replyLine) 0)

private theorem discover_twoPackages : Package.discover twoPackages ["/p", "/q"] {} = [packageA, packageB] := by
  unfold Package.discover
  extract_lets found sorted
  have kept : sorted = found := List.mergeSort_of_pairwise (by decide +kernel)
  rw [kept]
  decide +kernel

private theorem messages?_findsTable (name app : String) :
    messages? Json.reply? ([findsTable name app].map Peer.replyLine) = some [findsTable name app] := by
  refine messages?_map (fun _ _ => Json.trim_compactChars_object _) fun reply inside => Json.reply?_replyLine ?_
  cases List.mem_singleton.1 inside
  refine .success _ _ fun record single => ?_
  cases List.mem_singleton.1 single
  exact ⟨nofun, nofun⟩

private theorem finish_tableFinder (name app : String) (artifact : Artifact) :
    (tableFinder name app).finish artifact = ⟨artifact, .succeeded [bareTable name app] .empty⟩ := by
  rw [Contact.finish, tableFinder, Contact.outcome_of_messages? (messages?_findsTable name app) rfl]

private theorem finish_packages : [packageA, packageB].map (fun artifact => (tableFinders artifact).finish artifact) =
    [⟨packageA, .succeeded [bareTable "Item" packageA.fileName] .empty⟩,
      ⟨packageB, .succeeded [bareTable "Vendor" packageB.fileName] .empty⟩] := by
  simp only [List.map_cons, List.map_nil, tableFinders, finish_tableFinder]
  rfl

private theorem separate_packages :
    ([packageA, packageB].map fun artifact => (tableFinders artifact).finish artifact).Pairwise Separate := by
  rw [finish_packages]
  refine List.pairwise_pair.2 ⟨?_, ?_⟩
  · intro name ⟨item, vendor⟩
    simp only [Finished.finds_iff, Finished.symbols, bareTable, List.mem_singleton, exists_eq_left] at item vendor
    exact absurd (item.trans vendor.symm) (by decide)
  · intro key ⟨carries, _⟩
    rw [Finished.carries_iff] at carries
    cases carries

theorem refresh_merges_two_tables :
    ∃ begun, begin? finderCoordinator outdated twoPackages = some begun ∧ begun.remaining = [packageA, packageB] ∧
      (∃ first second, Underway begun first ∧ first.Landed begun tableFinders ∧ Underway begun second ∧
        second.Landed begun tableFinders ∧ first.run.finished = second.run.finished.reverse ∧
        (begun.result second.run).store = (begun.result first.run).store ∧
        (begun.result first.run).store.objects.contains "Vendor" = true ∧
        (begun.result first.run).store.objects.contains "Old" = false) ∧
      (refreshIn List.reverse finderCoordinator outdated twoPackages).store.objects.contains "Item" = true := by
  obtain ⟨begun, begins, given, skipped⟩ : ∃ begun, begin? finderCoordinator outdated twoPackages = some begun ∧
      begun.remaining = [packageA, packageB] ∧ begun.skipped = [] := by
    refine ⟨_, rfl, ?_, ?_⟩
    · exact (congrArg (List.filter _) discover_twoPackages).trans (by decide +kernel)
    · exact (congrArg (List.filter _) discover_twoPackages).trans (by decide +kernel)
  obtain ⟨-, -, commits, completes, consults⟩ := refresh_merges.2.2 _ _ _ _ begins
  refine ⟨begun, begins, given, ?_, ?_⟩
  · obtain ⟨first, underway, lands, ends⟩ := completes tableFinders [packageA, packageB] (by rw [given])
    obtain ⟨second, underway', lands', ends'⟩ := completes tableFinders [packageB, packageA]
      (by rw [given]; exact .swap ..)
    have merged := (commits first tableFinders underway lands).merged
    have reversed : first.run.finished = second.run.finished.reverse := by rw [ends, ends']; rfl
    refine ⟨first, second, underway, lands, underway', lands', reversed, ?_, ?_, ?_⟩
    · refine refresh_merges.2.1 begun first.run second.run (ends ▸ separate_packages) ?_
      rw [reversed]
      exact (List.reverse_perm _).symm
    · refine (merged.names "Vendor").2 (.inl ⟨⟨packageB, .succeeded [bareTable "Vendor" packageB.fileName] .empty⟩, ?_, ?_⟩)
      · rw [ends, finish_packages]
        simp
      · exact ⟨_, _, rfl, _, List.mem_singleton_self _, rfl⟩
    · refine Bool.eq_false_iff.2 fun present => ?_
      rcases (merged.names "Old").1 present with ⟨item, inside, finds⟩ | ⟨record, -, ⟨artifact, skips, -⟩, -⟩
      · rw [ends, finish_packages] at inside
        rw [Finished.finds_iff] at finds
        simp only [List.mem_cons, List.not_mem_nil, or_false] at inside
        rcases inside with rfl | rfl <;> simp [Finished.symbols, bareTable] at finds
      · rw [skipped] at skips
        cases skips
  · obtain ⟨artifacts, contacts, met, all⟩ := consults List.reverse List.reverse_perm
    have inside : packageA ∈ begun.remaining := by simp [given]
    obtain ⟨item, done, named⟩ : ∃ item ∈ (begun.consultAll begun.remaining.reverse).finished, item.artifact = packageA := by
      rw [← List.mem_map, artifacts]
      exact List.mem_reverse.2 inside
    obtain ⟨_, talks⟩ := met item.artifact (named ▸ inside)
    have told := all.answered item done _ 0 _ _ talks (messages?_findsTable "Item" "P_A_1.app") rfl
    exact (all.merged.names "Item").2 (.inl ⟨item, done, _, _, told, _, List.mem_singleton_self _, rfl⟩)

end SymbolCache.Refresh
