import SymbolCache.Proofs.PackageDiscovery
import SymbolCache.Proofs.RefreshMerge
import SymbolCache.Proofs.WorkerContacts

/-! The packages of a refresh while their workers run side by side. The exchanges proceed step by step in any
interleaving, and the events about a package are those of its own exchange, since no two packages have the same path.
So every package ends once, whatever its worker and all the others do. -/

namespace SymbolCache.Refresh

open Worker

def Event.artifact? : Event → Option Path
  | .stateChanged artifact _ | .progress artifact _ | .warning artifact _ | .error artifact _ _ => some artifact
  | .started _ | .alreadyRunning | .committed .. => none

def about (path : Path) (events : List Event) : List Event := events.filter fun event => event.artifact? = some path

/-- What is known to have become of a package. -/
def ofPackage (artifact : Artifact) (finished : List Finished) : List Finished :=
  finished.filter fun item => item.artifact = artifact

structure Task where
  contact : Contact
  phase : Phase

/-- A refresh while workers run: the exchanges that have begun, and what has come of them. -/
structure Flight where
  tasks : Artifact → Option Task
  run : Run

namespace Flight

def idle (tree : FileTree) : Flight := ⟨fun _ => none, ⟨tree, [], [], []⟩⟩

def move (flight : Flight) (artifact : Artifact) (contact : Contact) (move : Move) : Flight :=
  { tasks := fun other => if other = artifact then some ⟨contact, move.phase⟩ else flight.tasks other
    run := { flight.run with
      events := flight.run.events ++ move.events
      finished := flight.run.finished ++ move.finished } }

def start (flight : Flight) (artifact : Artifact) (contact : Contact) : Flight :=
  flight.move artifact contact ⟨[.stateChanged artifact.path .running], [], contact.opening⟩

/-- All workers have been heard to the end. -/
def Landed (begun : Begun) (contacts : Artifact → Contact) (flight : Flight) : Prop :=
  ∀ artifact ∈ begun.remaining, flight.tasks artifact = some ⟨contacts artifact, .done⟩

end Flight

/-- The states of a refresh. In between steps the workers change files and write logs. -/
inductive Underway (begun : Begun) : Flight → Prop where
  | idle : Underway begun (.idle begun.tree)
  | start {flight : Flight} {artifact : Artifact} (earlier : Underway begun flight) (listed : artifact ∈ begun.remaining)
    (waits : flight.tasks artifact = none) (contact : Contact) : Underway begun (flight.start artifact contact)
  | advance {flight : Flight} {artifact : Artifact} {contact : Contact} {phase : Phase} (earlier : Underway begun flight)
    (busy : flight.tasks artifact = some ⟨contact, phase⟩) :
    Underway begun (flight.move artifact contact (phase.advance artifact))
  | change {flight : Flight} (earlier : Underway begun flight) (tree : FileTree) (log : List LogEntry) :
    Underway begun { flight with run := { flight.run with tree, log } }

def Begun.result (begun : Begun) (run : Run) : Result :=
  { begun.conclude run with events := begun.events ++ (begun.conclude run).events }

theorem refreshIn_eq_result {coordinator : Coordinator} {store : Store} {tree : FileTree} {begun : Begun}
    (begins : begin? coordinator store tree = some begun) (order : List Artifact → List Artifact) :
    refreshIn order coordinator store tree = begun.result (begun.consultAll (order begun.remaining)) := by
  rw [refreshIn, begins]
  rfl

section Events

variable {path : Path} {events : List Event} {artifact : Artifact} {event : Event}

@[simp] theorem about_append (path : Path) (first second : List Event) :
    about path (first ++ second) = about path first ++ about path second := List.filter_append ..

theorem about_own (own : ∀ event ∈ events, event.artifact? = some path) : about path events = events :=
  List.filter_eq_self.2 fun event inside => by simpa using own event inside

theorem about_other (others : ∀ event ∈ events, event.artifact? ≠ some path) : about path events = [] :=
  List.filter_eq_nil_iff.2 fun event inside => by simpa using others event inside

theorem Notice.artifact? (notice : Notice path event) : event.artifact? = some path := by
  cases notice <;> rfl

theorem Finished.artifact?_of_mem_events {item : Finished} (told : event ∈ item.events) :
    event.artifact? = some item.artifact.path := by
  unfold Finished.events at told
  split at told
  · cases List.mem_singleton.1 told
    rfl
  · simp only [List.mem_cons, List.not_mem_nil, or_false] at told
    rcases told with rfl | rfl <;> rfl

theorem Phase.artifact?_of_mem_advance {phase : Phase} (told : event ∈ (phase.advance artifact).events) :
    event.artifact? = some artifact.path := by
  unfold Phase.advance at told
  split at told
  · cases told
  · split at told
    · cases told
    · exact (notice_of_mem_hear told).artifact?
    · cases told
  · exact Finished.artifact?_of_mem_events told
  · cases told

theorem Phase.artifact_of_mem_advance {phase : Phase} {item : Finished}
    (done : item ∈ (phase.advance artifact).finished) : item.artifact = artifact := by
  unfold Phase.advance at done
  split at done
  · cases done
  · split at done <;> cases done
  · cases List.mem_singleton.1 done
    rfl
  · cases done

end Events

/-- What has been told of a package and what is still to come make up its whole exchange. -/
structure Balanced (artifact : Artifact) (task : Task) (run : Run) : Prop where
  events : about artifact.path run.events ++ task.phase.events artifact =
    .stateChanged artifact.path .running :: task.contact.opening.events artifact
  finished : ofPackage artifact run.finished ++ task.phase.finished artifact =
    [⟨artifact, task.contact.outcome artifact.path⟩]

/-- The invariant of a refresh under way. -/
structure Accounts (begun : Begun) (flight : Flight) : Prop where
  waiting : ∀ artifact ∈ begun.remaining, flight.tasks artifact = none →
    about artifact.path flight.run.events = [] ∧ ofPackage artifact flight.run.finished = []
  busy : ∀ artifact task, flight.tasks artifact = some task →
    artifact ∈ begun.remaining ∧ Balanced artifact task flight.run
  told : ∀ event ∈ flight.run.events, ∃ artifact ∈ begun.remaining, event.artifact? = some artifact.path
  ended : ∀ item ∈ flight.run.finished, item.artifact ∈ begun.remaining

section Invariant

variable {begun : Begun} {flight : Flight}

theorem Accounts.move (distinct : (begun.remaining.map Artifact.path).Nodup) (accounts : Accounts begun flight)
    {artifact : Artifact} {contact : Contact} {move : Move} (listed : artifact ∈ begun.remaining)
    (tells : ∀ event ∈ move.events, event.artifact? = some artifact.path)
    (ends : ∀ item ∈ move.finished, item.artifact = artifact)
    (balanced : Balanced artifact ⟨contact, move.phase⟩ (flight.move artifact contact move).run) :
    Accounts begun (flight.move artifact contact move) := by
  -- The step is about another package, and so it adds nothing to what is known of this one.
  have kept {other : Artifact} (inside : other ∈ begun.remaining) (apart : other ≠ artifact) :
      about other.path (flight.move artifact contact move).run.events = about other.path flight.run.events ∧
        ofPackage other (flight.move artifact contact move).run.finished = ofPackage other flight.run.finished := by
    have silent : about other.path move.events = [] := by
      refine about_other fun event told same => apart ?_
      rw [tells event told, Option.some.injEq] at same
      exact List.inj_on_of_nodup_map distinct inside listed same.symm
    have nothing : ofPackage other move.finished = [] :=
      List.filter_eq_nil_iff.2 fun item done => by simpa [ends item done] using apart.symm
    refine ⟨?_, ?_⟩
    · simp [Flight.move, silent]
    · simpa [Flight.move, ofPackage] using nothing
  refine ⟨?_, ?_, ?_, ?_⟩
  · intro other inside waits
    by_cases same : other = artifact
    · simp [Flight.move, same] at waits
    · obtain ⟨events, finished⟩ := kept inside same
      rw [events, finished]
      exact accounts.waiting other inside (by simpa [Flight.move, same] using waits)
  · intro other task busy
    by_cases same : other = artifact
    · subst same
      obtain rfl : ⟨contact, move.phase⟩ = task := by simpa [Flight.move] using busy
      exact ⟨listed, balanced⟩
    · obtain ⟨inside, earlier⟩ := accounts.busy other task (by simpa [Flight.move, same] using busy)
      obtain ⟨events, finished⟩ := kept inside same
      exact ⟨inside, events ▸ earlier.events, finished ▸ earlier.finished⟩
  · intro event told
    rcases List.mem_append.1 told with before | now
    · exact accounts.told event before
    · exact ⟨artifact, listed, tells event now⟩
  · intro item done
    rcases List.mem_append.1 done with before | now
    · exact accounts.ended item before
    · exact ends item now ▸ listed

theorem Underway.accounts (distinct : (begun.remaining.map Artifact.path).Nodup) (underway : Underway begun flight) :
    Accounts begun flight := by
  induction underway with
  | idle =>
    refine ⟨fun _ _ _ => ⟨rfl, rfl⟩, ?_, ?_, ?_⟩
    · intro artifact task busy
      simp [Flight.idle] at busy
    · intro event told
      simp [Flight.idle] at told
    · intro item done
      simp [Flight.idle] at done
  | @start flight artifact _ listed waits contact ih =>
    obtain ⟨silent, nothing⟩ := ih.waiting artifact listed waits
    have tells : ∀ event ∈ [Event.stateChanged artifact.path .running], event.artifact? = some artifact.path := by
      intro event told
      cases List.mem_singleton.1 told
      rfl
    refine ih.move distinct listed tells ?_ ⟨?_, ?_⟩
    · intro item done
      cases done
    · simp [Flight.move, silent, about_own tells]
    · simp [Flight.move, nothing]
  | @advance flight artifact contact phase _ busy ih =>
    obtain ⟨listed, balanced⟩ := ih.busy artifact _ busy
    obtain ⟨events, finished⟩ := phase.advance_spends artifact
    have tells : ∀ event ∈ (phase.advance artifact).events, event.artifact? = some artifact.path :=
      fun _ => Phase.artifact?_of_mem_advance
    have ends : ∀ item ∈ (phase.advance artifact).finished, item.artifact = artifact :=
      fun _ => Phase.artifact_of_mem_advance
    refine ih.move distinct listed tells ends ⟨?_, ?_⟩
    · rw [← balanced.events, events]
      simp [Flight.move, about_own tells]
    · have own : ofPackage artifact (phase.advance artifact).finished = (phase.advance artifact).finished :=
        List.filter_eq_self.2 fun item done => by simpa using ends item done
      rw [← balanced.finished, finished, ← own]
      simp [Flight.move, ofPackage]
  | change _ tree log ih =>
    exact ⟨ih.waiting, fun artifact task busy => ⟨(ih.busy artifact task busy).1,
      (ih.busy artifact task busy).2.events, (ih.busy artifact task busy).2.finished⟩, ih.told, ih.ended⟩

end Invariant

section OneByOne

variable {begun : Begun} {flight : Flight} {artifact : Artifact} {contact : Contact} {phase : Phase}

def Phase.closing (artifact : Artifact) (phase : Phase) : Move := ⟨phase.events artifact, phase.finished artifact, .done⟩

def Phase.steps : Phase → Nat
  | .talking _ unread _ => unread.length + 2
  | .ended _ => 1
  | .done => 0

theorem Phase.steps_advance (artifact : Artifact) (phase : Phase) :
    (phase.advance artifact).phase.steps ≤ phase.steps - 1 := by
  unfold Phase.advance
  split
  · simp [steps]
  · split <;> simp [steps]
  · simp [steps]
  · simp [steps]

theorem Flight.move_closing (flight : Flight) (artifact : Artifact) (contact : Contact) (phase : Phase) :
    (flight.move artifact contact (phase.advance artifact)).move artifact contact
        ((phase.advance artifact).phase.closing artifact) =
      flight.move artifact contact (phase.closing artifact) := by
  obtain ⟨events, finished⟩ := phase.advance_spends artifact
  have tasks : ∀ other, (if other = artifact then some (⟨contact, .done⟩ : Task) else
      if other = artifact then some ⟨contact, (phase.advance artifact).phase⟩ else flight.tasks other) =
      if other = artifact then some ⟨contact, .done⟩ else flight.tasks other := by
    intro other
    split <;> rfl
  simp only [Flight.move, Phase.closing, List.append_assoc, ← events, ← finished, tasks]

theorem Underway.finish (underway : Underway begun flight) (busy : flight.tasks artifact = some ⟨contact, phase⟩) :
    Underway begun (flight.move artifact contact (phase.closing artifact)) := by
  obtain ⟨bound, enough⟩ : ∃ bound, phase.steps ≤ bound := ⟨_, Nat.le_refl _⟩
  induction bound generalizing flight phase with
  | zero =>
    cases phase with
    | talking | ended => cases enough
    | done => exact underway.advance busy
  | succ bound ih =>
    have fewer := phase.steps_advance artifact
    rw [← Flight.move_closing]
    exact ih (underway.advance busy) (if_pos rfl) (by omega)

theorem Underway.startAndFinish (underway : Underway begun flight) (listed : artifact ∈ begun.remaining)
    (waits : flight.tasks artifact = none) (contact : Contact) :
    Underway begun ((flight.start artifact contact).move artifact contact (contact.opening.closing artifact)) :=
  (underway.start listed waits contact).finish (if_pos rfl)

theorem Underway.settle (underway : Underway begun flight) (listed : artifact ∈ begun.remaining)
    (known : ∀ task, flight.tasks artifact = some task → task.contact = contact) :
    ∃ next, Underway begun next ∧
      ∀ other, next.tasks other = if other = artifact then some ⟨contact, .done⟩ else flight.tasks other := by
  cases present : flight.tasks artifact with
  | none =>
    refine ⟨_, underway.startAndFinish listed present contact, fun other => ?_⟩
    simp only [Flight.start, Flight.move, Phase.closing]
    split <;> rfl
  | some task =>
    obtain ⟨_, phase⟩ := task
    obtain rfl := known _ present
    exact ⟨_, underway.finish present, fun _ => rfl⟩

/-- A refresh never gets stuck, and every package may meet with any worker. -/
theorem Underway.lands (underway : Underway begun flight) {contacts : Artifact → Contact}
    (known : ∀ artifact task, flight.tasks artifact = some task → task.contact = contacts artifact) :
    ∃ last, Underway begun last ∧ last.Landed begun contacts := by
  have settles : ∀ order : List Artifact, (∀ artifact ∈ order, artifact ∈ begun.remaining) → ∃ last, Underway begun last ∧
      (∀ artifact task, last.tasks artifact = some task → task.contact = contacts artifact) ∧
      ∀ artifact ∈ order, last.tasks artifact = some ⟨contacts artifact, .done⟩ := by
    intro order listed
    induction order with
    | nil => exact ⟨flight, underway, known, nofun⟩
    | cons first rest ih =>
      obtain ⟨last, flies, knows, done⟩ := ih fun artifact inside => listed artifact (List.mem_cons_of_mem _ inside)
      obtain ⟨next, settled, tasks⟩ := flies.settle (listed first (List.mem_cons_self ..)) (knows first)
      refine ⟨next, settled, ?_, ?_⟩
      · intro artifact task busy
        rw [tasks] at busy
        split at busy
        · rename_i same
          cases busy
          rw [same]
        · exact knows artifact task busy
      · intro artifact inside
        rw [tasks]
        split
        · rename_i same
          rw [same]
        · rename_i other
          exact done artifact ((List.mem_cons.1 inside).resolve_left other)
  obtain ⟨last, flies, -, done⟩ := settles begun.remaining fun _ => id
  exact ⟨last, flies, done⟩

theorem Underway.process (underway : Underway begun flight) (listed : artifact ∈ begun.remaining)
    (waits : flight.tasks artifact = none) (program : Program) (options : ProcessOptions) :
    ∃ next, Underway begun next ∧ next.run = flight.run.process program options artifact ∧
      ∀ other, next.tasks other = if other = artifact then
        some ⟨.ofProgram program artifact.path options flight.run.tree, .done⟩ else flight.tasks other := by
  obtain ⟨events, outcome⟩ := Contact.consult_ofProgram program artifact.path options flight.run.tree
  generalize Contact.ofProgram program artifact.path options flight.run.tree = contact at *
  have finishes := underway.startAndFinish listed waits contact
  let consultation := consult program artifact.path options flight.run.tree
  refine ⟨_, finishes.change consultation.tree (flight.run.log ++ consultation.log), ?_, ?_⟩
  · simp only [Flight.start, Flight.move, Phase.closing, Run.process, Contact.events_opening, Contact.finished_opening,
      events, outcome, List.append_nil, List.append_assoc]
    rfl
  · intro other
    simp only [Flight.start, Flight.move, Phase.closing]
    split <;> rfl

theorem Underway.processAll (underway : Underway begun flight) {order : List Artifact} (distinct : order.Nodup)
    (listed : ∀ artifact ∈ order, artifact ∈ begun.remaining) (waits : ∀ artifact ∈ order, flight.tasks artifact = none)
    (program : Program) (options : ProcessOptions) :
    ∃ last, Underway begun last ∧ last.run = order.foldl (Run.process program options) flight.run ∧
      (∀ artifact ∈ order, ∃ tree, last.tasks artifact = some ⟨.ofProgram program artifact.path options tree, .done⟩) ∧
      ∀ artifact ∉ order, last.tasks artifact = flight.tasks artifact := by
  induction order generalizing flight with
  | nil => exact ⟨flight, underway, rfl, nofun, fun _ _ => rfl⟩
  | cons first rest ih =>
    obtain ⟨once, others⟩ := List.nodup_cons.1 distinct
    obtain ⟨next, flies, ran, tasks⟩ := underway.process (listed first (List.mem_cons_self ..))
      (waits first (List.mem_cons_self ..)) program options
    have waiting : ∀ artifact ∈ rest, next.tasks artifact = none := by
      intro artifact inside
      rw [tasks, if_neg (ne_of_mem_of_not_mem inside once)]
      exact waits artifact (List.mem_cons_of_mem _ inside)
    obtain ⟨last, lands, same, done, kept⟩ := ih flies others
      (fun artifact inside => listed artifact (List.mem_cons_of_mem _ inside)) waiting
    refine ⟨last, lands, ?_, ?_, ?_⟩
    · rw [same, ran, List.foldl_cons]
    · intro artifact inside
      rcases List.mem_cons.1 inside with rfl | later
      · exact ⟨flight.run.tree, by rw [kept artifact once, tasks, if_pos rfl]⟩
      · exact done artifact later
    · intro artifact outside
      obtain ⟨notFirst, notLater⟩ := not_or.1 (mt List.mem_cons.2 outside)
      rw [kept artifact notLater, tasks, if_neg notFirst]

end OneByOne

/-- The events about a package that ends in a state. -/
inductive Passes (path : Path) : PackageState → List Event → Prop where
  | skipped : Passes path .skipped [.stateChanged path .skipped]
  | succeeded {notices : List Event} (quiet : ∀ event ∈ notices, Notice path event) :
    Passes path .succeeded (.stateChanged path .running :: notices ++ [.stateChanged path .succeeded])
  | failed {notices : List Event} (quiet : ∀ event ∈ notices, Notice path event) (message : String) (benign : Bool) :
    Passes path .failed
      (.stateChanged path .running :: notices ++ [.error path message benign, .stateChanged path .failed])

/-- How a package ends, by what its worker has written and by the events of the refresh. -/
structure Settled (begun : Begun) (contact : Contact) (events : List Event) (item : PackageReport) : Prop where
  passes : Passes item.artifact.path item.state (about item.artifact.path events)
  skips : item.state = .skipped ↔ item.artifact ∈ begun.skipped
  answered : item.artifact ∈ begun.remaining → ∀ lines code replies outcome, contact = .talks lines (.ok code) →
    messages? Json.reply? lines = some replies → replies.findSome? told? = some outcome →
    item = Finished.report ⟨item.artifact, outcome⟩
  unanswered : item.artifact ∈ begun.remaining →
    (∀ line ∈ contact.lines, ∀ reply, Json.reply? line = some reply → told? reply = none) → item.state = .failed

/-- A refresh from its beginning to its end. -/
structure Lifecycle (begun : Begun) (contacts : Artifact → Contact) (result : Result) (report : Report) : Prop where
  reported : result.report = some report
  listed : report.artifacts.map PackageReport.artifact = begun.artifacts
  settled : ∀ item ∈ report.artifacts, Settled begun (contacts item.artifact) result.events item
  framed : ∃ between, result.events = .started begun.artifacts.length ::
      (between ++ [.committed report.objectCount report.procedureCount]) ∧
    ∀ event ∈ between, ∃ artifact ∈ begun.artifacts, event.artifact? = some artifact.path
  idle : result.coordinator.running = false

section Beginning

variable {coordinator : Coordinator} {store : Store} {tree : FileTree} {begun : Begun} {artifact : Artifact}

theorem distinct_of_begin? (begins : begin? coordinator store tree = some begun) :
    (begun.artifacts.map Artifact.path).Nodup := by
  obtain ⟨-, rfl⟩ := begun_of_begin? begins
  exact Package.nodup_discover ..

theorem skipped_of_begin? (begins : begin? coordinator store tree = some begun) :
    begun.skipped = begun.artifacts.filter (isSkipped begun.coordinator.options begun.store begun.tree) := by
  obtain ⟨-, rfl⟩ := begun_of_begin? begins
  rfl

theorem mem_skipped_iff (begins : begin? coordinator store tree = some begun) (inside : artifact ∈ begun.artifacts) :
    artifact ∈ begun.skipped ↔ artifact ∉ begun.remaining := by
  rw [skipped_of_begin? begins, Begun.remaining, List.mem_filter, List.mem_filter]
  cases isSkipped begun.coordinator.options begun.store begun.tree artifact <;> simp [inside]

theorem reportOf_given {skipped : List Artifact} {finished : List Finished} {outcome : Outcome}
    (given : artifact ∉ skipped) (once : ofPackage artifact finished = [⟨artifact, outcome⟩]) :
    reportOf skipped finished artifact = Finished.report ⟨artifact, outcome⟩ := by
  have first : finished.find? (fun item => item.artifact = artifact) = some ⟨artifact, outcome⟩ := by
    rw [← List.head?_filter]
    exact congrArg List.head? once
  rw [reportOf, if_neg (by simpa using given), first]

theorem about_skipped {skipped : List Artifact} (distinct : (skipped.map Artifact.path).Nodup)
    (inside : artifact ∈ skipped) :
    about artifact.path (skipped.map fun other => .stateChanged other.path .skipped) =
      [.stateChanged artifact.path .skipped] := by
  induction skipped with
  | nil => cases inside
  | cons first rest ih =>
    obtain ⟨once, others⟩ := List.nodup_cons.1 distinct
    rcases List.mem_cons.1 inside with rfl | later
    · have silent : about artifact.path (rest.map fun other => .stateChanged other.path .skipped) = [] := by
        refine about_other fun event told same => once ?_
        obtain ⟨other, member, rfl⟩ := List.mem_map.1 told
        exact List.mem_map.2 ⟨other, member, Option.some.inj same⟩
      rw [List.map_cons, ← List.singleton_append, about_append, silent]
      simp [about, Event.artifact?]
    · have apart : first.path ≠ artifact.path := fun same => once (same ▸ List.mem_map_of_mem later)
      rw [List.map_cons, ← List.singleton_append, about_append, ih others later]
      simp [about, Event.artifact?, apart]

theorem result_events (begun : Begun) (run : Run) : (begun.result run).events =
    .started begun.artifacts.length ::
      (begun.skipped.map (fun artifact => .stateChanged artifact.path .skipped) ++ run.events ++
        [.committed (committed begun.store begun.skipped run.finished).objects.size
          (committed begun.store begun.skipped run.finished).procedureCount]) := by
  simp [Begun.result, Begun.conclude, Begun.events]

theorem about_result (begun : Begun) (run : Run) (path : Path) :
    about path (begun.result run).events =
      about path (begun.skipped.map fun artifact => .stateChanged artifact.path .skipped) ++ about path run.events := by
  rw [result_events]
  simp [about, Event.artifact?]

theorem passes_outcome {notices : List Event} (quiet : ∀ event ∈ notices, Notice artifact.path event) (outcome : Outcome) :
    Passes artifact.path (Finished.report ⟨artifact, outcome⟩).state
      (.stateChanged artifact.path .running :: notices ++ Finished.events ⟨artifact, outcome⟩) := by
  cases outcome with
  | succeeded symbols procedures => exact .succeeded quiet
  | failed message benign => exact .failed quiet message benign

end Beginning

section Landing

variable {coordinator : Coordinator} {store : Store} {tree : FileTree} {begun : Begun} {flight : Flight}
  {contacts : Artifact → Contact} {artifact : Artifact}

theorem settled_skipped (begins : begin? coordinator store tree = some begun) (accounts : Accounts begun flight)
    (inside : artifact ∈ begun.artifacts) (skips : artifact ∈ begun.skipped) :
    Settled begun (contacts artifact) (begun.result flight.run).events
      (reportOf begun.skipped flight.run.finished artifact) := by
  have distinct := distinct_of_begin? begins
  have notGiven := (mem_skipped_iff begins inside).1 skips
  have report : reportOf begun.skipped flight.run.finished artifact = ⟨artifact, .skipped, none, false, 0⟩ := by
    rw [reportOf, if_pos (List.contains_iff_mem.2 skips)]
  have silent : about artifact.path flight.run.events = [] := by
    refine about_other fun event told same => ?_
    obtain ⟨other, given, named⟩ := accounts.told event told
    have equal := List.inj_on_of_nodup_map distinct inside (List.mem_of_mem_filter given)
      (Option.some.inj (same.symm.trans named))
    exact notGiven (equal ▸ given)
  have apart : (begun.skipped.map Artifact.path).Nodup := by
    rw [skipped_of_begin? begins]
    exact distinct.sublist (List.filter_sublist.map _)
  rw [report]
  refine ⟨?_, ?_, fun given => absurd given notGiven, fun given => absurd given notGiven⟩
  · rw [about_result, silent, about_skipped apart skips, List.append_nil]
    exact .skipped
  · simp [skips]

theorem settled_given (begins : begin? coordinator store tree = some begun) (accounts : Accounts begun flight)
    (given : artifact ∈ begun.remaining) (lands : flight.tasks artifact = some ⟨contacts artifact, .done⟩) :
    Settled begun (contacts artifact) (begun.result flight.run).events
      (reportOf begun.skipped flight.run.finished artifact) := by
  have inside := List.mem_of_mem_filter given
  have notSkipped : artifact ∉ begun.skipped := fun skips => (mem_skipped_iff begins inside).1 skips given
  obtain ⟨-, balanced⟩ := accounts.busy artifact _ lands
  have finished : ofPackage artifact flight.run.finished = [⟨artifact, (contacts artifact).outcome artifact.path⟩] := by
    simpa using balanced.finished
  have events : about artifact.path flight.run.events = .stateChanged artifact.path .running ::
      (contacts artifact).opening.heard artifact.path ++
        Finished.events ⟨artifact, (contacts artifact).outcome artifact.path⟩ := by
    simpa using balanced.events
  have silent : about artifact.path (begun.skipped.map fun other => .stateChanged other.path .skipped) = [] := by
    refine about_other fun event told same => ?_
    obtain ⟨other, skips, rfl⟩ := List.mem_map.1 told
    have found : other ∈ begun.artifacts := List.mem_of_mem_filter (skipped_of_begin? begins ▸ skips)
    have equal := List.inj_on_of_nodup_map (distinct_of_begin? begins) found inside (Option.some.inj same)
    exact notSkipped (equal ▸ skips)
  have named := Finished.report_artifact ⟨artifact, (contacts artifact).outcome artifact.path⟩
  have passes := passes_outcome (fun event => @Contact.notice_of_mem_opening artifact.path (contacts artifact) event)
    ((contacts artifact).outcome artifact.path)
  rw [reportOf_given notSkipped finished]
  refine ⟨?_, ?_, ?_, ?_⟩
  · rw [named, about_result, silent, events]
    exact passes
  · rw [named]
    refine iff_of_false (fun skipped => ?_) notSkipped
    rw [skipped] at passes
    cases passes
  · intro _ lines code replies outcome talks found told
    rw [named, talks, Contact.outcome_of_messages? found told]
  · intro _ silent
    obtain ⟨message, benign, failed⟩ := @Contact.failed_of_silent artifact.path _ silent
    rw [failed]
    rfl

theorem lifecycle_of_landed (begins : begin? coordinator store tree = some begun) (underway : Underway begun flight)
    (lands : flight.Landed begun contacts) : ∃ report, Lifecycle begun contacts (begun.result flight.run) report := by
  have distinct := distinct_of_begin? begins
  have accounts := underway.accounts (distinct.sublist (List.filter_sublist.map _))
  refine ⟨_, rfl, ?_, ?_, ?_, rfl⟩
  · simp [Function.comp_def, artifact_reportOf]
  · intro item member
    obtain ⟨artifact, inside, rfl⟩ := List.mem_map.1 member
    rw [artifact_reportOf]
    by_cases skips : artifact ∈ begun.skipped
    · exact settled_skipped begins accounts inside skips
    · have given := Classical.not_not.1 (mt (mem_skipped_iff begins inside).2 skips)
      exact settled_given begins accounts given (lands artifact given)
  · refine ⟨_, result_events begun flight.run, ?_⟩
    intro event told
    rcases List.mem_append.1 told with skipped | heard
    · obtain ⟨artifact, skips, rfl⟩ := List.mem_map.1 skipped
      exact ⟨artifact, List.mem_of_mem_filter (skipped_of_begin? begins ▸ skips), rfl⟩
    · obtain ⟨artifact, given, named⟩ := accounts.told event heard
      exact ⟨artifact, List.mem_of_mem_filter given, named⟩

end Landing

/-- A refresh that hears its workers one after the other, in any order, is one in which exchanges interleave. -/
theorem exists_landed_consultAll {coordinator : Coordinator} {store : Store} {tree : FileTree} {begun : Begun}
    (begins : begin? coordinator store tree = some begun) {order : List Artifact → List Artifact}
    (reorders : ∀ list, (order list).Perm list) :
    ∃ flight contacts, Underway begun flight ∧ flight.Landed begun contacts ∧
      flight.run = begun.consultAll (order begun.remaining) ∧
      ∀ artifact ∈ begun.remaining, ∃ seen, contacts artifact =
        .ofProgram coordinator.program artifact.path coordinator.processOptions seen := by
  have listed : ∀ artifact, artifact ∈ order begun.remaining ↔ artifact ∈ begun.remaining :=
    fun artifact => (reorders begun.remaining).mem_iff
  have distinct : (order begun.remaining).Nodup :=
    (reorders begun.remaining).nodup_iff.2 ((distinct_of_begin? begins).of_map.filter _)
  obtain ⟨last, underway, ran, done, -⟩ := Underway.idle.processAll distinct (fun artifact => (listed artifact).1)
    (fun _ _ => rfl) begun.coordinator.program begun.coordinator.processOptions
  have same : begun.coordinator.program = coordinator.program ∧
      begun.coordinator.processOptions = coordinator.processOptions := by
    obtain ⟨-, rfl⟩ := begun_of_begin? begins
    exact ⟨rfl, rfl⟩
  rw [same.1, same.2] at done
  have met : ∀ artifact, ∃ contact, artifact ∈ begun.remaining → last.tasks artifact = some ⟨contact, .done⟩ ∧
      ∃ seen, contact = .ofProgram coordinator.program artifact.path coordinator.processOptions seen := by
    intro artifact
    by_cases given : artifact ∈ begun.remaining
    · obtain ⟨seen, task⟩ := done artifact ((listed artifact).2 given)
      exact ⟨_, fun _ => ⟨task, seen, rfl⟩⟩
    · exact ⟨.talks [] (.ok 0), fun inside => absurd inside given⟩
  obtain ⟨contacts, met⟩ := Classical.skolem.1 met
  exact ⟨last, contacts, underway, fun artifact given => (met artifact given).1, ran, fun artifact given => (met artifact given).2⟩

/-- Every package of a refresh ends once, however the exchanges with the workers interleave and whatever these do. No
refresh gets stuck, and one that hears its workers one after the other, in any order, is such a refresh. -/
theorem refresh_lifecycle {coordinator : Coordinator} {store : Store} {tree : FileTree} {begun : Begun}
    (begins : begin? coordinator store tree = some begun) :
    (∀ flight contacts, Underway begun flight → flight.Landed begun contacts →
      ∃ report, Lifecycle begun contacts (begun.result flight.run) report) ∧
    (∀ flight contacts, Underway begun flight →
      (∀ artifact task, flight.tasks artifact = some task → task.contact = contacts artifact) →
      ∃ last, Underway begun last ∧ last.Landed begun contacts) ∧
    ∀ order : List Artifact → List Artifact, (∀ list, (order list).Perm list) →
      ∃ contacts report, Lifecycle begun contacts (refreshIn order coordinator store tree) report ∧
        ∀ artifact ∈ begun.remaining, ∃ seen, contacts artifact =
          .ofProgram coordinator.program artifact.path coordinator.processOptions seen := by
  refine ⟨fun _ _ => lifecycle_of_landed begins, fun _ _ underway => underway.lands, ?_⟩
  intro order reorders
  obtain ⟨flight, contacts, underway, lands, ran, met⟩ := exists_landed_consultAll begins reorders
  obtain ⟨report, lifecycle⟩ := lifecycle_of_landed begins underway lands
  refine ⟨contacts, report, ?_, met⟩
  rw [refreshIn_eq_result begins, ← ran]
  exact lifecycle

def soleFile : FileTree := ⟨[(["p"], .directory), (["p", "P_A_1.app"], .file [] 1000)], [], 5000⟩

/-- An error, taken back by a success. -/
def torn : List Reply := [.error "torn" none none, .success [] .empty "/p/P_A_1.app"]

def tornCoordinator : Coordinator :=
  .new ⟨{}, ["/p"], "/c", "/t", "/s", false, true, "warn"⟩ (.scripted (torn.map Peer.replyLine) 0)

theorem refresh_takes_first_report : (refreshIn id tornCoordinator (.new "/c") soleFile).report.map Report.artifacts =
    some [⟨⟨"/p/P_A_1.app", "A", "1", true⟩, .failed, some "torn", false, 0⟩] := by
  obtain ⟨begun, begins, found, given⟩ : ∃ begun, begin? tornCoordinator (.new "/c") soleFile = some begun ∧
      begun.artifacts = [⟨"/p/P_A_1.app", "A", "1", true⟩] ∧ begun.remaining = begun.artifacts :=
    ⟨_, rfl, by decide +kernel, by decide +kernel⟩
  obtain ⟨contacts, report, lifecycle, met⟩ := (refresh_lifecycle begins).2.2 id fun _ => .refl _
  obtain ⟨item, single, named⟩ := List.map_eq_singleton_iff.1 (lifecycle.listed.trans found)
  have remains : item.artifact ∈ begun.remaining := by
    rw [given, found, named]
    exact List.mem_singleton_self _
  have messages : messages? Json.reply? (torn.map Peer.replyLine) = some torn := by
    refine messages?_map (fun _ _ => Json.trim_compactChars_object _) fun reply inside => Json.reply?_replyLine ?_
    simp only [torn, List.mem_cons, List.not_mem_nil, or_false] at inside
    rcases inside with rfl | rfl
    · exact .error ..
    · exact .success _ _ nofun
  obtain ⟨_, talks⟩ := met item.artifact remains
  have reports := (lifecycle.settled item (single ▸ List.mem_singleton_self _)).answered remains _ 0 _ _ talks messages rfl
  rw [lifecycle.reported, Option.map_some, single, reports, named]
  decide +kernel

end SymbolCache.Refresh
