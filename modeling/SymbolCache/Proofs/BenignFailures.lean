import SymbolCache.Command.Refreshing
import SymbolCache.Package.ArchiveWriter
import SymbolCache.Proofs.FailureMessages
import SymbolCache.Proofs.PendingChanges

/-! Which failures of a refresh count. A worker knows why it has given up on a package, but the coordinator hears only a
message and looks for the words that mark a file that is no archive. -/

namespace SymbolCache

namespace Refresh

open Worker

/-- Why the worker of a package gives up on it, as far as the files tell. -/
def failure? (path : Path) (options : ProcessOptions) (tree : FileTree) : Option Failure :=
  match (Package.unpack options.extractPath path).on tree with
  | (.error cause, _) => some (.extraction cause)
  | (.ok unpacked, after) =>
    match Source.catalog (withSources path options unpacked.entries after) unpacked.root options.extractProcedures with
    | .error cause => some (.metadata ((Path.fileName? path).getD "") cause)
    | .ok _ => none

section Answers

variable {path : Path} {failure : Failure}

def Failure.outcome (failure : Failure) : Outcome := .failed failure.message (isBenignMessage failure.message)

theorem processed_of_failure? (path : Path) (options : ProcessOptions) (tree : FileTree) :
    match failure? path options tree with
    | some failure => (processed path options tree).1.mapError Fault.error = .error failure.fault
    | none => ∃ table, (processed path options tree).1 = .ok table := by
  unfold failure? processed
  rcases (Package.unpack options.extractPath path).on tree with ⟨cause | unpacked, after⟩
  · rfl
  · simp only [readUnpacked, namedCatalog]
    cases Source.catalog (withSources path options unpacked.entries after) unpacked.root options.extractProcedures with
    | error cause => rfl
    | ok table => exact ⟨_, rfl⟩

theorem exists_fault_of_failure? {options : ProcessOptions} {tree : FileTree}
    (fails : failure? path options tree = some failure) :
    ∃ after, processPackage always path options (.start tree) = (.error failure.fault, after) := by
  have known := processed_of_failure? path options tree
  rw [fails] at known
  obtain ⟨notices, ⟨result, -⟩, -, -⟩ := leads_processPackage path options (.start tree)
  exact ⟨_, Prod.ext (result.trans known) rfl⟩

theorem outcome_requestLoop (path : Path) (options : ProcessOptions) (tree : FileTree) :
    match failure? path options tree with
    | some failure => (consult .requestLoop path options tree).outcome = failure.outcome
    | none => ∃ symbols procedures, (consult .requestLoop path options tree).outcome = .succeeded symbols procedures := by
  have known := processed_of_failure? path options tree
  rw [(consult_requestLoop path options tree).1]
  cases found : failure? path options tree with
  | none =>
    rw [found] at known
    obtain ⟨table, done⟩ := known
    rw [done]
    exact ⟨_, _, rfl⟩
  | some failure =>
    rw [found] at known
    cases done : (processed path options tree).1 with
    | ok table =>
      rw [done] at known
      cases known
    | error chain =>
      rw [done] at known
      have same : failure.fault = .error chain := (Except.error.inj known).symm
      show outcomeOf (.error chain) = failure.outcome
      rw [Failure.outcome, Failure.message, same]
      rfl

/-- A worker gives up on a package: it says so before anything else that would end the package, or it is the request loop
and finds the files so. -/
inductive GivesUp (failure : Failure) (path : Path) : Contact → Prop where
  | told {lines : List (List Char)} {code : Nat} {replies : List Reply} {about : Path}
      (read : messages? Json.reply? lines = some replies)
      (first : replies.find? Reply.isTerminal = some (terminalReply about (.error failure.fault))) :
      GivesUp failure path (.talks lines (.ok code))
  | found {options : ProcessOptions} {seen : FileTree} (fails : failure? path options seen = some failure) :
      GivesUp failure path (.ofProgram .requestLoop path options seen)

theorem findSome?_told? (replies : List Reply) :
    replies.findSome? told? = (replies.find? Reply.isTerminal).bind told? := by
  induction replies with
  | nil => rfl
  | cons reply replies ih =>
    rw [List.findSome?_cons, List.find?_cons, ih]
    cases reply <;> rfl

theorem GivesUp.outcome {contact : Contact} (gives : GivesUp failure path contact) :
    contact.outcome path = failure.outcome := by
  cases gives with
  | told read first =>
    obtain ⟨stack, reply⟩ := failure.exists_terminalReply _
    refine Contact.outcome_of_messages? read ?_
    rw [findSome?_told?, first, Option.bind_some, reply]
    rfl
  | @found options seen fails =>
    have outcome := outcome_requestLoop path options seen
    rw [fails] at outcome
    rw [← (Contact.consult_ofProgram .requestLoop path options seen).2, outcome]

theorem reply?_of_nextMessage {line : List Char} {reply : Reply} (next : (Peer.nextMessage [line]).1 = .ok (some reply)) :
    Json.reply? line = some reply := by
  unfold Peer.nextMessage at next
  split at next
  · cases next
  · split at next
    · rename_i read
      cases next
      exact read
    · cases next

theorem told_of_listen {lines : List (List Char)} {hearing : Hearing} {outcome : Outcome}
    (found : (listen path hearing lines).1.result = some outcome) : hearing.result = some outcome ∨
      ∃ line ∈ lines, ∃ reply, Json.reply? line = some reply ∧ told? reply = some outcome := by
  induction lines generalizing hearing with
  | nil => exact .inl found
  | cons line rest ih =>
    unfold listen at found
    cases next : (Peer.nextMessage [line]).1 with
    | error cause =>
      rw [next] at found
      exact .inl found
    | ok message =>
      rw [next] at found
      cases message with
      | none =>
        refine (ih found).imp_right ?_
        rintro ⟨other, inside, told⟩
        exact ⟨other, List.mem_cons_of_mem line inside, told⟩
      | some reply =>
        rcases ih found with now | ⟨other, inside, told⟩
        · rw [hear_result, Option.or_eq_some_iff] at now
          refine now.imp_right ?_
          rintro ⟨-, told⟩
          exact ⟨line, List.mem_cons_self .., reply, reply?_of_nextMessage next, told⟩
        · exact .inr ⟨other, List.mem_cons_of_mem line inside, told⟩

theorem exists_message_of_benign {contact : Contact} {message : String}
    (benign : contact.outcome path = .failed message true) : BearsMark message ∧
      ∃ line ∈ contact.lines, ∃ stack about, Json.reply? line = some (.error message stack about) := by
  cases contact with
  | unreachable cause => cases benign
  | talks lines ending =>
    simp only [Contact.outcome, verdict] at benign
    split at benign
    · cases benign
    · cases ending with
      | error cause => cases benign
      | ok code =>
        rw [conclusion] at benign
        cases found : (listen path ⟨[], none⟩ lines).1.result with
        | none =>
          rw [found] at benign
          cases benign
        | some outcome =>
          rw [found, Option.getD_some] at benign
          subst benign
          obtain old | ⟨line, inside, reply, read, told⟩ := told_of_listen found
          · cases old
          · cases reply with
            | error text stack about =>
              simp only [told?, Option.some.injEq, Outcome.failed.injEq] at told
              obtain ⟨rfl, marked⟩ := told
              exact ⟨Text.occursIn_iff.1 marked, line, inside, stack, about, read⟩
            | progress | warning | success | fields | fieldsError => cases told

end Answers

/-- The report of a package on which its worker has given up. -/
structure Reports (failure : Failure) (item : PackageReport) : Prop where
  failed : item.state = .failed
  error : item.error = some failure.message
  benign : item.benign = true ↔ failure.isNotAnArchive = true ∨ ∃ name ∈ failure.names, BearsMark name

theorem reports_outcome (failure : Failure) (artifact : Artifact) :
    Reports failure (Finished.report ⟨artifact, failure.outcome⟩) where
  failed := rfl
  error := rfl
  benign := Text.occursIn_iff.trans failure.bearsMark_message_iff

/-- The failures that count. -/
def Report.hardFailures (report : Report) : List PackageReport := report.failures.filter fun item => !item.benign

/-- What the report of a package says about a failure. -/
structure Judges (begun : Begun) (contact : Contact) (item : PackageReport) : Prop where
  reports : item.artifact ∈ begun.remaining →
    ∀ failure, GivesUp failure item.artifact.path contact → Reports failure item
  marked : item.benign = true → item.artifact ∈ begun.remaining ∧ ∃ message, item.error = some message ∧
    BearsMark message ∧ ∃ line ∈ contact.lines, ∃ stack about, Json.reply? line = some (.error message stack about)

section Flights

variable {coordinator : Coordinator} {store : Store} {tree : FileTree} {begun : Begun} {flight : Flight}
  {contacts : Artifact → Contact} {artifact : Artifact}

theorem reportOf_landed (begins : begin? coordinator store tree = some begun) (underway : Underway begun flight)
    (lands : flight.Landed begun contacts) (given : artifact ∈ begun.remaining) :
    reportOf begun.skipped flight.run.finished artifact =
      Finished.report ⟨artifact, (contacts artifact).outcome artifact.path⟩ := by
  have accounts := underway.accounts ((distinct_of_begin? begins).sublist (List.filter_sublist.map _))
  obtain ⟨-, balanced⟩ := accounts.busy artifact _ (lands artifact given)
  have notSkipped : artifact ∉ begun.skipped := by
    intro skips
    exact (mem_skipped_iff begins (List.mem_of_mem_filter given)).1 skips given
  exact reportOf_given notSkipped (by simpa using balanced.finished)

theorem exists_landed (begun : Begun) (contacts : Artifact → Contact) :
    ∃ flight, Underway begun flight ∧ flight.Landed begun contacts := by
  refine Underway.idle.lands fun artifact task busy => ?_
  simp [Flight.idle] at busy

theorem judges_landed (begins : begin? coordinator store tree = some begun) (underway : Underway begun flight)
    (lands : flight.Landed begun contacts) (inside : artifact ∈ begun.artifacts) :
    Judges begun (contacts artifact) (reportOf begun.skipped flight.run.finished artifact) := by
  by_cases given : artifact ∈ begun.remaining
  · rw [reportOf_landed begins underway lands given]
    constructor
    · intro _ failure gives
      rw [Finished.report_artifact] at gives
      rw [gives.outcome]
      exact reports_outcome failure artifact
    · intro benign
      rw [Finished.report_artifact]
      refine ⟨given, ?_⟩
      cases outcome : (contacts artifact).outcome artifact.path with
      | succeeded symbols procedures =>
        rw [outcome] at benign
        cases benign
      | failed message marked =>
        rw [outcome] at benign
        cases (show marked = true from benign)
        exact ⟨message, rfl, exists_message_of_benign outcome⟩
  · have skips := (mem_skipped_iff begins inside).2 given
    rw [reportOf, if_pos (List.contains_iff_mem.2 skips)]
    refine ⟨fun given' => absurd given' given, fun benign => ?_⟩
    cases benign

theorem outcome_of_mem_foldl {program : Program} {options : ProcessOptions} {order : List Artifact} {run : Run}
    {item : Finished} (member : item ∈ (order.foldl (Run.process program options) run).finished) :
    item ∈ run.finished ∨ ∃ seen, item.outcome = (consult program item.artifact.path options seen).outcome := by
  induction order generalizing run with
  | nil => exact .inl member
  | cons artifact order ih =>
    rcases ih member with now | later
    · refine (List.mem_append.1 now).imp_right fun last => ?_
      obtain rfl := List.mem_singleton.1 last
      exact ⟨run.tree, rfl⟩
    · exact .inr later

/-- With workers that run the request loop, a package that is not skipped is reported as its files tell. -/
theorem reportOf_consulted (begins : begin? coordinator store tree = some begun)
    (loops : begun.coordinator.program = .requestLoop) (inside : artifact ∈ begun.artifacts) :
    let item := reportOf begun.skipped (begun.consultAll begun.remaining).finished artifact
    item.state = .skipped ∨ ∃ seen, match failure? artifact.path begun.coordinator.processOptions seen with
      | some failure => Reports failure item
      | none => item.state = .succeeded := by
  intro item
  by_cases skips : artifact ∈ begun.skipped
  · exact .inl (by simp only [item, reportOf, List.contains_iff_mem.2 skips, if_true])
  · right
    have given : artifact ∈ begun.remaining := Classical.not_not.1 (mt (mem_skipped_iff begins inside).2 skips)
    rw [← consultAll_artifacts begun begun.remaining] at given
    obtain ⟨finished, done, rfl⟩ := List.mem_map.1 given
    have distinct : ((begun.consultAll begun.remaining).finished.map Finished.artifact).Nodup := by
      rw [consultAll_artifacts]
      exact (List.Nodup.of_map _ (distinct_of_begin? begins)).filter _
    have report : item = finished.report := by
      simp only [item, reportOf, List.contains_iff_mem, skips, if_false, find?_artifact distinct done]
    obtain old | ⟨seen, outcome⟩ := outcome_of_mem_foldl done
    · cases old
    · refine ⟨seen, ?_⟩
      have known := outcome_requestLoop finished.artifact.path begun.coordinator.processOptions seen
      rw [report]
      rw [loops] at outcome
      obtain ⟨artifact, result⟩ := finished
      cases found : failure? artifact.path begun.coordinator.processOptions seen with
      | some failure =>
        rw [found] at known
        obtain rfl : result = failure.outcome := outcome.trans known
        exact reports_outcome failure artifact
      | none =>
        rw [found] at known
        obtain ⟨symbols, procedures, succeeded⟩ := known
        obtain rfl : result = .succeeded symbols procedures := outcome.trans succeeded
        rfl

end Flights

end Refresh

namespace Command

open Refresh hiding refresh

variable {environment : Environment} {dir : Path} {console : Console} {project : Project}

theorem load_eq_ok (loads : (Project.load environment dir console).1 = .ok project) :
    Project.load environment dir console = (.ok project, console) := by
  have kept : (Project.load environment dir console).2 = console := by
    rw [Project.load, bind_apply]
    show ((if _ then _ else _ : Script Project) console).2 = console
    split <;> rfl
  exact Prod.ext loads kept

theorem exists_load (environment : Environment) (there : console.tree.isDirectory dir = true) :
    ∃ project, (Project.load environment dir console).1 = .ok project := by
  rw [Project.load, bind_apply]
  show ∃ project, ((if !console.tree.isDirectory dir then _ else _ : Script Project) console).1 = .ok project
  rw [there]
  exact ⟨_, rfl⟩

theorem forM_say (line : PackageReport → String) (items : List PackageReport) (console : Console) :
    ∃ after, (items.forM fun item => Script.say (line item)) console = (.ok (), after) := by
  induction items generalizing console with
  | nil => exact ⟨console, rfl⟩
  | cons item items ih =>
    show ∃ after, (Script.say (line item) >>= fun _ => items.forM fun item => Script.say (line item)) console = _
    rw [bind_apply]
    exact ih _

theorem describeRefresh_ok (report : Refresh.Report) (console : Console) :
    ∃ after, describeRefresh report console = (.ok (), after) := by
  unfold describeRefresh
  rw [bind_apply]
  dsimp only [Script.emit]
  exact forM_say failureLine report.failures _

theorem refresh_of_load (loads : (Project.load environment dir console).1 = .ok project) :
    ∃ report, (Refresh.refresh project.coordinator (Store.openAt project.options.cacheDir console.tree)
        console.tree).report = some report ∧
      (refresh environment dir console).1 =
        if 0 < report.hardFailures.length then
          .error [toString report.hardFailures.length ++ " packages failed to refresh"]
        else .ok () := by
  obtain ⟨report, reported⟩ : ∃ report, (Refresh.refresh project.coordinator
    (Store.openAt project.options.cacheDir console.tree) console.tree).report = some report := ⟨_, rfl⟩
  refine ⟨report, reported, ?_⟩
  obtain ⟨concluded, ends⟩ : ∃ concluded, refresh environment dir console =
      (do
        describeRefresh report
        if 0 < report.hardFailures.length then
          Script.fail (toString report.hardFailures.length ++ " packages failed to refresh")) concluded := by
    unfold refresh
    rw [bind_apply, load_eq_ok loads]
    cases reported
    exact ⟨_, rfl⟩
  obtain ⟨after, described⟩ := describeRefresh_ok report concluded
  rw [ends, bind_apply, described]
  dsimp only
  split <;> rfl

/-- A worker gives up on a package for one of the known reasons. Its failure is reported as benign if the file is no
archive, or if a path, a file name or a reason in its message bears the mark, whatever else has gone wrong. Nothing else is
benign, and the command fails if there is a failure that is not. -/
theorem benign_iff_marked (verdict : Nat → Worker.Verdict) (path : Path) (options : ProcessOptions)
    (session : Worker.Session) (coordinator : Coordinator) (store : Store) (tree : FileTree) (environment : Environment)
    (dir : Path) (console : Console) :
    (∀ fault after, Worker.processPackage verdict path options session = (.error fault, after) →
      ∃ failure : Failure, failure.fault = fault) ∧
    (∀ begun flight contacts, begin? coordinator store tree = some begun → Underway begun flight →
      flight.Landed begun contacts →
      ∃ report, (begun.result flight.run).report = some report ∧
        ∀ item ∈ report.artifacts, Judges begun (contacts item.artifact) item) ∧
    ∀ project, (Project.load environment dir console).1 = .ok project →
      ∃ report, (Refresh.refresh project.coordinator (Store.openAt project.options.cacheDir console.tree)
          console.tree).report = some report ∧
        (∀ item ∈ report.artifacts, item.state = .skipped ∨
          ∃ seen, match failure? item.artifact.path project.coordinator.processOptions seen with
            | some failure => Reports failure item
            | none => item.state = .succeeded) ∧
        (refresh environment dir console).1 =
          if 0 < report.hardFailures.length then
            .error [toString report.hardFailures.length ++ " packages failed to refresh"]
          else .ok () := by
  refine ⟨Failing.processPackage path options session, ?_, ?_⟩
  · intro begun flight contacts begins underway lands
    refine ⟨_, rfl, fun item member => ?_⟩
    obtain ⟨artifact, inside, rfl⟩ := List.mem_map.1 member
    rw [artifact_reportOf]
    exact judges_landed begins underway lands inside
  · intro project loads
    obtain ⟨report, reported, ended⟩ := refresh_of_load loads
    refine ⟨report, reported, fun item member => ?_, ended⟩
    obtain ⟨begun, begins⟩ : ∃ begun, begin? project.coordinator
      (Store.openAt project.options.cacheDir console.tree) console.tree = some begun := ⟨_, rfl⟩
    have same : begun.coordinator.program = .requestLoop ∧
        begun.coordinator.processOptions = project.coordinator.processOptions := by
      cases begins
      exact ⟨rfl, rfl⟩
    rw [Refresh.refresh, refreshIn_eq_result begins] at reported
    cases reported
    obtain ⟨artifact, inside, rfl⟩ := List.mem_map.1 member
    rw [artifact_reportOf, ← same.2]
    exact reportOf_consulted begins same.1 inside

/-- A directory with the words in its name, and in it a package with an entry that cannot be unpacked. -/
def misnamedFolder : FileTree :=
  ⟨[(["is not a valid archive"], .directory), (["is not a valid archive", "P_A_1.app"],
    .file (Archive.render [{ Archive.Entry.stored "src/A.al" [120] with method := 12 }]) 1000)], [], 5000⟩

def oddPackage : Artifact := ⟨"/is not a valid archive/P_A_1.app", "A", "1", true⟩

def misnamedCoordinator : Coordinator :=
  .new ⟨{}, ["/is not a valid archive"], "/c", "/t", "/s", false, true, "warn"⟩ .requestLoop

private theorem failure?_oddPackage : failure? oddPackage.path misnamedCoordinator.processOptions misnamedFolder =
    some (.extraction (.unsupported oddPackage.path .unsupportedMethod)) := by
  decide +kernel

private theorem begins_misnamed : ∃ begun, begin? misnamedCoordinator (.new "/c") misnamedFolder = some begun ∧
    begun.remaining = [oddPackage] := ⟨_, rfl, by decide +kernel⟩

theorem unsupported_archive_passes_as_benign :
    (∃ fault after, Worker.processPackage Worker.always oddPackage.path misnamedCoordinator.processOptions
      (.start misnamedFolder) = (.error fault, after) ∧ ∃ failure : Failure, failure.fault = fault) ∧
    (∃ begun flight report item, begin? misnamedCoordinator (.new "/c") misnamedFolder = some begun ∧
      Underway begun flight ∧ (begun.result flight.run).report = some report ∧ item ∈ report.artifacts ∧
      Reports (.extraction (.unsupported oddPackage.path .unsupportedMethod)) item ∧ item.benign = true) ∧
    ∃ project report, (Project.load ⟨"/t"⟩ "/is not a valid archive" ⟨misnamedFolder, [], []⟩).1 = .ok project ∧
      (Refresh.refresh project.coordinator (Store.openAt project.options.cacheDir misnamedFolder) misnamedFolder).report =
        some report ∧
      ((refresh ⟨"/t"⟩ "/is not a valid archive" ⟨misnamedFolder, [], []⟩).1 = .ok () ↔ report.hardFailures = []) := by
  obtain ⟨reasons, judges, ends⟩ := benign_iff_marked Worker.always oddPackage.path misnamedCoordinator.processOptions
    (.start misnamedFolder) misnamedCoordinator (.new "/c") misnamedFolder ⟨"/t"⟩ "/is not a valid archive"
    ⟨misnamedFolder, [], []⟩
  refine ⟨?_, ?_, ?_⟩
  · obtain ⟨after, ran⟩ := exists_fault_of_failure? failure?_oddPackage
    exact ⟨_, after, ran, reasons _ _ ran⟩
  · obtain ⟨begun, begins, given⟩ := begins_misnamed
    have remains : oddPackage ∈ begun.remaining := given ▸ List.mem_singleton_self _
    obtain ⟨flight, underway, lands⟩ := exists_landed begun fun artifact =>
      .ofProgram .requestLoop artifact.path misnamedCoordinator.processOptions misnamedFolder
    obtain ⟨report, reported, judged⟩ := judges _ _ _ begins underway lands
    have listed : reportOf begun.skipped flight.run.finished oddPackage ∈ report.artifacts := by
      cases reported
      exact List.mem_map_of_mem (List.mem_of_mem_filter remains)
    have named := artifact_reportOf begun.skipped flight.run.finished oddPackage
    generalize reportOf begun.skipped flight.run.finished oddPackage = item at listed named
    have reports := (judged item listed).reports
    rw [named] at reports
    have unsupported := reports remains _ (.found failure?_oddPackage)
    refine ⟨begun, flight, report, item, begins, underway, reported, listed, unsupported, ?_⟩
    have marked : BearsMark oddPackage.path := Text.occursIn_iff.1 (by decide +kernel)
    exact unsupported.benign.2 (.inr ⟨oddPackage.path, List.mem_singleton_self _, marked⟩)
  · have there : misnamedFolder.isDirectory "/is not a valid archive" = true := by decide +kernel
    obtain ⟨project, loads⟩ : ∃ project,
        (Project.load ⟨"/t"⟩ "/is not a valid archive" ⟨misnamedFolder, [], []⟩).1 = .ok project := exists_load ⟨"/t"⟩ there
    obtain ⟨report, reported, -, ended⟩ := ends _ loads
    refine ⟨project, report, loads, reported, ?_⟩
    rw [ended]
    cases report.hardFailures <;> simp

end Command

end SymbolCache
