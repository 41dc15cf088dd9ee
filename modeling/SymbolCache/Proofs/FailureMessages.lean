import SymbolCache.Proofs.ExcludedDirectories
import SymbolCache.Proofs.FileActions
import SymbolCache.Worker.Loop

/-! What a worker says when it gives up on a package. The words that mark a file that is no archive stand in the message of
every such failure, and in that of any other failure exactly if a name in it brings them along. -/

namespace SymbolCache

namespace Text

variable {needle front back text : List Char}

theorem prefix_append_cons_iff {c : Char} (absent : c ∉ needle) : needle <+: front ++ c :: back ↔ needle <+: front := by
  induction front generalizing needle with
  | nil =>
    cases needle with
    | nil => simp
    | cons d needle =>
      rw [List.nil_append, List.cons_prefix_cons, List.prefix_nil]
      exact iff_of_false (fun start => absent (start.1 ▸ List.mem_cons_self ..)) (List.cons_ne_nil d needle)
  | cons d front ih =>
    cases needle with
    | nil => simp
    | cons e needle =>
      have later : c ∉ needle := fun inside => absent (List.mem_cons_of_mem e inside)
      rw [List.cons_append, List.cons_prefix_cons, List.cons_prefix_cons, ih later]

/-- What stands before and behind a character that is not searched for is searched on its own. -/
theorem infix_append_cons_iff {c : Char} (absent : c ∉ needle) :
    needle <:+: front ++ c :: back ↔ needle <:+: front ∨ needle <:+: back := by
  induction front with
  | nil =>
    have start : needle <+: [] ++ c :: back ↔ needle <+: [] := prefix_append_cons_iff absent
    rw [List.nil_append, List.prefix_nil] at start
    rw [List.nil_append, List.infix_cons_iff, start, List.infix_nil]
  | cons d front ih =>
    rw [List.cons_append, List.infix_cons_iff, ← List.cons_append, prefix_append_cons_iff absent, ih, List.infix_cons_iff,
      or_assoc]

/-- No occurrence of the needle begins in this text, whatever comes after it. -/
def beginsNever (needle : List Char) : List Char → Bool
  | [] => true
  | c :: rest => !(needle.isPrefixOf (c :: rest) || (c :: rest).isPrefixOf needle) && beginsNever needle rest

theorem infix_append_iff_of_beginsNever (never : beginsNever needle front = true) :
    needle <:+: front ++ text ↔ needle <:+: text := by
  induction front with
  | nil => rfl
  | cons c front ih =>
    rw [beginsNever, Bool.and_eq_true, Bool.not_eq_true', Bool.or_eq_false_iff, ← Bool.not_eq_true, ← Bool.not_eq_true,
      List.isPrefixOf_iff_prefix, List.isPrefixOf_iff_prefix] at never
    obtain ⟨⟨longer, shorter⟩, rest⟩ := never
    rw [List.cons_append, List.infix_cons_iff, ih rest, or_iff_right]
    intro start
    rcases List.prefix_or_prefix_of_prefix start (List.prefix_append (c :: front) text) with whole | part
    · exact longer whole
    · exact shorter part

theorem infix_append_iff_of_endsNever (never : beginsNever needle.reverse back.reverse = true) :
    needle <:+: text ++ back ↔ needle <:+: text := by
  rw [← List.reverse_infix, List.reverse_append, infix_append_iff_of_beginsNever never, List.reverse_infix]

end Text

/-- The words that mark a file that is no archive stand in a text. -/
def BearsMark (text : String) : Prop := ExtractionError.notAnArchiveMark.toList <:+: text.toList

section Messages

theorem bearsMark_colon_iff {front back : String} :
    BearsMark (front ++ ": " ++ back) ↔ BearsMark front ∨ BearsMark back := by
  have whole : (front ++ ": " ++ back).toList = front.toList ++ ':' :: ([' '] ++ back.toList) := by simp
  rw [BearsMark, whole, Text.infix_append_cons_iff (by decide +kernel),
    Text.infix_append_iff_of_beginsNever (by decide +kernel)]
  rfl

theorem bearsMark_append_iff {front text : String}
    (never : Text.beginsNever ExtractionError.notAnArchiveMark.toList front.toList = true) :
    BearsMark (front ++ text) ↔ BearsMark text := by
  rw [BearsMark, String.toList_append, Text.infix_append_iff_of_beginsNever never]
  rfl

theorem bearsMark_append_iff' {back text : String}
    (never : Text.beginsNever ExtractionError.notAnArchiveMark.toList.reverse back.toList.reverse = true) :
    BearsMark (text ++ back) ↔ BearsMark text := by
  rw [BearsMark, String.toList_append, Text.infix_append_iff_of_endsNever never]
  rfl

theorem chainText_singleton (message : String) : Worker.chainText [message] = message := String.intercalate_singleton

theorem bearsMark_chainText_iff (message : String) {causes : List String} (present : causes ≠ []) :
    BearsMark (Worker.chainText (message :: causes)) ↔ BearsMark message ∨ BearsMark (Worker.chainText causes) := by
  obtain ⟨cause, causes, rfl⟩ := List.exists_cons_of_ne_nil present
  rw [Worker.chainText, String.intercalate_cons_cons]
  exact bearsMark_colon_iff

theorem not_bearsMark_fileError (cause : FileError) : ¬ BearsMark cause.message := by
  rw [BearsMark, ← Text.occursIn_iff]
  cases cause <;> decide +kernel

theorem not_bearsMark_archiveError (cause : Archive.Error) : ¬ BearsMark cause.message := by
  rw [BearsMark, ← Text.occursIn_iff]
  cases cause <;> decide +kernel

/-- The path that an error is about. -/
def ExtractionError.path : ExtractionError → Path
  | .file path _ | .notAnArchive path _ | .unsupported path _ => path

def Source.CatalogError.path : Source.CatalogError → Path
  | .noMetadata path | .unreadable path _ | .notADocument path => path

theorem not_bearsMark_causeMessage (cause : ExtractionError) : ¬ BearsMark cause.causeMessage := by
  cases cause with
  | file path cause => exact not_bearsMark_fileError cause
  | notAnArchive path cause | unsupported path cause => exact not_bearsMark_archiveError cause

theorem bearsMark_extractionError_iff (cause : ExtractionError) :
    BearsMark cause.message ↔ cause.isBenign = true ∨ BearsMark cause.path := by
  have split {front back : String} (plain : ¬ BearsMark back) : BearsMark (front ++ ": " ++ back) ↔ BearsMark front :=
    bearsMark_colon_iff.trans (or_iff_left plain)
  cases cause with
  | file path cause =>
    refine (split (not_bearsMark_fileError cause)).trans ((bearsMark_append_iff (by decide +kernel)).trans ?_)
    exact (or_iff_right Bool.false_ne_true).symm
  | unsupported path cause =>
    refine (split (not_bearsMark_archiveError cause)).trans ((bearsMark_append_iff (by decide +kernel)).trans ?_)
    exact (or_iff_right Bool.false_ne_true).symm
  | notAnArchive path cause =>
    refine iff_of_true ((split (not_bearsMark_archiveError cause)).2 ?_) (.inl rfl)
    exact ⟨(path ++ " ").toList, [], by rw [List.append_nil, ← String.toList_append]⟩

theorem bearsMark_catalogError_iff (cause : Source.CatalogError) :
    BearsMark (Worker.chainText cause.chain) ↔ BearsMark cause.path := by
  cases cause with
  | noMetadata path =>
    rw [Source.CatalogError.chain, chainText_singleton]
    exact bearsMark_append_iff (by decide +kernel)
  | notADocument path =>
    rw [Source.CatalogError.chain, chainText_singleton]
    exact bearsMark_append_iff' (by decide +kernel)
  | unreadable path cause =>
    rw [Source.CatalogError.chain, bearsMark_chainText_iff _ (List.cons_ne_nil _ _), chainText_singleton,
      or_iff_left (not_bearsMark_fileError cause)]
    exact bearsMark_append_iff (by decide +kernel)

end Messages

namespace Refresh

open Worker

/-- Why a worker gives up on a package. -/
inductive Failure where
  | extraction (cause : ExtractionError)
  | metadata (fileName : String) (cause : Source.CatalogError)
  /-- A message of the worker is refused. -/
  | refusal (reason : String)
  /-- The worker breaks off; the text says why, if there is one. -/
  | panic (reason : Option String)
  deriving DecidableEq, Repr

namespace Failure

def fault : Failure → Fault
  | .extraction cause => .error cause.chain
  | .metadata fileName cause => .error (("Failed to read metadata from " ++ fileName) :: cause.chain)
  | .refusal reason => .error (refusalChain reason)
  | .panic reason => .broken reason

/-- The message by which a worker tells of the failure. -/
def message (failure : Failure) : String :=
  match failure.fault with
  | .error chain => chainText chain
  | .broken reason => "Worker panicked: " ++ reason.getD "unknown panic"

/-- Whether the file is no archive. -/
def isNotAnArchive : Failure → Bool
  | .extraction cause => cause.isBenign
  | .metadata .. | .refusal _ | .panic _ => false

/-- What the message takes from elsewhere: paths, file names, and the reason of a refusal or a panic. -/
def names : Failure → List String
  | .extraction cause => [cause.path]
  | .metadata fileName cause => [fileName, cause.path]
  | .refusal reason => [reason]
  | .panic reason => reason.toList

theorem exists_terminalReply (failure : Failure) (path : Path) :
    ∃ stack, terminalReply path (.error failure.fault) = .error failure.message stack (some path) := by
  unfold message
  cases failure.fault with
  | error chain => exact ⟨_, rfl⟩
  | broken reason => exact ⟨_, rfl⟩

/-- The words stand in the message of a file that is no archive, and else only in a name. -/
theorem bearsMark_message_iff (failure : Failure) :
    BearsMark failure.message ↔ failure.isNotAnArchive = true ∨ ∃ name ∈ failure.names, BearsMark name := by
  cases failure with
  | extraction cause =>
    refine (bearsMark_chainText_iff cause.message (List.cons_ne_nil cause.causeMessage [])).trans ?_
    rw [chainText_singleton, or_iff_left (not_bearsMark_causeMessage cause), bearsMark_extractionError_iff]
    simp [isNotAnArchive, names]
  | metadata fileName cause =>
    have present : cause.chain ≠ [] := by cases cause <;> exact List.cons_ne_nil _ _
    have front : BearsMark ("Failed to read metadata from " ++ fileName) ↔ BearsMark fileName :=
      bearsMark_append_iff (by decide +kernel)
    refine (bearsMark_chainText_iff _ present).trans ?_
    rw [front, bearsMark_catalogError_iff]
    simp [isNotAnArchive, names]
  | refusal reason =>
    have front : BearsMark ("JSON error: " ++ reason) ↔ BearsMark reason := bearsMark_append_iff (by decide +kernel)
    refine (bearsMark_chainText_iff _ (List.cons_ne_nil reason [])).trans ?_
    rw [front, chainText_singleton, or_self]
    simp [isNotAnArchive, names]
  | panic reason =>
    refine (bearsMark_append_iff (by decide +kernel)).trans ?_
    cases reason with
    | none =>
      have plain : ¬ BearsMark "unknown panic" := by
        rw [BearsMark, ← Text.occursIn_iff]
        decide +kernel
      simpa [isNotAnArchive, names] using plain
    | some reason => simp [isNotAnArchive, names]

end Failure

/-- A step that fails only for one of these reasons. -/
def Failing {α : Type} (step : Step Fault α) : Prop :=
  ∀ session fault after, step session = (.error fault, after) → ∃ failure : Failure, failure.fault = fault

namespace Failing

variable {α β : Type} {verdict : Nat → Verdict}

theorem pure (value : α) : Failing (Pure.pure value) := nofun

theorem throw (failure : Failure) : Failing (MonadExcept.throw failure.fault : Step Fault α) := by
  rintro session fault after ⟨⟩
  exact ⟨failure, rfl⟩

theorem note (entries : List LogEntry) : Failing (note entries) := nofun

theorem attempt {ε : Type} (action : FileAction ε α) : Failing (attempt action) := nofun

theorem get : Failing (MonadState.get : Step Fault Session) := nofun

theorem bind {step : Step Fault α} {next : α → Step Fault β} (first : Failing step)
    (rest : ∀ value, Failing (next value)) : Failing (step >>= next) := by
  intro session fault after ends
  rw [bind_apply] at ends
  rcases ran : step session with ⟨cause | value, middle⟩ <;> rw [ran] at ends
  · cases ends
    exact first session fault after ran
  · exact rest value middle fault after ends

theorem onFiles {ε : Type} {wrap : ε → Fault} (action : FileAction ε α)
    (wrapped : ∀ cause, ∃ failure : Failure, failure.fault = wrap cause) : Failing (onFiles wrap action) := by
  refine .bind (.attempt action) fun result => ?_
  cases result with
  | ok value => exact .pure value
  | error cause =>
    obtain ⟨failure, same⟩ := wrapped cause
    dsimp only
    rw [← same]
    exact .throw failure

theorem cleaningUp {step : Step Fault α} (failing : Failing step) (cleanup : FileAction Fault Unit) :
    Failing (cleaningUp step cleanup) := by
  intro session fault after ends
  rcases ran : step session with ⟨result, middle⟩
  have same : result = .error fault := by simpa [Worker.cleaningUp, ran] using congrArg Prod.fst ends
  exact failing session fault middle (ran.trans (same ▸ rfl))

theorem send (reply : Reply) : Failing (send verdict reply) := by
  unfold Worker.send
  refine .bind nofun fun answer => ?_
  cases answer with
  | accepted => exact .pure ()
  | refused reason => exact .throw (.refusal reason)
  | broken reason => exact .throw (.panic reason)

theorem reportCopy (run : CopyRun) (relative : Path) : Failing (reportCopy verdict run relative) := by
  unfold Worker.reportCopy
  split
  · exact .pure _
  · refine .bind nofun fun answer => ?_
    cases answer with
    | accepted | refused => exact .pure _
    | broken reason => exact .throw (.panic reason)

theorem copyAll (path dest : Path) (run : CopyRun) (entries : List Archive.Entry) :
    Failing (copyAll verdict path dest run entries) := by
  induction entries generalizing run with
  | nil => exact .pure _
  | cons entry rest ih =>
    unfold Worker.copyAll
    refine .bind (.attempt _) fun result => ?_
    split
    · exact .pure _
    · exact ih run
    · exact .bind (.reportCopy run _) fun reported => ih reported

theorem copySources (path dest : Path) (fileName : String) (entries : List Archive.Entry) :
    Failing (copySources verdict path dest fileName entries) := by
  unfold Worker.copySources
  split
  · exact .bind (.note _) fun _ => .send _
  · refine .bind (.copyAll _ _ _ _) fun (run, failure) => ?_
    dsimp -zeta only
    extract_lets last
    have ends : Failing (last ()) := by
      simp only [last]
      split
      · exact .throw (.refusal _)
      · exact .send _
      · exact .bind (.note _) fun _ => .send _
    split
    · exact .bind (.note _) fun _ => ends
    · exact ends

/-- The processing of a package ends early only for one of these reasons, whatever becomes of its messages. -/
theorem processPackage (path : Path) (options : ProcessOptions) : Failing (processPackage verdict path options) := by
  unfold Worker.processPackage
  refine .bind (.send _) fun _ => .bind (.onFiles _ fun cause => ⟨.extraction cause, rfl⟩) fun unpacked => ?_
  refine .cleaningUp (.bind (.note _) fun _ => ?_) _
  extract_lets reading
  have reads : Failing (reading ()) := by
    refine .bind (.send _) fun _ => .bind .get fun session => .bind (.note _) fun _ => ?_
    split
    · exact .bind (.note _) fun _ => .pure _
    · exact .throw (.metadata _ _)
  split
  · exact .bind (.copySources _ _ _ _) fun _ => reads
  · exact reads

end Failing

end Refresh

end SymbolCache
