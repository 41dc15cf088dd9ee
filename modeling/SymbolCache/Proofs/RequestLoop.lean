import SymbolCache.Proofs.PackageAnswers

/-! The request loop of a worker answers line by line. Each line has a block of messages of its own, in the order of
the lines, and every package that is asked for ends with exactly one success or error, whatever fails on the way. -/

namespace SymbolCache.Worker

inductive Input where
  | blank
  | invalid
  | request (asked : Request)
  deriving DecidableEq, Repr

namespace Input

def ofLine (line : List Char) : Input :=
  if (Text.trim line).isEmpty then .blank
  else match Json.request? line with
    | none => .invalid
    | some asked => .request asked

def isProcess : Input → Bool
  | .request (.process ..) => true
  | _ => false

def isInvalid : Input → Bool
  | .invalid => true
  | _ => false

end Input

/-- The end of a package: a success or an error, with its path. -/
inductive Ends (path : Path) : Reply → Prop where
  | success (symbols : List ObjectRecord) (procedures : Dict (List ProcedureRecord)) :
    Ends path (.success symbols procedures path)
  | error (message : String) (stack : Option String) : Ends path (.error message stack (some path))

inductive AnswersFields : Reply → Prop where
  | fields (index : FieldIndex) : AnswersFields (.fields index)
  | fieldsError (message : String) : AnswersFields (.fieldsError message)

/-- At most one message of progress. -/
inductive Brief : List Reply → Prop where
  | nothing : Brief []
  | progress (message : String) : Brief [.progress message]

/-- What a worker writes in answer to one line. -/
inductive Block : Input → List Reply → Prop where
  | blank : Block .blank []
  | invalid (message : String) (stack : Option String) : Block .invalid [.error message stack none]
  | setLogLevel (level : String) : Block (.request (.setLogLevel level)) []
  | process {path : Path} {options : ProcessOptions} {notices : List Reply} {last : Reply}
    (quiet : ∀ reply ∈ notices, IsNotice reply) (ends : Ends path last) :
    Block (.request (.process path options)) (notices ++ [last])
  | updateFields {options : FieldOptions} {notices : List Reply} {last : Reply} (brief : Brief notices)
    (answers : AnswersFields last) : Block (.request (.updateFields options)) (notices ++ [last])

def Writes (step : Step Fault Unit) (session : Session) (block : List Reply) : Prop :=
  (step session).1 = .ok () ∧ (step session).2.written = session.written ++ block

namespace Writes

variable {α : Type} {session after : Session} {step : Step Fault α} {next : α → Step Fault Unit} {value : α}
  {early late : List Reply}

theorem send (reply : Reply) (session : Session) : Writes (send always reply) session [reply] := ⟨rfl, rfl⟩

theorem bind (ran : step session = (.ok value, after)) (written : after.written = session.written ++ early)
    (rest : Writes (next value) after late) : Writes (step >>= next) session (early ++ late) := by
  unfold Writes
  rw [bind_apply, ran, ← List.append_assoc, ← written]
  exact rest

theorem silent (ran : step session = (.ok value, after)) (written : after.written = session.written)
    (rest : Writes (next value) after late) : Writes (step >>= next) session late :=
  Writes.bind ran (written.trans (List.append_nil _).symm) rest

theorem changing {next : Unit → Step Fault Unit} {change : Session → Session}
    (written : (change session).written = session.written) (rest : Writes (next ()) (change session) late) :
    Writes (modify change >>= next) session late := silent rfl written rest

theorem reading {next : Session → Step Fault Unit} (rest : Writes (next session) session late) :
    Writes (get >>= next) session late := silent rfl rfl rest

theorem noting {next : Unit → Step Fault Unit} {entries : List LogEntry}
    (rest : Writes (next ()) (session.record entries) late) : Writes (note entries >>= next) session late :=
  silent rfl rfl rest

end Writes

theorem writes_handleFields (options : FieldOptions) (session : Session) : ∃ notices, Brief notices ∧
    Writes (handleFields always options) session (notices ++ [.fields (FieldIndex.update session.tree (fieldRoot options)
      (FieldIndex.load session.tree options.globalStoragePath)).1]) := by
  unfold handleFields
  generalize found : FieldIndex.update session.tree (fieldRoot options)
    (FieldIndex.load session.tree options.globalStoragePath) = result
  obtain ⟨index, stats⟩ := result
  let message := "Field index: " ++ toString stats.parsed ++ " files parsed, " ++ toString stats.removed ++ " removed"
  by_cases told : stats.changed = true
  · refine ⟨[.progress message], .progress message, ?_⟩
    refine .changing rfl (.reading (.noting (.noting ?_)))
    rw [show FieldIndex.update _ _ _ = _ from found]
    simp only [told, if_true]
    exact .bind rfl rfl (.send _ _)
  · refine ⟨[], .nothing, ?_⟩
    refine .changing rfl (.reading (.noting (.noting ?_)))
    rw [show FieldIndex.update _ _ _ = _ from found]
    simp only [told]
    exact .send _ _

theorem ends_terminalReply (path : Path) (outcome : Except Fault SymbolTable) : Ends path (terminalReply path outcome) := by
  rcases outcome with (chain | reason) | table
  · exact .error _ _
  · exact .error _ _
  · exact .success _ _

theorem writes_handleProcess (path : Path) (options : ProcessOptions) (session : Session) :
    ∃ notices last, (∀ reply ∈ notices, IsNotice reply) ∧ Ends path last ∧
      Writes (handleProcess always path options) session (notices ++ [last]) := by
  obtain ⟨notices, -, written, quiet⟩ :=
    leads_processPackage path options { session with level := .parse options.logLevel }
  refine ⟨notices, _, quiet, ends_terminalReply path
    (processPackage always path options { session with level := .parse options.logLevel }).1, rfl, ?_⟩
  rw [← List.append_assoc]
  exact congrArg (· ++ _) written

/-- Every line is answered with a block of its own, whatever was asked before. -/
theorem writes_handleLine (line : List Char) (session : Session) :
    ∃ block, Block (.ofLine line) block ∧ Writes (handleLine always line) session block := by
  unfold Input.ofLine handleLine
  split
  · exact ⟨[], .blank, rfl, (List.append_nil _).symm⟩
  · cases Json.request? line with
    | none => exact ⟨_, .invalid _ _, .send _ session⟩
    | some asked =>
      cases asked with
      | process path options =>
        obtain ⟨notices, last, quiet, ends, writes⟩ := writes_handleProcess path options session
        exact ⟨_, .process quiet ends, writes⟩
      | updateFields options =>
        obtain ⟨notices, brief, writes⟩ := writes_handleFields options session
        exact ⟨_, .updateFields brief (.fields _), writes⟩
      | setLogLevel level => exact ⟨[], .setLogLevel level, rfl, (List.append_nil _).symm⟩

theorem writes_run (lines : List (List Char)) (session : Session) :
    ∃ blocks, List.Forall₂ (fun line block => Block (.ofLine line) block) lines blocks ∧
      Writes (run always lines) session blocks.flatten := by
  induction lines generalizing session with
  | nil => exact ⟨[], .nil, rfl, (List.append_nil _).symm⟩
  | cons line rest ih =>
    obtain ⟨block, answers, writes⟩ := writes_handleLine line session
    rcases ran : handleLine always line session with ⟨result, after⟩
    obtain ⟨blocks, others, writes'⟩ := ih after
    refine ⟨block :: blocks, .cons answers others, ?_⟩
    obtain ⟨done, written⟩ := writes
    rw [ran] at done written
    subst done
    exact .bind ran written writes'

theorem not_isTerminal_of_isNotice {reply : Reply} (notice : IsNotice reply) : reply.isTerminal = false := by
  cases notice <;> rfl

theorem countP_isTerminal {input : Input} {block : List Reply} (answers : Block input block) :
    block.countP Reply.isTerminal = input.isProcess.toNat + input.isInvalid.toNat := by
  cases answers with
  | blank => rfl
  | invalid message stack => rfl
  | setLogLevel level => rfl
  | @process _ _ notices _ quiet ends =>
    have none : notices.countP Reply.isTerminal = 0 :=
      List.countP_eq_zero.2 fun reply inside => by simp [not_isTerminal_of_isNotice (quiet reply inside)]
    rw [List.countP_append, none]
    cases ends <;> rfl
  | updateFields brief answers => cases brief <;> cases answers <;> rfl

/-- A worker whose messages are all taken writes, for every list of lines, one block a line in the order of the lines.
Terminal messages are as many as packages asked for and lines that are no requests. -/
theorem run_answers_each_line (lines : List (List Char)) (session : Session) :
    ∃ blocks, (run always lines session).1 = .ok () ∧
      (run always lines session).2.written = session.written ++ blocks.flatten ∧
      List.Forall₂ (fun line block => Block (.ofLine line) block) lines blocks ∧
      blocks.flatten.countP Reply.isTerminal = lines.countP (fun line => (Input.ofLine line).isProcess) +
        lines.countP fun line => (Input.ofLine line).isInvalid := by
  obtain ⟨blocks, answers, done, written⟩ := writes_run lines session
  refine ⟨blocks, done, written, answers, ?_⟩
  clear done written
  induction answers with
  | nil => rfl
  | @cons line block lines blocks first _ ih =>
    rw [List.flatten_cons, List.countP_append, ih, countP_isTerminal first, List.countP_cons, List.countP_cons]
    cases (Input.ofLine line).isProcess <;> cases (Input.ofLine line).isInvalid <;> simp <;> omega

end SymbolCache.Worker
