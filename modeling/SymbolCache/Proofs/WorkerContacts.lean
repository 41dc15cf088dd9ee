import SymbolCache.Proofs.MessageStreams

/-! The exchange with one worker, a line at a time. Whatever the worker does, the exchange comes to one outcome: that
of the first message that ends a package, or a failure. -/

namespace SymbolCache.Refresh

open Worker

/-- What a refresh gets to see of a worker. -/
inductive Contact where
  | unreachable (cause : WorkerError)
  /-- It writes lines and ends, with an exit code unless its output or its end cannot be waited for. -/
  | talks (lines : List (List Char)) (ending : Except WorkerError Nat)

inductive Phase where
  | talking (result : Option Outcome) (unread : List (List Char)) (ending : Except WorkerError Nat)
  | ended (outcome : Outcome)
  | done

structure Move where
  events : List Event
  finished : List Finished
  phase : Phase

def conclusion (result : Option Outcome) : Except WorkerError Nat → Outcome
  | .error cause => .failed cause.message false
  | .ok code =>
    let crash := WorkerError.crashed ("exited with " ++ Peer.exitText code ++ " before reporting a result")
    result.getD (.failed crash.message false)

def verdict (path : Path) (result : Option Outcome) (unread : List (List Char)) (ending : Except WorkerError Nat) :
    Outcome :=
  let heard := listen path ⟨[], result⟩ unread
  match heard.2 with
  | some cause => .failed cause.message false
  | none => conclusion heard.1.result ending

namespace Contact

def lines : Contact → List (List Char)
  | .unreachable _ => []
  | .talks lines _ => lines

def outcome (path : Path) : Contact → Outcome
  | .unreachable cause => .failed cause.message false
  | .talks lines ending => verdict path none lines ending

def opening : Contact → Phase
  | .unreachable cause => .ended (.failed cause.message false)
  | .talks lines ending => .talking none lines ending

def ofProgram (program : Program) (path : Path) (options : ProcessOptions) (tree : FileTree) : Contact :=
  match Peer.start program with
  | .error cause => .unreachable cause
  | .ok process =>
    match process.send (.process path options) tree with
    | (.error cause, _) => .unreachable cause
    | (.ok sent, _) => .talks sent.wait.2.unread (.ok sent.wait.1)

end Contact

def told? : Reply → Option Outcome
  | .success symbols procedures _ => some (.succeeded symbols procedures)
  | .error message _ _ => some (.failed message (isBenignMessage message))
  | .progress _ | .warning _ | .fields _ | .fieldsError _ => none

/-- A message of a worker that is passed on. -/
inductive Notice (path : Path) : Event → Prop where
  | progress (message : String) : Notice path (.progress path message)
  | warning (message : String) : Notice path (.warning path message)

section Listening

variable {path : Path} {lines : List (List Char)}

theorem hear_from (path : Path) (events : List Event) (result : Option Outcome) (reply : Reply) :
    Hearing.hear ⟨events, result⟩ path reply =
      ⟨events ++ (Hearing.hear ⟨[], result⟩ path reply).events, (Hearing.hear ⟨[], result⟩ path reply).result⟩ := by
  cases reply <;> simp [Hearing.hear]

theorem hear_result (hearing : Hearing) (path : Path) (reply : Reply) :
    (hearing.hear path reply).result = hearing.result.or (told? reply) := by
  cases reply <;> simp [Hearing.hear, told?]

theorem notice_of_mem_hear {result : Option Outcome} {reply : Reply} {event : Event}
    (told : event ∈ (Hearing.hear ⟨[], result⟩ path reply).events) : Notice path event := by
  cases reply with
  | progress message => exact List.mem_singleton.1 told ▸ .progress message
  | warning message => exact List.mem_singleton.1 told ▸ .warning message
  | error | success | fields | fieldsError => cases told

/-- What has been heard before only stands in front. -/
theorem listen_from (path : Path) (events : List Event) (result : Option Outcome) (lines : List (List Char)) :
    listen path ⟨events, result⟩ lines =
      (⟨events ++ (listen path ⟨[], result⟩ lines).1.events, (listen path ⟨[], result⟩ lines).1.result⟩,
        (listen path ⟨[], result⟩ lines).2) := by
  induction lines generalizing events result with
  | nil => simp [listen]
  | cons line rest ih =>
    unfold listen
    cases (Peer.nextMessage [line]).1 with
    | error cause => simp
    | ok message =>
      cases message with
      | none => exact ih events result
      | some reply =>
        simp only [hear_from path events]
        rw [ih, ih (Hearing.hear ⟨[], result⟩ path reply).events]
        simp

theorem notice_of_mem_listen {result : Option Outcome} {event : Event}
    (told : event ∈ (listen path ⟨[], result⟩ lines).1.events) : Notice path event := by
  induction lines generalizing result with
  | nil => cases told
  | cons line rest ih =>
    unfold listen at told
    cases message : (Peer.nextMessage [line]).1 with
    | error cause => simp [message] at told
    | ok found =>
      cases found with
      | none =>
        simp only [message] at told
        exact ih told
      | some reply =>
        simp only [message] at told
        rw [listen_from] at told
        rcases List.mem_append.1 told with now | later
        · exact notice_of_mem_hear now
        · exact ih later

/-- Of the messages on well-formed lines the first that ends a package gives the result. -/
theorem listen_of_messages? {replies : List Reply} (hearing : Hearing)
    (found : messages? Json.reply? lines = some replies) :
    (listen path hearing lines).1.result = hearing.result.or (replies.findSome? told?) ∧
      (listen path hearing lines).2 = none := by
  induction lines generalizing hearing replies with
  | nil =>
    cases found
    simp [listen]
  | cons line rest ih =>
    unfold listen
    cases blank : (Text.trim line).isEmpty with
    | true =>
      rw [messages?_blank blank] at found
      have nothing : (Peer.nextMessage [line]).1 = .ok none := by simp [Peer.nextMessage, blank]
      simp only [nothing]
      exact ih hearing found
    | false =>
      obtain ⟨first, others, read, later, rfl⟩ := messages?_cons blank found
      have message : (Peer.nextMessage [line]).1 = .ok (some first) := by simp [Peer.nextMessage, blank, read]
      simp only [message]
      obtain ⟨result, clean⟩ := ih (hearing.hear path first) later
      refine ⟨?_, clean⟩
      rw [result, hear_result, List.findSome?_cons]
      cases hearing.result <;> cases told? first <;> rfl

theorem listen_of_silent {hearing : Hearing} (unsettled : hearing.result = none)
    (silent : ∀ line ∈ lines, ∀ reply, Json.reply? line = some reply → told? reply = none) :
    (listen path hearing lines).1.result = none := by
  induction lines generalizing hearing with
  | nil => exact unsettled
  | cons line rest ih =>
    have others := fun later inside => silent later (List.mem_cons_of_mem _ inside)
    unfold listen
    cases blank : (Text.trim line).isEmpty with
    | true =>
      have nothing : (Peer.nextMessage [line]).1 = .ok none := by simp [Peer.nextMessage, blank]
      simp only [nothing]
      exact ih unsettled others
    | false =>
      cases read : Json.reply? line with
      | none =>
        simp only [Peer.nextMessage, blank, read]
        exact unsettled
      | some reply =>
        have message : (Peer.nextMessage [line]).1 = .ok (some reply) := by simp [Peer.nextMessage, blank, read]
        simp only [message]
        refine ih ?_ others
        rw [hear_result, unsettled, silent line (List.mem_cons_self ..) reply read]
        rfl

end Listening

namespace Phase

/-- Takes an exchange one step on: reads a line, or the end of the worker, or takes in its outcome. -/
def advance (artifact : Artifact) : Phase → Move
  | .talking result [] ending => ⟨[], [], .ended (conclusion result ending)⟩
  | .talking result (line :: rest) ending =>
    match (Peer.nextMessage [line]).1 with
    | .ok none => ⟨[], [], .talking result rest ending⟩
    | .ok (some reply) =>
      let hearing := Hearing.hear ⟨[], result⟩ artifact.path reply
      ⟨hearing.events, [], .talking hearing.result rest ending⟩
    | .error cause => ⟨[], [], .ended (.failed cause.message false)⟩
  | .ended outcome =>
    let finished : Finished := ⟨artifact, outcome⟩
    ⟨finished.events, [finished], .done⟩
  | .done => ⟨[], [], .done⟩

def heard (path : Path) : Phase → List Event
  | .talking result unread _ => (listen path ⟨[], result⟩ unread).1.events
  | .ended _ | .done => []

/-- What an exchange will come to, unless that is known already. -/
def outcome? (path : Path) : Phase → Option Outcome
  | .talking result unread ending => some (verdict path result unread ending)
  | .ended outcome => some outcome
  | .done => none

def finished (artifact : Artifact) (phase : Phase) : List Finished :=
  (phase.outcome? artifact.path).toList.map fun outcome => ⟨artifact, outcome⟩

def events (artifact : Artifact) (phase : Phase) : List Event :=
  phase.heard artifact.path ++ (phase.finished artifact).flatMap Finished.events

@[simp] theorem finished_done (artifact : Artifact) : Phase.done.finished artifact = [] := rfl

@[simp] theorem events_done (artifact : Artifact) : Phase.done.events artifact = [] := rfl

/-- A step takes its events and its outcome from what is to come. -/
theorem advance_spends (artifact : Artifact) (phase : Phase) :
    phase.events artifact = (phase.advance artifact).events ++ (phase.advance artifact).phase.events artifact ∧
      phase.finished artifact = (phase.advance artifact).finished ++ (phase.advance artifact).phase.finished artifact := by
  cases phase with
  | ended outcome => simp [advance, events, finished, heard, outcome?]
  | done => simp [advance, events, finished, heard, outcome?]
  | talking result unread ending =>
    cases unread with
    | nil => simp [advance, events, finished, heard, outcome?, verdict, listen]
    | cons line rest =>
      simp only [advance, events, finished, heard, outcome?, verdict, listen]
      cases (Peer.nextMessage [line]).1 with
      | error cause => simp
      | ok message =>
        cases message with
        | none => simp
        | some reply =>
          have split := listen_from artifact.path (Hearing.hear ⟨[], result⟩ artifact.path reply).events
            (Hearing.hear ⟨[], result⟩ artifact.path reply).result rest
          simp only [split, List.append_assoc, List.nil_append, and_self]

end Phase

namespace Contact

variable {path : Path}

theorem outcome?_opening (contact : Contact) (path : Path) : contact.opening.outcome? path = some (contact.outcome path) := by
  cases contact <;> rfl

@[simp] theorem finished_opening (contact : Contact) (artifact : Artifact) :
    contact.opening.finished artifact = [⟨artifact, contact.outcome artifact.path⟩] := by
  simp [Phase.finished, outcome?_opening]

@[simp] theorem events_opening (contact : Contact) (artifact : Artifact) : contact.opening.events artifact =
    contact.opening.heard artifact.path ++ Finished.events ⟨artifact, contact.outcome artifact.path⟩ := by
  simp [Phase.events]

theorem notice_of_mem_opening {contact : Contact} {event : Event} (told : event ∈ contact.opening.heard path) :
    Notice path event := by
  cases contact with
  | unreachable cause => cases told
  | talks lines ending => exact notice_of_mem_listen told

/-- Well-formed messages give a package the outcome of the first that ends it. -/
theorem outcome_of_messages? {lines : List (List Char)} {replies : List Reply} {code : Nat} {outcome : Outcome}
    (found : messages? Json.reply? lines = some replies) (told : replies.findSome? told? = some outcome) :
    (talks lines (.ok code)).outcome path = outcome := by
  obtain ⟨result, clean⟩ := @listen_of_messages? path lines replies ⟨[], none⟩ found
  simp only [Contact.outcome, verdict, conclusion, clean, result, told]
  rfl

theorem failed_of_silent {contact : Contact}
    (silent : ∀ line ∈ contact.lines, ∀ reply, Json.reply? line = some reply → told? reply = none) :
    ∃ message benign, contact.outcome path = .failed message benign := by
  cases contact with
  | unreachable cause => exact ⟨_, _, rfl⟩
  | talks lines ending =>
    have nothing := @listen_of_silent path lines ⟨[], none⟩ rfl silent
    simp only [Contact.outcome, verdict, nothing]
    split
    · exact ⟨_, _, rfl⟩
    · cases ending with
      | error cause => exact ⟨_, _, rfl⟩
      | ok code => exact ⟨_, _, rfl⟩

/-- Giving a package to a worker is the whole exchange at once. -/
theorem consult_ofProgram (program : Program) (path : Path) (options : ProcessOptions) (tree : FileTree) :
    (consult program path options tree).events = (ofProgram program path options tree).opening.heard path ∧
      (consult program path options tree).outcome = (ofProgram program path options tree).outcome path := by
  unfold consult ofProgram
  cases Peer.start program with
  | error cause => exact ⟨rfl, rfl⟩
  | ok process =>
    dsimp only
    rcases process.send (.process path options) tree with ⟨cause | sent, after⟩
    · exact ⟨rfl, rfl⟩
    · dsimp only [opening, Phase.heard, Contact.outcome, verdict]
      rcases listen path ⟨[], none⟩ sent.wait.2.unread with ⟨hearing, _ | cause⟩
      · exact ⟨rfl, rfl⟩
      · exact ⟨rfl, rfl⟩

end Contact

end SymbolCache.Refresh
