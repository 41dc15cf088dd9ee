import SymbolCache.Proofs.CatalogRecords
import SymbolCache.Proofs.FileActions
import SymbolCache.Refresh.Coordinator

/-! What a refresh hears from the worker of a package is what the files make of it: the messages on
the way, the lines they are sent as and the copying of sources have no part in the outcome. -/

namespace SymbolCache

namespace Worker

variable {α β : Type} {session : Session}

inductive IsNotice : Reply → Prop where
  | progress (message : String) : IsNotice (.progress message)
  | warning (message : String) : IsNotice (.warning message)

/-- A step ends with such a result and such files, and has sent nothing but notices. -/
def Leads (step : Step Fault α) (session : Session) (post : Except Fault α → FileTree → Prop) : Prop :=
  ∃ notices, post (step session).1 (step session).2.tree ∧
    (step session).2.written = session.written ++ notices ∧ ∀ reply ∈ notices, IsNotice reply

namespace Leads

variable {step : Step Fault α} {post weaker : Except Fault α → FileTree → Prop}

theorem weaken (leads : Leads step session post) (implies : ∀ result tree, post result tree → weaker result tree) :
    Leads step session weaker := by
  obtain ⟨notices, holds, written, quiet⟩ := leads
  exact ⟨notices, implies _ _ holds, written, quiet⟩

theorem pure {value : α} (holds : post (.ok value) session.tree) : Leads (pure value) session post :=
  ⟨[], holds, (List.append_nil _).symm, nofun⟩

theorem throw {fault : Fault} (holds : post (.error fault) session.tree) :
    Leads (throw fault : Step Fault α) session post :=
  ⟨[], holds, (List.append_nil _).symm, nofun⟩

theorem bind {next : α → Step Fault β} {final : Except Fault β → FileTree → Prop} (first : Leads step session post)
    (rest : ∀ value after, post (.ok value) after.tree → Leads (next value) after final)
    (failed : ∀ fault tree, post (.error fault) tree → final (.error fault) tree) :
    Leads (step >>= next) session final := by
  obtain ⟨notices, holds, written, quiet⟩ := first
  unfold Leads
  rw [bind_apply]
  rcases ran : step session with ⟨fault | value, after⟩ <;> rw [ran] at holds written
  · exact ⟨notices, failed fault after.tree holds, written, quiet⟩
  · obtain ⟨later, holds', written', quiet'⟩ := rest value after holds
    refine ⟨notices ++ later, holds', ?_, ?_⟩
    · rw [written', ← List.append_assoc]
      exact congrArg (· ++ later) written
    · intro reply inside
      rcases List.mem_append.1 inside with early | late
      · exact quiet reply early
      · exact quiet' reply late

theorem send {reply : Reply} (notice : IsNotice reply) :
    Leads (send always reply) session fun result tree => result = .ok () ∧ tree = session.tree :=
  ⟨[reply], ⟨rfl, rfl⟩, rfl, by simpa using notice⟩

theorem note (entries : List LogEntry) :
    Leads (note entries) session fun result tree => result = .ok () ∧ tree = session.tree :=
  ⟨[], ⟨rfl, rfl⟩, (List.append_nil _).symm, nofun⟩

theorem get : Leads get session fun result tree => result = .ok session ∧ tree = session.tree :=
  ⟨[], ⟨rfl, rfl⟩, (List.append_nil _).symm, nofun⟩

theorem attempt {ε : Type} (action : FileAction ε α) : Leads (attempt action) session fun result tree =>
    result = .ok (action.on session.tree).1 ∧ tree = (action.on session.tree).2 :=
  ⟨[], ⟨rfl, rfl⟩, (List.append_nil _).symm, nofun⟩

theorem onFiles {ε : Type} (wrap : ε → Fault) (action : FileAction ε α) :
    Leads (onFiles wrap action) session fun result tree =>
      result = (action.on session.tree).1.mapError wrap ∧ tree = (action.on session.tree).2 := by
  refine (attempt action).bind ?_ nofun
  rintro result after ⟨⟨⟩, same⟩
  cases (action.on session.tree).1 with
  | ok value => exact .pure ⟨rfl, same⟩
  | error cause => exact .throw ⟨rfl, same⟩

theorem cleaningUp {cleanup : FileAction Fault Unit} (leads : Leads step session post) :
    Leads (cleaningUp step cleanup) session fun result tree =>
      ∃ middle, post result middle ∧ tree = (cleanup.on middle).2 := by
  obtain ⟨notices, holds, written, quiet⟩ := leads
  exact ⟨notices, ⟨_, holds, rfl⟩, written, quiet⟩

theorem and_then {next : α → Step Fault β} {final : Except Fault β → FileTree → Prop} {value : α}
    (first : Leads step session fun result tree => result = .ok value ∧ tree = session.tree)
    (rest : ∀ after, after.tree = session.tree → Leads (next value) after final) :
    Leads (step >>= next) session final := by
  refine first.bind ?_ nofun
  rintro _ after ⟨⟨⟩, same⟩
  exact rest after same

end Leads

/-- The files after the sources among entries have been copied, up to the first one that cannot be. -/
def copied (path dest : Path) : List Archive.Entry → FileTree → FileTree
  | [], tree => tree
  | entry :: rest, tree =>
    match (Package.copySource path dest entry).on tree with
    | (.error _, after) => after
    | (.ok _, after) => copied path dest rest after

theorem leads_reportCopy {run : CopyRun} (fresh : run.refusal = none) (relative : Path) :
    Leads (reportCopy always run relative) session fun result tree =>
      result = .ok { run with copied := run.copied + 1 } ∧ tree = session.tree := by
  refine ⟨[.progress ("Extracted source " ++ relative)], ?_, ?_, by simpa using .progress _⟩
  · rw [reportCopy, fresh]
    exact ⟨rfl, rfl⟩
  · rw [reportCopy, fresh]
    rfl

theorem leads_copyAll (path dest : Path) {run : CopyRun} (fresh : run.refusal = none) (entries : List Archive.Entry)
    (session : Session) : Leads (copyAll always path dest run entries) session fun result tree =>
      (∃ final failure, result = .ok (final, failure) ∧ final.refusal = none) ∧
        tree = copied path dest entries session.tree := by
  induction entries generalizing run session with
  | nil => exact .pure ⟨⟨run, none, rfl, fresh⟩, rfl⟩
  | cons entry rest ih =>
    unfold copyAll copied
    refine (Leads.attempt (Package.copySource path dest entry)).bind ?_ nofun
    rintro result after ⟨⟨⟩, changed⟩
    rcases ran : (Package.copySource path dest entry).on session.tree with ⟨cause | found, middle⟩ <;>
      rw [ran] at changed <;> obtain rfl : after.tree = middle := changed
    · exact .pure ⟨⟨run, some cause, rfl, fresh⟩, rfl⟩
    · cases found with
      | none => exact ih fresh after
      | some relative =>
        refine (leads_reportCopy fresh relative).and_then fun later same => ?_
        have copies := @ih { run with copied := run.copied + 1 } fresh later
        rwa [same] at copies

def withSources (path : Path) (options : ProcessOptions) (entries : List Archive.Entry) (tree : FileTree) : FileTree :=
  match options.enableSrcExtraction, options.srcExtractionPath, Artifact.ofPath? path with
  | true, some dest, some artifact => copied path (artifact.sourceDir dest) entries tree
  | _, _, _ => tree

theorem leads_copySources (path dest : Path) (fileName : String) (entries : List Archive.Entry) (session : Session) :
    Leads (copySources always path dest fileName entries) session fun result tree => result = .ok () ∧
      tree = match Artifact.ofPath? path with
        | some artifact => copied path (artifact.sourceDir dest) entries session.tree
        | none => session.tree := by
  unfold copySources
  cases Artifact.ofPath? path with
  | none =>
    refine (Leads.note _).and_then fun after same => ?_
    exact (Leads.send (.warning _)).weaken fun _ _ ⟨done, kept⟩ => ⟨done, kept.trans same⟩
  | some artifact =>
    refine (leads_copyAll path _ rfl entries session).bind ?_ ?_
    · rintro ⟨final, failure⟩ after ⟨⟨_, _, ⟨⟩, accepted⟩, same⟩
      simp only [accepted]
      cases failure with
      | none =>
        refine (Leads.note _).and_then fun noted kept => ?_
        exact (Leads.send (.progress _)).weaken fun _ _ ⟨done, left⟩ => ⟨done, left.trans (kept.trans same)⟩
      | some cause =>
        simp only [Option.isNone_some, Bool.false_eq_true, if_false]
        refine (Leads.note _).and_then fun noted kept => ?_
        exact (Leads.send (.warning _)).weaken fun _ _ ⟨done, left⟩ => ⟨done, left.trans (kept.trans same)⟩
    · rintro fault tree ⟨⟨_, _, ⟨⟩, -⟩, -⟩

/-- The objects of an unpacked package, or the chain of an error. -/
def namedCatalog (fileName : String) (tree : FileTree) (root : Path) (withProcedures : Bool) :
    Except (List String) SymbolTable :=
  match Source.catalog tree root withProcedures with
  | .ok table => .ok (withApp table fileName)
  | .error cause => .error (("Failed to read metadata from " ++ fileName) :: cause.chain)

def readUnpacked (path : Path) (options : ProcessOptions) (unpacked : Package.Unpacked) (tree : FileTree) :
    Except (List String) SymbolTable × FileTree :=
  let sources := withSources path options unpacked.entries tree
  (namedCatalog ((Path.fileName? path).getD "") sources unpacked.root options.extractProcedures,
    ((Package.removeScratch unpacked.root : FileAction Fault Unit).on sources).2)

/-- What becomes of a package, as far as the files tell: its objects or the chain of an error, and the files
afterwards. -/
def processed (path : Path) (options : ProcessOptions) (tree : FileTree) : Except (List String) SymbolTable × FileTree :=
  match (Package.unpack options.extractPath path).on tree with
  | (.error cause, after) => (.error cause.chain, after)
  | (.ok unpacked, after) => readUnpacked path options unpacked after

theorem leads_processPackage (path : Path) (options : ProcessOptions) (session : Session) :
    Leads (processPackage always path options) session fun result tree =>
      result = (processed path options session.tree).1.mapError Fault.error ∧
        tree = (processed path options session.tree).2 := by
  unfold processPackage processed readUnpacked
  refine (Leads.send (.progress _)).and_then fun begun same => ?_
  rw [← same]
  refine (Leads.onFiles _ (Package.unpack options.extractPath path)).bind ?_ ?_
  · rintro unpacked after ⟨unpacks, same⟩
    rcases ran : (Package.unpack options.extractPath path).on begun.tree with ⟨cause | found, left⟩ <;>
      rw [ran] at unpacks same <;> cases unpacks
    obtain rfl : after.tree = left := same
    refine (@Leads.cleaningUp _ _ _ (fun result tree => result = (namedCatalog ((Path.fileName? path).getD "")
      (withSources path options unpacked.entries after.tree) unpacked.root options.extractProcedures).mapError Fault.error ∧
        tree = withSources path options unpacked.entries after.tree) _ ?_).weaken ?_
    · refine (Leads.note _).and_then fun noted same => ?_
      rw [← same]
      extract_lets reading
      have reads (session : Session) : Leads (reading ()) session fun result tree => result = (namedCatalog
          ((Path.fileName? path).getD "") session.tree unpacked.root options.extractProcedures).mapError Fault.error ∧
            tree = session.tree := by
        refine (Leads.send (.progress _)).and_then fun parsing told => ?_
        rw [← told]
        refine Leads.and_then (Leads.get) fun seen same => ?_
        refine (Leads.note _).and_then fun noted logged => ?_
        unfold namedCatalog
        cases Source.catalog parsing.tree unpacked.root options.extractProcedures with
        | ok table =>
          refine (Leads.note _).and_then fun last loggedLast => ?_
          exact .pure ⟨rfl, loggedLast.trans (logged.trans same)⟩
        | error cause => exact .throw ⟨rfl, logged.trans same⟩
      unfold withSources
      cases options.enableSrcExtraction with
      | false => exact reads noted
      | true =>
        cases options.srcExtractionPath with
        | none => exact reads noted
        | some dest =>
          refine (leads_copySources path dest _ unpacked.entries noted).bind ?_ ?_
          · rintro _ after ⟨-, copies⟩
            refine (reads after).weaken ?_
            rw [copies]
            cases Artifact.ofPath? path <;> exact fun _ _ holds => holds
          · rintro fault tree ⟨⟨⟩, -⟩
    · rintro result tree ⟨middle, ⟨rfl, rfl⟩, rfl⟩
      exact ⟨rfl, rfl⟩
  · rintro fault tree ⟨failed, rfl⟩
    rcases ran : (Package.unpack options.extractPath path).on begun.tree with ⟨cause | found, left⟩ <;>
      rw [ran] at failed <;> cases failed
    exact ⟨rfl, rfl⟩

end Worker

theorem Json.trim_compactChars_object (entries : List (String × Json)) :
    (Text.trim (Json.object entries).compactChars).isEmpty = false := by
  have stops : Text.Stops Text.isBlank (Json.object entries).compactChars := by
    intro c first
    obtain rfl : '{' = c := by simpa [compactChars] using first
    rfl
  have kept : Text.trim (Json.object entries).compactChars = Text.trimEnd (Json.object entries).compactChars :=
    congrArg Text.trimEnd (Text.dropWhile_stops stops)
  rw [kept, List.isEmpty_eq_false_iff]
  exact Text.trimEnd_ne_nil stops (by simp [compactChars])

namespace Refresh

open Worker

theorem nextMessage_replyLine {reply : Reply} (sendable : reply.Sendable) :
    (Peer.nextMessage [Peer.replyLine reply]).1 = .ok (some reply) := by
  have present : (Text.trim (Peer.replyLine reply)).isEmpty = false := Json.trim_compactChars_object _
  simp [Peer.nextMessage, present, Json.reply?_replyLine sendable]

theorem sendable_of_isNotice {reply : Reply} (notice : IsNotice reply) : reply.Sendable := by
  cases notice with
  | progress message => exact .progress message
  | warning message => exact .warning message

/-- Notices are heard and leave the result open. -/
theorem listen_notices (path : Path) (hearing : Hearing) {notices : List Reply} (quiet : ∀ reply ∈ notices, IsNotice reply)
    (lines : List (List Char)) :
    ∃ events, listen path hearing (notices.map Peer.replyLine ++ lines) =
      listen path ⟨hearing.events ++ events, hearing.result⟩ lines := by
  induction notices generalizing hearing with
  | nil => exact ⟨[], by simp⟩
  | cons notice rest ih =>
    have first := quiet notice (List.mem_cons_self ..)
    obtain ⟨events, heard⟩ := ih (hearing.hear path notice) fun reply inside => quiet reply (List.mem_cons_of_mem _ inside)
    rw [List.map_cons, List.cons_append, listen, nextMessage_replyLine (sendable_of_isNotice first)]
    simp only [heard]
    cases first with
    | progress message => exact ⟨.progress path message :: events, by simp [Hearing.hear]⟩
    | warning message => exact ⟨.warning path message :: events, by simp [Hearing.hear]⟩

def outcomeOf : Except (List String) SymbolTable → Outcome
  | .ok table => .succeeded table.objects table.procedures
  | .error chain => .failed (chainText chain) (isBenignMessage (chainText chain))

theorem sendable_processed {path : Path} {options : ProcessOptions} {tree : FileTree} {table : SymbolTable}
    (done : (processed path options tree).1 = .ok table) :
    table.Sendable ∧ ∀ record ∈ table.objects, record.app = some ((Path.fileName? path).getD "") := by
  unfold processed at done
  split at done
  · cases done
  · simp only [readUnpacked, namedCatalog] at done
    split at done
    · rename_i found
      cases done
      have sendable := Source.sendable_catalog found
      refine ⟨?_, ?_⟩
      · intro record inside
        obtain ⟨origin, member, rfl⟩ := List.mem_map.1 inside
        exact ⟨(sendable origin member).id, (sendable origin member).metadata⟩
      · intro record inside
        obtain ⟨origin, member, rfl⟩ := List.mem_map.1 inside
        rfl
    · cases done

theorem serve_eq_handleProcess (path : Path) (options : ProcessOptions) (tree : FileTree) :
    serve tree [(Json.ofRequest (.process path options)).compactChars] =
      (handleProcess always path options (.start tree)).2 := by
  have present : (Text.trim (Json.ofRequest (.process path options)).compactChars).isEmpty = false :=
    Json.trim_compactChars_object _
  have runs : run always [(Json.ofRequest (.process path options)).compactChars] (.start tree) =
      handleProcess always path options (.start tree) := by
    rw [run, bind_apply, handleLine, present, Json.request?_ofRequest]
    rfl
  rw [serve, runs]

/-- A worker that is given one package sends notices and then the message that ends it. -/
theorem serve_process (path : Path) (options : ProcessOptions) (tree : FileTree) :
    ∃ notices, (∀ reply ∈ notices, IsNotice reply) ∧
      (serve tree [(Json.ofRequest (.process path options)).compactChars]).written =
        notices ++ [terminalReply path ((processed path options tree).1.mapError .error)] ∧
      (serve tree [(Json.ofRequest (.process path options)).compactChars]).tree = (processed path options tree).2 := by
  have leads := leads_processPackage path options ⟨tree, [], 0, .parse options.logLevel, []⟩
  obtain ⟨notices, ⟨result, files⟩, written, quiet⟩ := leads
  refine ⟨notices, quiet, ?_, ?_⟩
  · rw [serve_eq_handleProcess, ← result]
    exact congrArg (· ++ _) written
  · rw [serve_eq_handleProcess]
    exact files

/-- The outcome that a refresh hears of is what the files make of the package. -/
theorem consult_requestLoop (path : Path) (options : ProcessOptions) (tree : FileTree) :
    (consult .requestLoop path options tree).outcome = outcomeOf (processed path options tree).1 ∧
      (consult .requestLoop path options tree).tree = (processed path options tree).2 := by
  obtain ⟨notices, quiet, written, files⟩ := serve_process path options tree
  have heard : ∃ events, listen path ⟨[], none⟩
      ((serve tree [(Json.ofRequest (.process path options)).compactChars]).written.map Peer.replyLine) =
        (⟨events, some (outcomeOf (processed path options tree).1)⟩, none) := by
    rw [written, List.map_append]
    obtain ⟨events, heard⟩ := listen_notices path ⟨[], none⟩ quiet
      ([terminalReply path ((processed path options tree).1.mapError .error)].map Peer.replyLine)
    rw [heard, List.map_singleton, listen]
    cases done : (processed path options tree).1 with
    | ok table =>
      simp only [Except.mapError, terminalReply, nextMessage_replyLine (.success _ path (sendable_processed done).1)]
      exact ⟨_, rfl⟩
    | error chain =>
      simp only [Except.mapError, terminalReply, nextMessage_replyLine (.error ..)]
      exact ⟨_, rfl⟩
  obtain ⟨events, heard⟩ := heard
  unfold consult
  simp [Peer.start, Peer.send, Peer.isAlive, Peer.wait, Peer.closeInput, heard, files]

end Refresh

end SymbolCache
