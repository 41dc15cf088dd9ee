import SymbolCache.Proofs.RequestLoop
import SymbolCache.Proofs.TextBytes
import SymbolCache.Proofs.TextSplitting

/-! Messages through a pipe. Each is written on a line of its own, and the bytes, cut at new lines, give back the very
messages, to a worker that reads its requests as to a coordinator that reads the replies. -/

namespace SymbolCache.Worker

def stream (lines : List (List Char)) : Bytes := lines.flatMap fun line => Text.encodeUtf8 line ++ [Text.lineFeed]

def pieces : Bytes → List Bytes
  | [] => []
  | byte :: rest =>
    if byte = Text.lineFeed then [byte] :: pieces rest
    else match pieces rest with
      | [] => [[byte]]
      | piece :: others => (byte :: piece) :: others

/-- The lines that are read from a pipe; none when some piece is not UTF-8. -/
def streamLines? (bytes : Bytes) : Option (List (List Char)) := do
  let texts ← (pieces bytes).mapM Text.decodeUtf8?
  return texts.flatMap Text.lines

/-- The messages on lines, blank ones left out; none when some line is no message. -/
def messages? {α : Type} (read : List Char → Option α) : List (List Char) → Option (List α)
  | [] => some []
  | line :: rest =>
    if (Text.trim line).isEmpty then messages? read rest
    else do
      let first ← read line
      let others ← messages? read rest
      return first :: others

def answer (verdict : Nat → Verdict) : Request → Step Fault Unit
  | .process path options => handleProcess verdict path options
  | .updateFields options => handleFields verdict options
  | .setLogLevel name => modify fun session => { session with level := .parse name }

/-- Reading from a peer up to its end gives such messages. -/
inductive Receives : Peer → List Reply → Prop where
  | ended {peer : Peer} (none : peer.receive.1 = .ok none) : Receives peer []
  | next {peer after : Peer} {reply : Reply} {replies : List Reply}
    (first : peer.receive = (.ok (some reply), after)) (rest : Receives after replies) : Receives peer (reply :: replies)

section Reading

variable {line : List Char} {lines : List (List Char)}

theorem messages?_blank {α : Type} {read : List Char → Option α} (blank : (Text.trim line).isEmpty = true) :
    messages? read (line :: lines) = messages? read lines := by
  rw [messages?, if_pos blank]

theorem messages?_cons {α : Type} {read : List Char → Option α} {messages : List α}
    (present : (Text.trim line).isEmpty = false) (found : messages? read (line :: lines) = some messages) :
    ∃ first others, read line = some first ∧ messages? read lines = some others ∧ messages = first :: others := by
  rw [messages?, if_neg (by simp [present])] at found
  cases here : read line with
  | none => simp [here] at found
  | some first =>
    cases later : messages? read lines with
    | none => simp [here, later] at found
    | some others => exact ⟨first, others, rfl, rfl, by simpa [here, later] using found.symm⟩

/-- A worker answers just the requests on its lines, in their order. -/
theorem run_of_messages? (verdict : Nat → Verdict) {requests : List Request}
    (found : messages? Json.request? lines = some requests) : run verdict lines = requests.forM (answer verdict) := by
  induction lines generalizing requests with
  | nil =>
    cases found
    rfl
  | cons line rest ih =>
    cases blank : (Text.trim line).isEmpty with
    | true =>
      rw [messages?_blank blank] at found
      have nothing : handleLine verdict line = pure () := by rw [handleLine, if_pos blank]
      rw [run, nothing, pure_bind, ih found]
    | false =>
      obtain ⟨first, others, read, later, rfl⟩ := messages?_cons blank found
      have answered : handleLine verdict line = answer verdict first := by
        rw [handleLine, if_neg (by simp [blank]), read]
        cases first <;> rfl
      rw [run, answered, ih later]
      rfl

theorem receives_of_messages? {replies : List Reply} (found : messages? Json.reply? lines = some replies) (peer : Peer)
    (unread : peer.unread = lines) : Receives peer replies := by
  induction lines generalizing peer replies with
  | nil =>
    cases found
    exact .ended (by simp [Peer.receive, unread, Peer.nextMessage])
  | cons line rest ih =>
    cases blank : (Text.trim line).isEmpty with
    | true =>
      rw [messages?_blank blank] at found
      have skipped : peer.receive = { peer with unread := rest }.receive := by
        simp only [Peer.receive, unread, Peer.nextMessage, if_pos blank]
      cases ih found { peer with unread := rest } rfl with
      | ended none => exact .ended (skipped ▸ none)
      | next first later => exact .next (skipped ▸ first) later
    | false =>
      obtain ⟨first, others, read, later, rfl⟩ := messages?_cons blank found
      have received : peer.receive = (.ok (some first), { peer with unread := rest }) := by
        simp [Peer.receive, unread, Peer.nextMessage, blank, read]
      exact .next received (ih later _ rfl)

end Reading

section Framing

/-- Lines that a pipe keeps as they are. -/
structure Framed (line : List Char) : Prop where
  unbroken : '\n' ∉ line
  ends : line.getLast? ≠ some '\r'

theorem pieces_append {line : Bytes} (absent : Text.lineFeed ∉ line) (rest : Bytes) :
    pieces (line ++ Text.lineFeed :: rest) = (line ++ [Text.lineFeed]) :: pieces rest := by
  induction line with
  | nil => simp [pieces]
  | cons byte line ih =>
    rw [List.mem_cons, not_or] at absent
    rw [List.cons_append, pieces, if_neg (Ne.symm absent.1), ih absent.2]
    rfl

theorem Framed.lines {line : List Char} (framed : Framed line) : Text.lines (line ++ ['\n']) = [line] := by
  have parts : Text.splitAt '\n' (line ++ ['\n']) = [line, []] := by
    rw [Text.splitAt_append, Text.splitAt_of_not_mem framed.unbroken]
    rfl
  have kept : Text.stripEnd? ['\r'] line = none := by
    have last : line.reverse.head? ≠ some '\r' := by rw [List.head?_reverse]; exact framed.ends
    unfold Text.stripEnd?
    cases shape : line.reverse with
    | nil => rfl
    | cons c rest =>
      have other : '\r' ≠ c := by
        rintro rfl
        exact last (by rw [shape]; rfl)
      simp [Text.stripStart?, other]
  simp [Text.lines, parts, kept]

theorem streamLines?_stream {lines : List (List Char)} (framed : ∀ line ∈ lines, Framed line) :
    streamLines? (stream lines) = some lines := by
  induction lines with
  | nil => rfl
  | cons line rest ih =>
    have first := framed line (List.mem_cons_self ..)
    have others := ih fun other inside => framed other (List.mem_cons_of_mem _ inside)
    have cut : pieces (stream (line :: rest)) = Text.encodeUtf8 (line ++ ['\n']) :: pieces (stream rest) := by
      rw [stream, List.flatMap_cons, List.append_assoc, List.singleton_append,
        pieces_append (Text.lineFeed_not_mem_encodeUtf8 first.unbroken), Text.encodeUtf8_append, Text.encodeUtf8_newline]
      rfl
    unfold streamLines? at others ⊢
    rw [cut, List.mapM_cons, Text.decodeUtf8?_encodeUtf8]
    cases read : (pieces (stream rest)).mapM Text.decodeUtf8? with
    | none => simp [read] at others
    | some texts =>
      have same : texts.flatMap Text.lines = rest := by simpa [read] using others
      simp [first.lines, same]

theorem framed_object {levels : Nat} {entries : List (String × Json)} (printable : Json.Printable levels (.object entries)) :
    Framed (Json.object entries).compactChars := by
  refine ⟨Json.unbroken_compactChars printable, ?_⟩
  simp [Json.compactChars, List.getLast?_cons]

theorem messages?_map {α : Type} {read : List Char → Option α} {write : α → List Char} {messages : List α}
    (present : ∀ message ∈ messages, (Text.trim (write message)).isEmpty = false)
    (back : ∀ message ∈ messages, read (write message) = some message) :
    messages? read (messages.map write) = some messages := by
  induction messages with
  | nil => rfl
  | cons message rest ih =>
    have others := ih (fun other inside => present other (List.mem_cons_of_mem _ inside))
      fun other inside => back other (List.mem_cons_of_mem _ inside)
    rw [List.map_cons, messages?, if_neg (by simp [present message (List.mem_cons_self ..)]),
      back message (List.mem_cons_self ..), others]
    rfl

end Framing

def requestLine (request : Request) : List Char := (Json.ofRequest request).compactChars

theorem framed_requestLine (request : Request) : Framed (requestLine request) := by
  have printable := Json.printable_ofRequest request
  cases request <;> exact framed_object printable

theorem present_requestLine (request : Request) : (Text.trim (requestLine request)).isEmpty = false := by
  cases request <;> exact Json.trim_compactChars_object _

/-- Every message is read as what was written. A stream of messages, each on its line, gives back the list of them: a
worker answers these requests and no others, and a coordinator receives these replies and no others. -/
theorem messages_come_through (requests : List Request) (replies : List Reply)
    (sendable : ∀ reply ∈ replies, reply.Sendable) :
    (∀ request ∈ requests, Json.request? (requestLine request) = some request) ∧
    (∀ reply ∈ replies, Json.reply? (Peer.replyLine reply) = some reply) ∧
    (∃ lines, streamLines? (stream (requests.map requestLine)) = some lines ∧
      messages? Json.request? lines = some requests ∧ ∀ verdict, run verdict lines = requests.forM (answer verdict)) ∧
    ∃ lines, streamLines? (stream (replies.map Peer.replyLine)) = some lines ∧
      messages? Json.reply? lines = some replies ∧ ∀ peer : Peer, peer.unread = lines → Receives peer replies := by
  have requested : ∀ request ∈ requests, Json.request? (requestLine request) = some request :=
    fun request _ => Json.request?_ofRequest request
  have replied : ∀ reply ∈ replies, Json.reply? (Peer.replyLine reply) = some reply :=
    fun reply inside => Json.reply?_replyLine (sendable reply inside)
  refine ⟨requested, replied, ⟨_, streamLines?_stream ?_, ?_⟩, _, streamLines?_stream ?_, ?_⟩
  · intro line inside
    obtain ⟨request, -, rfl⟩ := List.mem_map.1 inside
    exact framed_requestLine request
  · have found := messages?_map (fun request _ => present_requestLine request) requested
    exact ⟨found, fun verdict => run_of_messages? verdict found⟩
  · intro line inside
    obtain ⟨reply, member, rfl⟩ := List.mem_map.1 inside
    exact framed_object (Json.printable_ofReply (sendable reply member))
  · have found := messages?_map (fun reply _ => Json.trim_compactChars_object _) replied
    exact ⟨found, receives_of_messages? found⟩

def brokenRecord : ObjectRecord :=
  ⟨"Item\nLedger", .table, some (-5), some "Base.app", Dict.empty.insert "tags" (.ofTexts ["a\r", "\"b\""])⟩

def onePageIndex : FieldIndex :=
  ⟨Dict.empty.insert "Item" ["No."], Dict.empty.insert "Start" none, Dict.empty.insert "/src/Start.al" (.ofNat 1700000000123),
    Dict.empty.insert "/src/Start.al" ⟨.empty, Dict.empty.insert "Start" none, none⟩⟩

def brokenReplies : List Reply :=
  [.warning "two\nlines", .success [brokenRecord] .empty "/a\r\n.app", .fields onePageIndex]

theorem sendable_brokenReplies : ∀ reply ∈ brokenReplies, reply.Sendable := by
  have record : brokenRecord.Sendable := by
    refine ⟨?_, ?_⟩
    · rintro _ ⟨⟩
      decide
    · intro key value found
      obtain ⟨-, rfl⟩ := Prod.mk.inj (List.mem_singleton.1 (Dict.get?_eq_some_iff.1 found))
      exact .texts _
  have index : onePageIndex.Sendable := by
    intro path watermark found
    obtain ⟨-, rfl⟩ := Prod.mk.inj (List.mem_singleton.1 (Dict.get?_eq_some_iff.1 found))
    have written : Json.renderFloat (.ofNat 1700000000123) = "1700000000123.0" := by decide +kernel
    rw [Json.Exact, written]
    rfl
  intro reply inside
  simp only [brokenReplies, List.mem_cons, List.not_mem_nil, or_false] at inside
  rcases inside with rfl | rfl | rfl
  · exact .warning _
  · exact .success _ _ (by simpa using record)
  · exact .fields index

theorem broken_texts_come_through : (∀ reply ∈ brokenReplies, reply.Sendable) ∧
    ∃ lines, streamLines? (stream (brokenReplies.map Peer.replyLine)) = some lines ∧
      messages? Json.reply? lines = some brokenReplies := by
  obtain ⟨-, -, -, lines, read, found, -⟩ :=
    messages_come_through [.setLogLevel "de\nbug"] brokenReplies sendable_brokenReplies
  exact ⟨sendable_brokenReplies, lines, read, found⟩

end SymbolCache.Worker
