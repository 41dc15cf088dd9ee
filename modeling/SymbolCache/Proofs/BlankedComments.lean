import SymbolCache.Proofs.Enclosure
import SymbolCache.Proofs.ScanMarks

/-! Texts whose comments are blanked out. Blanks stand in place of comments byte by byte, so that nothing else moves; a
scan of the result finds what was no comment in the state it had, and no comment at all. -/

namespace SymbolCache.Lexical
open Text (byteLength)

def State.isComment (state : State) : Bool := state == .lineComment || state == .blockComment

def Mark.replaced (mark : Mark) : List Char :=
  if mark.isComment && mark.char != '\n' then List.replicate mark.char.utf8Size ' ' else [mark.char]

def stripFrom (dialect : Dialect) (phase : Phase) (offset : Nat) (text : List Char) : List Char :=
  (marksFrom dialect phase offset text).flatMap Mark.replaced

@[simp] theorem byteLength_replicate_space (count : Nat) : byteLength (List.replicate count ' ') = count := by
  induction count with
  | zero => rfl
  | succ count ih =>
    rw [List.replicate_succ, byteLength, ih, Nat.add_comm]
    rfl

@[simp] theorem byteLength_replaced (mark : Mark) : byteLength mark.replaced = mark.char.utf8Size := by
  rw [Mark.replaced]
  split
  · rw [byteLength_replicate_space]
  · simp only [byteLength, Nat.add_zero]

theorem byteLength_flatMap_replaced (scan : List Mark) :
    byteLength (scan.flatMap Mark.replaced) = byteLength (scan.map Mark.char) := by
  induction scan with
  | nil => rfl
  | cons mark rest ih =>
    rw [List.flatMap_cons, Text.byteLength_append, ih, byteLength_replaced]
    rfl

/-- What a scan says of a character, without the text after it. -/
structure Sight where
  offset : Nat
  char : Char
  state : State
  deriving DecidableEq

def Mark.sight (mark : Mark) : Sight := ⟨mark.offset, mark.char, mark.state⟩

def spaces (offset : Nat) : Nat → List Sight
  | 0 => []
  | count + 1 => ⟨offset, ' ', .normal⟩ :: spaces (offset + 1) count

/-- What a scan finds in place of a character once comments have been blanked out. -/
def Sight.blanked (sight : Sight) : List Sight :=
  if !sight.state.isComment then [sight]
  else if sight.char = '\n' then [⟨sight.offset, '\n', .normal⟩]
  else spaces sight.offset sight.char.utf8Size

/-- Spaces and line feeds begin nothing. -/
structure Dialect.SparesBlanks (dialect : Dialect) : Prop where
  space : ' ' ∉ dialect.quotes
  newline : '\n' ∉ dialect.quotes

def Phase.uncommented : Phase → Phase
  | .string quote => .string quote
  | _ => .normal

section Step

variable {dialect : Dialect} {phase : Phase} {c : Char} {next : Option Char}

theorem uncommented_of_comment (comment : (step dialect phase c next).1.isComment = true) :
    phase.uncommented = .normal ∧ (step dialect phase c next).2.uncommented = .normal := by
  cases phase with
  | normal =>
    refine ⟨rfl, ?_⟩
    simp only [step] at comment ⊢
    repeat' split
    all_goals simp_all [Phase.uncommented, State.isComment]
  | lineComment | blockComment =>
    refine ⟨rfl, ?_⟩
    simp only [step]
    repeat' split
    all_goals rfl
  | opening | closing => exact ⟨rfl, rfl⟩
  | string quote => cases comment

/-- What is no comment is none either before a character that completes no mark. -/
theorem step_of_not_comment {other : Option Char} (ahead : other = next ∨ Plain other)
    (kept : (step dialect phase c next).1.isComment = false) :
    step dialect phase.uncommented c other = step dialect phase c next ∧
      (step dialect phase c next).2.uncommented = (step dialect phase c next).2 := by
  cases phase with
  | normal =>
    constructor
    · rcases ahead with rfl | ⟨slash, star⟩
      · rfl
      · simp only [Phase.uncommented, step] at kept ⊢
        repeat' split
        all_goals simp_all [State.isComment]
    · simp only [step] at kept ⊢
      repeat' split
      all_goals simp_all [Phase.uncommented, State.isComment]
  | lineComment | opening | closing => cases kept
  | blockComment =>
    simp only [step] at kept
    repeat' split at kept
    all_goals cases kept
  | string quote =>
    refine ⟨rfl, ?_⟩
    simp only [step]
    split <;> rfl

end Step

section Strip

variable {dialect : Dialect} {phase : Phase} {offset : Nat}

theorem stripFrom_cons (dialect : Dialect) (phase : Phase) (offset : Nat) (c : Char) (text : List Char) :
    stripFrom dialect phase offset (c :: text) =
      (if (step dialect phase c text.head?).1.isComment && c != '\n' then List.replicate c.utf8Size ' ' else [c]) ++
        stripFrom dialect (step dialect phase c text.head?).2 (offset + c.utf8Size) text := rfl

theorem stripFrom_of_not_comment {c : Char} {text : List Char} (offset : Nat)
    (kept : (step dialect phase c text.head?).1.isComment = false) :
    stripFrom dialect phase offset (c :: text) =
      c :: stripFrom dialect (step dialect phase c text.head?).2 (offset + c.utf8Size) text := by
  rw [stripFrom_cons, kept, Bool.false_and, if_neg Bool.false_ne_true]
  rfl

/-- A blanked text begins as the text did, or with a character that completes no mark. -/
theorem head?_stripFrom (dialect : Dialect) (phase : Phase) (offset : Nat) (text : List Char) :
    (stripFrom dialect phase offset text).head? = text.head? ∨ Plain (stripFrom dialect phase offset text).head? := by
  cases text with
  | nil => exact .inl rfl
  | cons c rest =>
    rw [stripFrom_cons]
    split
    · obtain ⟨count, size⟩ := Nat.exists_eq_succ_of_ne_zero (Nat.ne_of_gt c.utf8Size_pos)
      rw [size, List.replicate_succ]
      exact .inr (.of_ne (by decide) (by decide))
    · exact .inl rfl

theorem sights_cons (dialect : Dialect) (phase : Phase) (offset : Nat) (c : Char) (rest : List Char) :
    (marksFrom dialect phase offset (c :: rest)).map Mark.sight =
      ⟨offset, c, (step dialect phase c rest.head?).1⟩ ::
        (marksFrom dialect (step dialect phase c rest.head?).2 (offset + c.utf8Size) rest).map Mark.sight := rfl

variable (spares : dialect.SparesBlanks)

include spares

theorem step_blank {c : Char} (blank : c = ' ' ∨ c = '\n') (next : Option Char) :
    step dialect .normal c next = (.normal, .normal) := by
  rcases blank with rfl | rfl
  · simp [step, spares.space]
  · simp [step, spares.newline]

theorem sights_spaces (offset count : Nat) (rest : List Char) :
    (marksFrom dialect .normal offset (List.replicate count ' ' ++ rest)).map Mark.sight =
      spaces offset count ++ (marksFrom dialect .normal (offset + count) rest).map Mark.sight := by
  induction count generalizing offset with
  | zero => rfl
  | succ count ih =>
    rw [List.replicate_succ, List.cons_append, sights_cons, step_blank spares (.inl rfl),
      show (' ' : Char).utf8Size = 1 from rfl, ih, Nat.add_assoc, Nat.add_comm 1]
    rfl

/-- A scan of the blanked text finds everything in its place. -/
theorem sights_stripFrom (phase : Phase) (offset : Nat) (text : List Char) :
    (marksFrom dialect phase.uncommented offset (stripFrom dialect phase offset text)).map Mark.sight =
      ((marksFrom dialect phase offset text).map Mark.sight).flatMap Sight.blanked := by
  induction text generalizing phase offset with
  | nil => rfl
  | cons c rest ih =>
    rw [sights_cons, List.flatMap_cons, ← ih, stripFrom_cons, Sight.blanked]
    cases comment : (step dialect phase c rest.head?).1.isComment with
    | false =>
      obtain ⟨same, settled⟩ := step_of_not_comment (head?_stripFrom dialect _ (offset + c.utf8Size) rest) comment
      simp only [Bool.false_and, Bool.false_eq_true, if_false, Bool.not_false, if_true, List.singleton_append]
      rw [sights_cons, same, settled]
    | true =>
      obtain ⟨before, after⟩ := uncommented_of_comment comment
      rw [before, after]
      by_cases newline : c = '\n'
      · subst newline
        simp only [bne_self_eq_false, Bool.and_false, Bool.false_eq_true, if_false, Bool.not_true, if_true,
          List.singleton_append]
        rw [sights_cons, step_blank spares (.inr rfl)]
      · have other : (c != '\n') = true := by simpa using newline
        simp only [other, Bool.and_self, if_true, Bool.not_true, Bool.false_eq_true, if_false, if_neg newline]
        rw [sights_spaces spares]

end Strip

theorem mem_spaces {new : Sight} {offset count : Nat} (member : new ∈ spaces offset count) :
    new.char = ' ' ∧ new.state = .normal := by
  induction count generalizing offset with
  | zero => cases member
  | succ count ih =>
    rcases List.mem_cons.1 member with rfl | later
    · exact ⟨rfl, rfl⟩
    · exact ih later

theorem mem_blanked {new old : Sight} (member : new ∈ old.blanked) :
    new = old ∧ old.state.isComment = false ∨ (new.char = ' ' ∨ new.char = '\n') ∧ new.state = .normal := by
  unfold Sight.blanked at member
  split at member
  · rename_i kept
    exact .inl ⟨List.mem_singleton.1 member, by simpa using kept⟩
  · split at member
    · obtain rfl := List.mem_singleton.1 member
      exact .inr ⟨.inr rfl, rfl⟩
    · obtain ⟨space, normal⟩ := mem_spaces member
      exact .inr ⟨.inl space, normal⟩

theorem stripFrom_of_quiet {dialect : Dialect} {phase : Phase} {offset : Nat} {text : List Char}
    (quiet : ∀ mark ∈ marksFrom dialect phase offset text, mark.isComment = false) :
    stripFrom dialect phase offset text = text := by
  induction text generalizing phase offset with
  | nil => rfl
  | cons c rest ih =>
    have later : stripFrom dialect (step dialect phase c rest.head?).2 (offset + c.utf8Size) rest = rest :=
      ih fun mark member => quiet mark (List.mem_cons_of_mem _ member)
    rw [stripFrom_of_not_comment offset (quiet _ (List.mem_cons_self ..)), later]

/-- A text with blanks for its comments. All else stands at its byte position and is found there in its state, every byte
of a comment is a space unless it is a line feed, and a scan finds no comment and nothing else that is new. -/
structure Blanked (dialect : Dialect) (text result : List Char) : Prop where
  length : byteLength result = byteLength text
  covered : ∀ position < byteLength text, ∃ mark ∈ marks dialect text,
    mark.offset ≤ position ∧ position < mark.offset + mark.char.utf8Size
  kept : ∀ mark ∈ marks dialect text, mark.isComment = false ∨ mark.char = '\n' →
    Text.slice result mark.offset (mark.offset + mark.char.utf8Size) = [mark.char]
  spaced : ∀ mark ∈ marks dialect text, mark.isComment = true → mark.char ≠ '\n' →
    Text.slice result mark.offset (mark.offset + mark.char.utf8Size) = List.replicate mark.char.utf8Size ' '
  quiet : ∀ mark ∈ marks dialect result, mark.isComment = false
  states : ∀ mark ∈ marks dialect text, mark.isComment = false → ∃ found ∈ marks dialect result, found.sight = mark.sight
  fresh : ∀ mark ∈ marks dialect result, (∃ old ∈ marks dialect text, old.isComment = false ∧ old.sight = mark.sight) ∨
    (mark.char = ' ' ∨ mark.char = '\n') ∧ mark.state = .normal
  settled : stripComments dialect result = result

theorem slice_stripComments {dialect : Dialect} {text : List Char} {mark : Mark} (member : mark ∈ marks dialect text) :
    Text.slice (stripComments dialect text) mark.offset (mark.offset + mark.char.utf8Size) = mark.replaced := by
  obtain ⟨front, back, split, cut⟩ := exists_cut member
  have whole : stripComments dialect text = front.flatMap Mark.replaced ++ mark.replaced ++ back.flatMap Mark.replaced := by
    have scanned : stripComments dialect text = (marks dialect text).flatMap Mark.replaced := rfl
    rw [scanned, marks, split, List.flatMap_append, List.flatMap_cons, List.append_assoc]
  have before : byteLength (front.flatMap Mark.replaced) = mark.offset := by
    rw [byteLength_flatMap_replaced, cut.offset, Nat.zero_add]
  rw [whole, ← byteLength_replaced mark, ← before]
  exact Text.slice_between ..

theorem blanked_of_sparesBlanks {dialect : Dialect} (spares : dialect.SparesBlanks) (text : List Char) :
    Blanked dialect text (stripComments dialect text) := by
  have sights : (marks dialect (stripComments dialect text)).map Mark.sight =
      ((marks dialect text).map Mark.sight).flatMap Sight.blanked := sights_stripFrom spares .normal 0 text
  have fresh : ∀ mark ∈ marks dialect (stripComments dialect text),
      (∃ old ∈ marks dialect text, old.isComment = false ∧ old.sight = mark.sight) ∨
        (mark.char = ' ' ∨ mark.char = '\n') ∧ mark.state = .normal := by
    intro mark member
    have found : mark.sight ∈ ((marks dialect text).map Mark.sight).flatMap Sight.blanked :=
      sights ▸ List.mem_map_of_mem member
    obtain ⟨sight, inside, blanked⟩ := List.mem_flatMap.1 found
    obtain ⟨old, present, rfl⟩ := List.mem_map.1 inside
    rcases mem_blanked blanked with ⟨same, plain⟩ | blank
    · exact .inl ⟨old, present, plain, same.symm⟩
    · exact .inr blank
  have quiet : ∀ mark ∈ marks dialect (stripComments dialect text), mark.isComment = false := by
    intro mark member
    rcases fresh mark member with ⟨old, -, plain, same⟩ | ⟨-, normal⟩
    · have state : old.state = mark.state := congrArg Sight.state same
      rwa [Mark.isComment, ← state]
    · rw [Mark.isComment, normal]
      rfl
  refine
    { length := ?_, covered := ?_, kept := ?_, spaced := ?_, quiet, states := ?_, fresh, settled := stripFrom_of_quiet quiet }
  · have scanned : stripComments dialect text = (marks dialect text).flatMap Mark.replaced := rfl
    rw [scanned, byteLength_flatMap_replaced, marks, map_char_marksFrom]
  · intro position inside
    exact exists_mark_at .normal (Nat.zero_le _) (by rwa [Nat.zero_add])
  · intro mark member kept
    rw [slice_stripComments member, Mark.replaced, if_neg]
    rcases kept with plain | newline
    · simp [plain]
    · simp [newline]
  · intro mark member comment other
    rw [slice_stripComments member, Mark.replaced, if_pos]
    simpa [comment] using other
  · intro mark member plain
    have found : mark.sight ∈ (marks dialect (stripComments dialect text)).map Mark.sight := by
      rw [sights]
      refine List.mem_flatMap.2 ⟨mark.sight, List.mem_map_of_mem member, ?_⟩
      have kept : (!mark.sight.state.isComment) = true := by
        rw [show mark.sight.state.isComment = mark.isComment from rfl, plain]
        rfl
      rw [Sight.blanked, if_pos kept]
      exact List.mem_singleton_self _
    obtain ⟨found, present, same⟩ := List.mem_map.1 found
    exact ⟨found, present, same⟩

theorem stripComments_blanked (text : List Char) :
    Blanked .modern text (stripComments .modern text) ∧
    Blanked .legacyCode text (stripComments .legacyCode text) ∧
    Blanked .outline text (stripComments .outline text) :=
  ⟨blanked_of_sparesBlanks ⟨by decide, by decide⟩ text, blanked_of_sparesBlanks ⟨by decide, by decide⟩ text,
    blanked_of_sparesBlanks ⟨by decide, by decide⟩ text⟩

end SymbolCache.Lexical
