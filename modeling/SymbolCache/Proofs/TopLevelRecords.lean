import Mathlib.Logic.ExistsUnique
import SymbolCache.Proofs.Enclosure

/-! Records at the top level of a text. A search for the next opening brace and a scan for the brace that closes it, again
and again, take a text with nested braces apart, so that each of its braces lies in exactly one record. A brace that is
never closed ends the list, and only the text before it counts. -/

namespace SymbolCache.Lexical
open Text (byteLength)

/-- Nowhere have more braces been closed than opened, and at the end all have been closed. -/
structure Nested (text : List Char) : Prop where
  above : ∀ front, front <+: text → front.count '}' ≤ front.count '{'
  grounded : text.count '}' = text.count '{'

def Closed (inside : List Char) : Prop := ∃ inner rest, inside = inner ++ '}' :: rest ∧ Nested inner

section Nesting

variable {depth reached offset : Nat} {c : Char} {text inner inside before rest first second : List Char}

private theorem forall_prefix_cons {p : List Char → Prop} :
    (∀ front, front <+: c :: rest → p front) ↔ p [] ∧ ∀ front, front <+: rest → p (c :: front) := by
  constructor
  · intro all
    exact ⟨all [] List.nil_prefix, fun front is => all (c :: front) (List.cons_prefix_cons.2 ⟨rfl, is⟩)⟩
  · intro ⟨empty, all⟩ front is
    rcases List.prefix_cons_iff.1 is with rfl | ⟨shorter, rfl, behind⟩
    · exact empty
    · exact all shorter behind

theorem advance_outline_iff (next : Option Char) : advance .outline next depth .normal text = some (reached, .normal) ↔
    (∀ front, front <+: text → front.count '}' ≤ depth + front.count '{') ∧
      text.count '}' + reached = depth + text.count '{' := by
  induction text generalizing depth with
  | nil => simp [advance, eq_comm]
  | cons c rest ih =>
    simp only [advance, step_outline, forall_prefix_cons, List.count_cons]
    by_cases opens : c = '{'
    · subst opens
      simp [ih, Nat.add_right_comm _ 1, ← Nat.add_assoc]
    · by_cases closes : c = '}'
      · subst closes
        cases depth with
        | zero =>
          refine iff_of_false (by simp) ?_
          rintro ⟨⟨_, above⟩, _⟩
          exact absurd (above [] List.nil_prefix) (by decide)
        | succ outer => simp [ih, Nat.add_right_comm _ 1]
      · simp [ih, opens, closes]

theorem nested_iff : Nested text ↔ Balanced text := by
  unfold Balanced Encloses
  rw [advance_outline_iff]
  simp only [Nat.zero_add, Nat.add_zero]
  exact ⟨fun ⟨above, grounded⟩ => ⟨above, grounded⟩, fun ⟨above, grounded⟩ => ⟨above, grounded⟩⟩

theorem Nested.of_append (nested : Nested (first ++ second)) (front : Nested first) : Nested second := by
  constructor
  · intro more is
    have above := nested.above (first ++ more) ((List.prefix_append_right_inj first).2 is)
    have grounded := front.grounded
    rw [List.count_append, List.count_append] at above
    omega
  · have whole := nested.grounded
    have grounded := front.grounded
    rw [List.count_append, List.count_append] at whole
    omega

theorem Nested.braced (nested : Nested inner) : Nested ('{' :: inner ++ ['}']) :=
  nested_iff.2 (nested_iff.1 nested).braced

theorem closingBrace?_of_nested (nested : Nested inner) (offset : Nat) (rest : List Char) :
    closingBrace? 0 (marksFrom .outline .normal offset (inner ++ '}' :: rest)) =
      some ⟨offset + byteLength inner, '}', .normal, rest⟩ :=
  closingBrace?_of_encloses (by decide) (nested_iff.1 nested) offset rest

theorem closingBrace?_eq_none_iff : closingBrace? 0 (marksFrom .outline .normal offset inside) = none ↔ ¬ Closed inside := by
  constructor
  · intro unclosed ⟨inner, rest, split, nested⟩
    rw [split, closingBrace?_of_nested nested] at unclosed
    cases unclosed
  · intro never
    cases found : closingBrace? 0 (marksFrom .outline .normal offset inside) with
    | none => rfl
    | some close =>
      obtain ⟨inner, split, _, balanced⟩ := exists_of_closingBrace? found
      exact absurd ⟨inner, close.rest, split, nested_iff.2 balanced⟩ never

theorem closed_of_count (more : inside.count '{' < inside.count '}') : Closed inside := by
  apply Classical.byContradiction
  intro never
  have unclosed : closingBrace? 0 (marksFrom .outline .normal 0 inside) = none := closingBrace?_eq_none_iff.2 never
  rw [← List.append_nil inside] at unclosed
  obtain ⟨⟨reached, phase⟩, advances⟩ := advance_isSome_of_closingBrace?_eq_none unclosed
  cases phase_of_advance_outline advances
  have counted := ((advance_outline_iff _).1 advances).2
  omega

theorem Nested.closed (nested : Nested (before ++ '{' :: inside)) : Closed inside := by
  apply closed_of_count
  have above := nested.above before (List.prefix_append ..)
  have grounded := nested.grounded
  rw [List.count_append, List.count_append, List.count_cons_self, List.count_cons_of_ne (by decide)] at grounded
  omega

theorem Closed.append (closed : Closed inside) (more : List Char) : Closed (inside ++ more) := by
  obtain ⟨inner, rest, rfl, nested⟩ := closed
  exact ⟨inner, rest ++ more, by simp, nested⟩

end Nesting

section Reading

variable {c : Char} {inner inside rest front after : List Char} {record : Nat × Nat}

theorem recordsFrom_skip (other : c ≠ '{') (offset : Nat) (rest : List Char) :
    recordsFrom .outline offset (c :: rest) = recordsFrom .outline (offset + c.utf8Size) rest := by
  rw [recordsFrom, if_neg (by simpa using other)]

theorem recordsFrom_unclosed (never : ¬ Closed inside) (offset : Nat) : recordsFrom .outline offset ('{' :: inside) = [] := by
  rw [recordsFrom, if_pos (by decide)]
  split
  next => rfl
  next close found =>
    rw [closingBrace?_eq_none_iff.2 never] at found
    cases found

theorem recordsFrom_record (nested : Nested inner) (offset : Nat) (rest : List Char) :
    recordsFrom .outline offset ('{' :: inner ++ '}' :: rest) =
      (offset, offset + 1 + byteLength inner) :: recordsFrom .outline (offset + 1 + byteLength inner + 1) rest := by
  have closes := closingBrace?_of_nested nested (offset + 1) rest
  rw [List.cons_append, recordsFrom, if_pos (by decide)]
  split
  next unclosed =>
    rw [closes] at unclosed
    cases unclosed
  next close found =>
    rw [closes] at found
    cases found
    rfl

/-- A text is read from left to right: a character that opens no record is passed by, a record is passed as a whole, and
a brace that is never closed is the end. -/
@[elab_as_elim]
theorem records_induction {motive : List Char → Prop} (text : List Char) (nil : motive [])
    (skip : ∀ c rest, c ≠ '{' → motive rest → motive (c :: rest))
    (unclosed : ∀ inside, ¬ Closed inside → motive ('{' :: inside))
    (record : ∀ inner rest, Nested inner → motive rest → motive ('{' :: inner ++ '}' :: rest)) : motive text := by
  generalize size : text.length = length
  induction length using Nat.strongRecOn generalizing text with
  | ind length ih =>
    cases text with
    | nil => exact nil
    | cons c rest =>
      rw [List.length_cons] at size
      by_cases opens : c = '{'
      · subst opens
        by_cases closed : Closed rest
        · obtain ⟨inner, after, rfl, nested⟩ := closed
          rw [List.length_append, List.length_cons] at size
          exact record inner after nested (ih _ (by omega) after rfl)
        · exact unclosed rest closed
      · exact skip c rest opens (ih _ (by omega) rest rfl)

/-- A pair of braces in a text, by their byte offsets, with nested braces between. -/
def IsRecord (text : List Char) (record : Nat × Nat) : Prop :=
  ∃ before inner after, text = before ++ '{' :: inner ++ '}' :: after ∧ Nested inner ∧
    record.1 = byteLength before ∧ record.2 = byteLength (before ++ '{' :: inner)

theorem isRecord_of_mem_recordsFrom {text : List Char} (earlier : List Char)
    (member : record ∈ recordsFrom .outline (byteLength earlier) text) : IsRecord (earlier ++ text) record := by
  induction text using records_induction generalizing earlier with
  | nil => simp [recordsFrom] at member
  | skip c rest other ih =>
    rw [recordsFrom_skip other] at member
    have found := ih (earlier ++ [c]) (by simpa [byteLength] using member)
    rwa [List.append_assoc] at found
  | unclosed inside never =>
    rw [recordsFrom_unclosed never] at member
    cases member
  | record inner rest nested ih =>
    have width : byteLength (earlier ++ '{' :: inner) = byteLength earlier + 1 + byteLength inner := by
      rw [Text.byteLength_append, byteLength, Nat.add_assoc]
      rfl
    rw [recordsFrom_record nested] at member
    rcases List.mem_cons.1 member with rfl | later
    · exact ⟨earlier, inner, rest, by simp, nested, rfl, width.symm⟩
    · have position : byteLength (earlier ++ ('{' :: inner ++ ['}'])) = byteLength earlier + 1 + byteLength inner + 1 := by
        rw [← List.append_assoc, Text.byteLength_append, width]
        rfl
      have found := ih (earlier ++ ('{' :: inner ++ ['}'])) (by rwa [position])
      simpa using found

theorem bounds_of_mem_recordsFrom {text : List Char} {offset : Nat} (member : record ∈ recordsFrom .outline offset text) :
    offset ≤ record.1 ∧ record.1 < record.2 := by
  induction text using records_induction generalizing offset with
  | nil => simp [recordsFrom] at member
  | skip c rest other ih =>
    rw [recordsFrom_skip other] at member
    obtain ⟨behind, rises⟩ := ih member
    exact ⟨by omega, rises⟩
  | unclosed inside never =>
    rw [recordsFrom_unclosed never] at member
    cases member
  | record inner rest nested ih =>
    rw [recordsFrom_record nested] at member
    rcases List.mem_cons.1 member with rfl | later
    · constructor
      · exact Nat.le_refl offset
      · show offset < offset + 1 + byteLength inner
        omega
    · obtain ⟨behind, rises⟩ := ih later
      exact ⟨by omega, rises⟩

theorem apart_recordsFrom (offset : Nat) (text : List Char) :
    (recordsFrom .outline offset text).Pairwise fun first second => first.2 < second.1 := by
  induction text using records_induction generalizing offset with
  | nil => simp [recordsFrom]
  | skip c rest other ih =>
    rw [recordsFrom_skip other]
    exact ih _
  | unclosed inside never =>
    rw [recordsFrom_unclosed never]
    exact .nil
  | record inner rest nested ih =>
    rw [recordsFrom_record nested]
    exact .cons (fun later member => (bounds_of_mem_recordsFrom member).1) (ih _)

/-- A byte position in a record, its braces included. -/
def Covers (record : Nat × Nat) (position : Nat) : Prop := record.1 ≤ position ∧ position ≤ record.2

private theorem behind_or_within {first second before after : List Char} (split : first ++ second = before ++ after) :
    (∃ skipped, before = first ++ skipped ∧ second = skipped ++ after) ∨ byteLength before < byteLength first := by
  rcases List.append_eq_append_iff.1 split with ⟨skipped, front, behind⟩ | ⟨left, front, behind⟩
  · exact .inl ⟨skipped, front, behind⟩
  · cases left with
    | nil => exact .inl ⟨[], by simpa using front.symm, by simpa using behind.symm⟩
    | cons c left =>
      have := Text.byteLength_pos c left
      rw [front, Text.byteLength_append]
      exact .inr (by omega)

theorem covered_recordsFrom {text before after : List Char} {brace : Char} (nested : Nested text) (offset : Nat)
    (split : text = before ++ brace :: after) (isBrace : brace = '{' ∨ brace = '}') :
    ∃ record ∈ recordsFrom .outline offset text, Covers record (offset + byteLength before) := by
  induction text using records_induction generalizing offset before with
  | nil => simp at split
  | skip c rest other ih =>
    have plain : c ≠ '}' := by
      rintro rfl
      exact absurd (nested.above ['}'] ⟨rest, rfl⟩) (by decide)
    have front : Nested [c] := nested_iff.2 (.of_not_mem (by simp [Ne.symm other]) (by simp [Ne.symm plain]))
    rw [recordsFrom_skip other]
    cases before with
    | nil =>
      obtain ⟨rfl, _⟩ := List.cons.inj split
      rcases isBrace with opens | closes
      · exact absurd opens other
      · exact absurd closes plain
    | cons first before =>
      obtain ⟨rfl, later⟩ := List.cons.inj split
      obtain ⟨record, member, covers⟩ := ih (nested.of_append front) (offset + c.utf8Size) later
      rw [Nat.add_assoc] at covers
      exact ⟨record, member, covers⟩
  | unclosed inside never =>
    have whole : Nested ([] ++ '{' :: inside) := nested
    exact absurd whole.closed never
  | record inner rest within ih =>
    have whole : '{' :: inner ++ '}' :: rest = '{' :: inner ++ ['}'] ++ rest := by simp
    have width : byteLength ('{' :: inner ++ ['}']) = 1 + byteLength inner + 1 := by
      rw [Text.byteLength_append, byteLength]
      rfl
    rw [recordsFrom_record within]
    rw [whole] at split nested
    rcases behind_or_within split with ⟨skipped, rfl, later⟩ | inside
    · obtain ⟨record, member, covers⟩ := ih (nested.of_append within.braced) (offset + 1 + byteLength inner + 1) later
      have position : offset + 1 + byteLength inner + 1 + byteLength skipped =
          offset + byteLength ('{' :: inner ++ ['}'] ++ skipped) := by
        rw [Text.byteLength_append, width]
        omega
      rw [position] at covers
      exact ⟨record, List.mem_cons_of_mem _ member, covers⟩
    · rw [width] at inside
      refine ⟨_, List.mem_cons_self .., Nat.le_add_right .., ?_⟩
      show offset + byteLength before ≤ offset + 1 + byteLength inner
      omega

theorem eq_of_covers {records : List (Nat × Nat)} (apart : records.Pairwise fun first second => first.2 < second.1)
    {first second : Nat × Nat} (isFirst : first ∈ records) (isSecond : second ∈ records) {position : Nat}
    (covers : Covers first position) (coversToo : Covers second position) : first = second := by
  have earlier {one other : Nat × Nat} (before : one.2 < other.1) (covers : Covers one position) : ¬ Covers other position :=
    fun coversToo => absurd (Nat.lt_of_le_of_lt covers.2 before) (Nat.not_lt_of_le coversToo.1)
  induction apart with
  | nil => cases isFirst
  | cons before _ ih =>
    rcases List.mem_cons.1 isFirst with rfl | firstLater
    · rcases List.mem_cons.1 isSecond with rfl | secondLater
      · rfl
      · exact absurd coversToo (earlier (before _ secondLater) covers)
    · rcases List.mem_cons.1 isSecond with rfl | secondLater
      · exact absurd covers (earlier (before _ firstLater) coversToo)
      · exact ih firstLater secondLater

/-- A text cut before its first opening brace that is never closed, or at its end if there is none. -/
structure CutsAtUnclosed (front rest : List Char) : Prop where
  closed : ∀ before inside, front = before ++ '{' :: inside → Closed (inside ++ rest)
  stops : rest = [] ∨ ∃ inside, rest = '{' :: inside ∧ ¬ Closed inside

namespace CutsAtUnclosed

theorem tail (cuts : CutsAtUnclosed (c :: front) rest) : CutsAtUnclosed front rest :=
  ⟨fun before inside split => cuts.closed (c :: before) inside (by rw [split, List.cons_append]), cuts.stops⟩

theorem behind {first : List Char} (cuts : CutsAtUnclosed (first ++ front) rest) : CutsAtUnclosed front rest := by
  induction first with
  | nil => exact cuts
  | cons c first ih => exact ih cuts.tail

theorem exists_cut (text : List Char) : ∃ front rest, text = front ++ rest ∧ CutsAtUnclosed front rest := by
  induction text with
  | nil => exact ⟨[], [], rfl, by simp, .inl rfl⟩
  | cons c text ih =>
    by_cases unclosed : c = '{' ∧ ¬ Closed text
    · exact ⟨[], c :: text, rfl, by simp, .inr ⟨text, by rw [unclosed.1], unclosed.2⟩⟩
    · obtain ⟨front, rest, rfl, cuts⟩ := ih
      refine ⟨c :: front, rest, rfl, ?_, cuts.stops⟩
      intro before inside split
      cases before with
      | nil =>
        obtain ⟨rfl, rfl⟩ := List.cons.inj split
        exact Classical.not_not.1 fun never => unclosed ⟨rfl, never⟩
      | cons first before => exact cuts.closed before inside (List.cons.inj split).2

theorem closed_in_front (cuts : CutsAtUnclosed ('{' :: inside) rest) : Closed inside := by
  obtain ⟨inner, after, split, nested⟩ := cuts.closed [] inside rfl
  rcases List.append_eq_append_iff.1 split with ⟨skipped, rfl, behind⟩ | ⟨left, rfl, behind⟩
  · rcases cuts.stops with rfl | ⟨unclosed, rfl, never⟩
    · simp at behind
    · cases skipped with
      | nil => simp at behind
      | cons c more =>
        obtain ⟨rfl, rfl⟩ := List.cons.inj behind
        exact absurd (nested.closed.append _) never
  · cases left with
    | nil =>
      rcases cuts.stops with rfl | ⟨unclosed, rfl, _⟩ <;> simp at behind
    | cons c left =>
      obtain ⟨rfl, _⟩ := List.cons.inj behind
      exact ⟨inner, left, rfl, nested⟩

/-- Behind the cut nothing is read. -/
theorem recordsFrom_append (cuts : CutsAtUnclosed front rest) (offset : Nat) :
    recordsFrom .outline offset (front ++ rest) = recordsFrom .outline offset front := by
  induction front using records_induction generalizing offset with
  | nil =>
    rcases cuts.stops with rfl | ⟨inside, rfl, never⟩
    · rfl
    · rw [List.nil_append, recordsFrom_unclosed never, recordsFrom]
  | skip c front other ih => rw [List.cons_append, recordsFrom_skip other, recordsFrom_skip other, ih cuts.tail]
  | unclosed inside never => exact absurd cuts.closed_in_front never
  | record inner front nested ih =>
    have later : CutsAtUnclosed front rest := by
      rw [List.append_cons] at cuts
      exact cuts.behind
    have whole : '{' :: inner ++ '}' :: front ++ rest = '{' :: inner ++ '}' :: (front ++ rest) := by simp
    rw [whole, recordsFrom_record nested, recordsFrom_record nested, ih later]

end CutsAtUnclosed

/-- Records one behind the other to which the braces of a text belong, each brace to one of them. -/
structure Partitions (text : List Char) (records : List (Nat × Nat)) : Prop where
  paired : ∀ record ∈ records, record.1 < record.2 ∧ IsRecord text record
  apart : records.Pairwise fun first second => first.2 < second.1
  covered : ∀ before brace after, text = before ++ brace :: after → brace = '{' ∨ brace = '}' →
    ∃! record, record ∈ records ∧ Covers record (byteLength before)

/-- The records of a nested text partition it, and those of any text are the records of the part before its first
opening brace that is never closed. -/
theorem records_partition (text : List Char) : (Nested text → Partitions text (records .outline text)) ∧
    (∃ front rest, text = front ++ rest ∧ CutsAtUnclosed front rest) ∧
    ∀ front rest, text = front ++ rest → CutsAtUnclosed front rest → records .outline text = records .outline front := by
  refine ⟨fun nested => ⟨?_, ?_, ?_⟩, CutsAtUnclosed.exists_cut text, ?_⟩
  · intro record member
    exact ⟨(bounds_of_mem_recordsFrom member).2, isRecord_of_mem_recordsFrom [] member⟩
  · exact apart_recordsFrom 0 text
  · intro before brace after split isBrace
    obtain ⟨record, member, covers⟩ := covered_recordsFrom nested 0 split isBrace
    rw [Nat.zero_add] at covers
    refine ⟨record, ⟨member, covers⟩, ?_⟩
    intro other ⟨otherMember, otherCovers⟩
    exact eq_of_covers (apart_recordsFrom 0 text) otherMember member otherCovers covers
  · intro front rest split cuts
    rw [split]
    exact cuts.recordsFrom_append 0

end Reading

/-- A nested text with a record in a record, alone and before a brace that is never closed. -/
theorem records_partition_nested_record :
    let front : List Char := " \x7b 1;\x7bx\x7d \x7d\n \x7b 2 \x7d ".toList
    let rest : List Char := "\x7b 3".toList
    (Nested front ∧ Partitions front (records .outline front)) ∧
      CutsAtUnclosed front rest ∧ records .outline (front ++ rest) = records .outline front := by
  intro front rest
  have nested : Nested front := nested_iff.2 (by unfold Balanced Encloses; decide +kernel)
  have unclosed : closingBrace? 0 (marksFrom .outline .normal 0 " 3".toList) = none := by decide +kernel
  have cuts : CutsAtUnclosed front rest := by
    constructor
    · intro before inside split
      rw [split] at nested
      exact nested.closed.append rest
    · exact .inr ⟨_, rfl, closingBrace?_eq_none_iff.1 unclosed⟩
  exact ⟨⟨nested, (records_partition front).1 nested⟩, cuts, (records_partition (front ++ rest)).2.2 front rest rfl cuts⟩

example : records .outline " \x7b 1;\x7bx\x7d \x7d\n \x7b 2 \x7d \x7b 3".toList = [(1, 9), (12, 16)] := by decide +kernel

end SymbolCache.Lexical
