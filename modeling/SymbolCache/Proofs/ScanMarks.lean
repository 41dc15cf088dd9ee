import SymbolCache.Lexical.State
import SymbolCache.Proofs.TextPositions

/-! Where the marks of a scan stand. A scan that is cut at a mark cuts the text there, at the byte offset that the mark
tells, and goes on behind it as a scan of the rest. -/

namespace SymbolCache.Lexical
open Text (byteLength)

variable {dialect : Dialect} {phase : Phase} {offset : Nat} {text : List Char}

theorem map_char_marksFrom (dialect : Dialect) (phase : Phase) (offset : Nat) (text : List Char) :
    (marksFrom dialect phase offset text).map Mark.char = text := by
  induction text generalizing phase offset with
  | nil => rfl
  | cons c rest ih => simp only [marksFrom, List.map_cons, ih]

/-- A mark cuts the text at its offset, and the scan before it cuts off the same text. -/
structure Cut (dialect : Dialect) (offset : Nat) (text : List Char) (front : List Mark) (mark : Mark) (back : List Mark) :
    Prop where
  text : text = front.map Mark.char ++ mark.text
  offset : mark.offset = offset + byteLength (front.map Mark.char)
  rest : ∃ here, (step dialect here mark.char mark.rest.head?).1 = mark.state ∧
    back = marksFrom dialect (step dialect here mark.char mark.rest.head?).2 (mark.offset + mark.char.utf8Size) mark.rest

theorem cut_of_split {front back : List Mark} {mark : Mark}
    (split : marksFrom dialect phase offset text = front ++ mark :: back) : Cut dialect offset text front mark back := by
  induction front generalizing phase offset text with
  | nil =>
    cases text with
    | nil => cases split
    | cons c rest =>
      obtain ⟨rfl, rfl⟩ := List.cons.inj split
      exact ⟨rfl, rfl, phase, rfl, rfl⟩
  | cons first front ih =>
    cases text with
    | nil => cases split
    | cons c rest =>
      obtain ⟨rfl, later⟩ := List.cons.inj split
      obtain ⟨whole, position, continues⟩ := ih later
      refine ⟨by rw [whole, List.map_cons, List.cons_append], ?_, continues⟩
      rw [position, List.map_cons, byteLength, Nat.add_assoc]

theorem exists_cut {mark : Mark} (member : mark ∈ marksFrom dialect phase offset text) :
    ∃ front back, marksFrom dialect phase offset text = front ++ mark :: back ∧ Cut dialect offset text front mark back := by
  obtain ⟨front, back, split⟩ := List.append_of_mem member
  exact ⟨front, back, split, cut_of_split split⟩

theorem ordered_marksFrom (dialect : Dialect) (phase : Phase) (offset : Nat) (text : List Char) :
    (marksFrom dialect phase offset text).Pairwise (·.offset < ·.offset) := by
  induction text generalizing phase offset with
  | nil => exact .nil
  | cons c rest ih =>
    refine .cons (fun mark later => ?_) (ih _ _)
    obtain ⟨front, back, -, cut⟩ := exists_cut later
    calc offset
      _ < offset + c.utf8Size := Nat.lt_add_of_pos_right c.utf8Size_pos
      _ ≤ offset + c.utf8Size + byteLength (front.map Mark.char) := Nat.le_add_right ..
      _ = mark.offset := cut.offset.symm

/-- Every byte of a text belongs to a mark. -/
theorem exists_mark_at (phase : Phase) {position : Nat} (reached : offset ≤ position)
    (inside : position < offset + byteLength text) : ∃ mark ∈ marksFrom dialect phase offset text,
      mark.offset ≤ position ∧ position < mark.offset + mark.char.utf8Size := by
  induction text generalizing phase offset with
  | nil =>
    simp only [byteLength] at inside
    omega
  | cons c rest ih =>
    by_cases here : position < offset + c.utf8Size
    · exact ⟨_, List.mem_cons_self .., reached, here⟩
    · rw [byteLength] at inside
      obtain ⟨mark, member, covers⟩ := ih (step dialect phase c rest.head?).2 (Nat.le_of_not_lt here) (by omega)
      exact ⟨mark, List.mem_cons_of_mem _ member, covers⟩

theorem marksAt_byteLength (dialect : Dialect) (front rest : List Char) :
    marksAt dialect (front ++ rest) (byteLength front) = marksFrom dialect .normal (byteLength front) rest := by
  rw [marksAt, Text.dropBytes_byteLength]

/-- A mark cuts the whole text at its offset, wherever the scan has begun. -/
theorem exists_of_mem_marksAt {start : Nat} {mark : Mark}
    (member : mark ∈ marksAt dialect text start) : ∃ front, text = front ++ mark.text ∧ byteLength front = mark.offset := by
  unfold marksAt at member
  split at member
  · rename_i rest drops
    obtain ⟨skipped, rfl, rfl⟩ := Text.exists_of_dropBytes drops
    obtain ⟨front, back, -, cut⟩ := exists_cut member
    refine ⟨skipped ++ front.map Mark.char, ?_, ?_⟩
    · rw [List.append_assoc, ← cut.text]
    · rw [Text.byteLength_append, cut.offset]
  · cases member

theorem ordered_marksAt (dialect : Dialect) (text : List Char) (start : Nat) :
    (marksAt dialect text start).Pairwise (·.offset < ·.offset) := by
  unfold marksAt
  split
  · exact ordered_marksFrom ..
  · exact .nil

/-- The scan of a block begins behind its opening brace. -/
theorem marksAt_behind (dialect : Dialect) (front inside : List Char) :
    marksAt dialect (front ++ '{' :: inside) (byteLength front + 1) =
      marksFrom dialect .normal (byteLength front + 1) inside := by
  have behind := marksAt_byteLength dialect (front ++ ['{']) inside
  rwa [List.append_assoc, Text.byteLength_append] at behind

end SymbolCache.Lexical
