import Mathlib.Combinatorics.Enumerative.DyckWord
import SymbolCache.Proofs.LegacyActions
import SymbolCache.Proofs.ScanMarks

/-! Where a named block lies. The search scans once for the keyword and once more for the closing brace; what it answers
is the first keyword that introduces a block, and the one brace behind which the braces of the block balance. -/

namespace SymbolCache

namespace Lexical
open Text (byteLength)

def Mark.brace? (mark : Mark) : Option DyckStep :=
  if mark.isNormal && mark.char == '{' then some .U else if mark.isNormal && mark.char == '}' then some .D else none

def braces (scan : List Mark) : List DyckStep := scan.filterMap Mark.brace?

/-- Steps that lead from a depth down to the ground and never below it. -/
structure Descends (depth : Nat) (steps : List DyckStep) : Prop where
  lands : steps.count .D = depth + steps.count .U
  above : ∀ i, (steps.take i).count .D ≤ depth + (steps.take i).count .U

section Descends

variable {depth : Nat} {steps : List DyckStep}

theorem count_up (steps : List DyckStep) :
    (DyckStep.U :: steps).count .D = steps.count .D ∧ (DyckStep.U :: steps).count .U = steps.count .U + 1 :=
  ⟨List.count_cons_of_ne (by decide), List.count_cons_self⟩

theorem count_down (steps : List DyckStep) :
    (DyckStep.D :: steps).count .D = steps.count .D + 1 ∧ (DyckStep.D :: steps).count .U = steps.count .U :=
  ⟨List.count_cons_self, List.count_cons_of_ne (by decide)⟩

theorem descends_nil : Descends depth [] ↔ depth = 0 := by
  constructor
  · intro descends
    have lands : 0 = depth + 0 := descends.lands
    omega
  · rintro rfl
    exact ⟨rfl, fun i => by rw [List.take_nil]; exact Nat.le_refl 0⟩

theorem descends_up : Descends depth (.U :: steps) ↔ Descends (depth + 1) steps := by
  constructor
  · intro ⟨lands, above⟩
    rw [(count_up _).1, (count_up _).2] at lands
    refine ⟨by omega, fun i => ?_⟩
    have next := above (i + 1)
    rw [List.take_succ_cons, (count_up _).1, (count_up _).2] at next
    omega
  · intro ⟨lands, above⟩
    refine ⟨by rw [(count_up _).1, (count_up _).2]; omega, fun i => ?_⟩
    cases i with
    | zero => exact Nat.zero_le _
    | succ i =>
      have next := above i
      rw [List.take_succ_cons, (count_up _).1, (count_up _).2]
      omega

theorem descends_down : Descends depth (.D :: steps) ↔ ∃ outer, depth = outer + 1 ∧ Descends outer steps := by
  constructor
  · intro ⟨lands, above⟩
    have first : 0 < depth := above 1
    obtain ⟨outer, rfl⟩ := Nat.exists_eq_succ_of_ne_zero (Nat.ne_of_gt first)
    rw [(count_down _).1, (count_down _).2] at lands
    refine ⟨outer, rfl, by omega, fun i => ?_⟩
    have next := above (i + 1)
    rw [List.take_succ_cons, (count_down _).1, (count_down _).2] at next
    omega
  · rintro ⟨outer, rfl, lands, above⟩
    refine ⟨by rw [(count_down _).1, (count_down _).2]; omega, fun i => ?_⟩
    cases i with
    | zero => exact Nat.zero_le _
    | succ i =>
      have next := above i
      rw [List.take_succ_cons, (count_down _).1, (count_down _).2]
      omega

theorem descends_zero : Descends 0 steps ↔ ∃ word : DyckWord, word.toList = steps := by
  constructor
  · intro ⟨lands, above⟩
    exact ⟨⟨steps, by rw [lands, Nat.zero_add], fun i => by simpa using above i⟩, rfl⟩
  · rintro ⟨word, rfl⟩
    exact ⟨by rw [word.count_U_eq_count_D, Nat.zero_add], fun i => by simpa using word.count_D_le_count_U i⟩

end Descends

/-- A closing brace in normal state before which the braces lead down from a depth to the ground. -/
def ClosedBy (depth : Nat) (scan : List Mark) (close : Mark) : Prop :=
  ∃ between after, scan = between ++ close :: after ∧ close.isNormal = true ∧ close.char = '}' ∧
    Descends depth (braces between)

section Closing

variable {depth : Nat} {scan : List Mark} {mark close : Mark}

theorem closedBy_cons : ClosedBy depth (mark :: scan) close ↔
    (mark = close ∧ depth = 0 ∧ close.isNormal = true ∧ close.char = '}') ∨
      ∃ between after, scan = between ++ close :: after ∧ close.isNormal = true ∧ close.char = '}' ∧
        Descends depth (braces (mark :: between)) := by
  constructor
  · rintro ⟨between, after, split, normal, brace, descends⟩
    cases between with
    | nil =>
      obtain ⟨rfl, rfl⟩ := List.cons.inj split
      exact .inl ⟨rfl, descends_nil.1 descends, normal, brace⟩
    | cons first between =>
      obtain ⟨rfl, rfl⟩ := List.cons.inj split
      exact .inr ⟨between, after, rfl, normal, brace, descends⟩
  · rintro (⟨rfl, rfl, normal, brace⟩ | ⟨between, after, rfl, normal, brace, descends⟩)
    · exact ⟨[], scan, rfl, normal, brace, descends_nil.2 rfl⟩
    · exact ⟨mark :: between, after, rfl, normal, brace, descends⟩

theorem closingBrace?_eq_some_iff : closingBrace? depth scan = some close ↔ ClosedBy depth scan close := by
  induction scan generalizing depth with
  | nil =>
    refine iff_of_false (by simp [closingBrace?]) ?_
    rintro ⟨between, after, split, -⟩
    simp at split
  | cons mark rest ih =>
    rw [closedBy_cons]
    by_cases opens : (mark.isNormal && mark.char == '{') = true
    · have step (between : List Mark) : braces (mark :: between) = .U :: braces between :=
        List.filterMap_cons_some (by rw [Mark.brace?, if_pos opens])
      have other : ¬ (mark = close ∧ depth = 0 ∧ close.isNormal = true ∧ close.char = '}') := by
        rintro ⟨rfl, -, -, brace⟩
        simp [brace] at opens
      simp only [closingBrace?, if_pos opens, ih, step, descends_up, other, false_or]
      rfl
    · by_cases closes : (mark.isNormal && mark.char == '}') = true
      · have step (between : List Mark) : braces (mark :: between) = .D :: braces between :=
          List.filterMap_cons_some (by rw [Mark.brace?, if_neg opens, if_pos closes])
        simp only [closingBrace?, if_neg opens, if_pos closes, step, descends_down]
        cases depth with
        | zero =>
          simp only [Bool.and_eq_true, beq_iff_eq] at closes
          constructor
          · rintro ⟨⟩
            exact .inl ⟨rfl, rfl, closes⟩
          · rintro (⟨rfl, -⟩ | ⟨_, _, _, _, _, _, impossible, _⟩)
            · rfl
            · cases impossible
        | succ outer =>
          simp [ih, ClosedBy]
      · have step (between : List Mark) : braces (mark :: between) = braces between :=
          List.filterMap_cons_none (by rw [Mark.brace?, if_neg opens, if_neg closes])
        have other : ¬ (mark = close ∧ depth = 0 ∧ close.isNormal = true ∧ close.char = '}') := by
          rintro ⟨rfl, -, normal, brace⟩
          simp [normal, brace] at closes
        simp only [closingBrace?, if_neg opens, if_neg closes, ih, step, other, false_or]
        rfl

end Closing

/-- A keyword as a whole word with only blanks between it and an opening brace. -/
def Opens (keyword text : List Char) (distance : Nat) (inside : List Char) : Prop :=
  ∃ word gap, text = word ++ (gap ++ '{' :: inside) ∧ Text.sameWord word keyword = true ∧
    Text.Stops isWordChar (gap ++ '{' :: inside) ∧ (∀ c ∈ gap, Text.isBlank c = true) ∧ distance = byteLength (word ++ gap)

theorem stripWord?_append {word keyword : List Char} (same : Text.sameWord word keyword = true) (rest : List Char) :
    Text.stripWord? keyword (word ++ rest) = some rest := by
  induction word generalizing keyword with
  | nil =>
    cases keyword with
    | nil => rfl
    | cons p keyword => simp [Text.sameWord] at same
  | cons c word ih =>
    cases keyword with
    | nil => simp [Text.sameWord] at same
    | cons p keyword =>
      simp only [Text.sameWord, List.map_cons, beq_iff_eq, List.cons.injEq] at same
      rw [List.cons_append, Text.stripWord?, if_pos (beq_iff_eq.2 same.1.symm), ih (beq_iff_eq.2 same.2)]

theorem openingAfter?_eq_some_iff {keyword text inside : List Char} {distance : Nat} :
    openingAfter? keyword text = some (distance, inside) ↔ Opens keyword text distance inside := by
  constructor
  · intro opens
    unfold openingAfter? at opens
    split at opens
    · cases opens
    · rename_i rest strips
      split at opens
      · cases opens
      · rename_i whole
        split at opens
        · rename_i body trimmed
          cases opens
          obtain ⟨word, split, length, lower, -⟩ := exists_of_stripWord? strips
          have gap : rest.takeWhile Text.isBlank ++ '{' :: inside = rest := by
            rw [← trimmed, Text.trimStart, List.takeWhile_append_dropWhile]
          refine ⟨word, rest.takeWhile Text.isBlank, by rw [gap, split], beq_iff_eq.2 lower, ?_,
            List.all_eq_true.1 List.all_takeWhile, by rw [Text.byteLength_append, length]⟩
          rw [gap]
          exact Text.any_head?_eq_false.1 (eq_false_of_ne_true whole)
        · cases opens
  · rintro ⟨word, gap, rfl, same, whole, blank, rfl⟩
    have strips := stripWord?_append same (gap ++ '{' :: inside)
    obtain ⟨word', split, length, -⟩ := exists_of_stripWord? strips
    have stops : Text.Stops Text.isBlank ('{' :: inside) := .cons (by decide) inside
    obtain rfl := List.append_cancel_right split
    simp only [openingAfter?, strips, Text.any_head?_eq_false.2 whole, Bool.false_eq_true, if_false,
      Text.trimStart_run blank stops, Text.takeWhile_run blank stops, Text.byteLength_append, length]

def preceding (previous : Option Char) (before : List Mark) : Option Char :=
  (before.getLast?.map Mark.char).or previous

theorem preceding_cons (previous : Option Char) (mark : Mark) (before : List Mark) :
    preceding previous (mark :: before) = preceding (some mark.char) before := by
  cases h : before.getLast? <;> simp [preceding, List.getLast?_cons, h]

/-- A mark in normal state and after no word character, at which a keyword opens a block. -/
structure Candidate (keyword : List Char) (previous : Option Char) (mark : Mark) (distance : Nat) (inside : List Char) :
    Prop where
  normal : mark.isNormal = true
  free : previous.any isWordChar = false
  opens : Opens keyword mark.text distance inside

theorem candidate_iff {keyword inside : List Char} {previous : Option Char} {mark : Mark} {distance : Nat} :
    (if mark.isNormal && !previous.any isWordChar then openingAfter? keyword mark.text else none) =
        some (distance, inside) ↔ Candidate keyword previous mark distance inside := by
  constructor
  · intro candidate
    split at candidate
    · rename_i free
      rw [Bool.and_eq_true, Bool.not_eq_true'] at free
      exact ⟨free.1, free.2, openingAfter?_eq_some_iff.1 candidate⟩
    · cases candidate
  · intro ⟨normal, free, opens⟩
    rw [normal, free]
    exact openingAfter?_eq_some_iff.2 opens

def Reaches (keyword : List Char) (previous : Option Char) (scan : List Mark) (mark : Mark) (distance : Nat)
    (inside : List Char) : Prop :=
  ∃ before after, scan = before ++ mark :: after ∧ Candidate keyword (preceding previous before) mark distance inside

section Search

variable {keyword inside : List Char} {previous : Option Char} {first mark : Mark} {rest scan : List Mark}
  {distance : Nat}

theorem reaches_cons : Reaches keyword previous (first :: rest) mark distance inside ↔
    (first = mark ∧ Candidate keyword previous mark distance inside) ∨
      Reaches keyword (some first.char) rest mark distance inside := by
  constructor
  · rintro ⟨before, after, split, candidate⟩
    cases before with
    | nil =>
      obtain ⟨rfl, rfl⟩ := List.cons.inj split
      exact .inl ⟨rfl, candidate⟩
    | cons skipped before =>
      obtain ⟨rfl, rfl⟩ := List.cons.inj split
      rw [preceding_cons] at candidate
      exact .inr ⟨before, after, rfl, candidate⟩
  · rintro (⟨rfl, candidate⟩ | ⟨before, after, rfl, candidate⟩)
    · exact ⟨[], rest, rfl, candidate⟩
    · exact ⟨first :: before, after, rfl, by rwa [preceding_cons]⟩

def answerAt (body : Dialect) (mark : Mark) (distance : Nat) (inside : List Char) : Lookup :=
  match closingBrace? 0 (marksFrom body .normal (mark.offset + distance + 1) inside) with
  | some close => .found ⟨mark.offset, mark.offset + distance, close.offset⟩
  | none => .malformed mark.offset

/-- The search answers at the first candidate, and candidates later in the scan count for nothing. -/
theorem locateIn_cases (body : Dialect) (keyword : List Char) (previous : Option Char)
    (ordered : scan.Pairwise (·.offset < ·.offset)) :
    (locateIn body keyword previous scan = .missing ∧
        ∀ mark distance inside, ¬ Reaches keyword previous scan mark distance inside) ∨
      ∃ mark distance inside, Reaches keyword previous scan mark distance inside ∧
        locateIn body keyword previous scan = answerAt body mark distance inside ∧
        ∀ other distance' inside', Reaches keyword previous scan other distance' inside' →
          mark.offset < other.offset ∨ other = mark ∧ distance' = distance ∧ inside' = inside := by
  induction scan generalizing previous with
  | nil =>
    refine .inl ⟨rfl, ?_⟩
    rintro mark distance inside ⟨before, after, split, -⟩
    simp at split
  | cons first rest ih =>
    obtain ⟨later, ordered⟩ := List.pairwise_cons.1 ordered
    simp only [reaches_cons, locateIn]
    cases candidate : (if first.isNormal && !previous.any isWordChar then openingAfter? keyword first.text else none) with
    | none =>
      -- A keyword that was passed by opens nothing here, so the candidates are those of the rest.
      have never (mark : Mark) (distance : Nat) (inside : List Char) :
          ¬ (first = mark ∧ Candidate keyword previous mark distance inside) := by
        rintro ⟨rfl, is⟩
        rw [candidate_iff.2 is] at candidate
        cases candidate
      simpa only [never, false_or] using ih (some first.char) ordered
    | some opening =>
      obtain ⟨distance, inside⟩ := opening
      refine .inr ⟨first, distance, inside, .inl ⟨rfl, candidate_iff.1 candidate⟩, rfl, ?_⟩
      rintro other distance' inside' (⟨rfl, is⟩ | ⟨before, after, rfl, -⟩)
      · rw [candidate_iff.2 is] at candidate
        cases candidate
        exact .inr ⟨rfl, rfl, rfl⟩
      · exact .inl (later other (List.mem_append_right _ (List.mem_cons_self ..)))

end Search

/-- From a byte position on, a keyword introduces a block with its brace at another position. -/
def Introduces (outside : Dialect) (keyword text : List Char) (start position opening : Nat) : Prop :=
  ∃ mark distance inside, Reaches keyword none (marksAt outside text (min start (byteLength text))) mark distance inside ∧
    mark.offset = position ∧ opening = position + distance

/-- The first keyword that introduces a block. -/
structure Leads (outside : Dialect) (keyword text : List Char) (start position opening : Nat) : Prop where
  introduces : Introduces outside keyword text start position opening
  least : ∀ position' opening', Introduces outside keyword text start position' opening' → position ≤ position'

/-- A closing brace behind an opening one, with balanced braces between them. -/
def Closes (body : Dialect) (text : List Char) (opening closing : Nat) : Prop :=
  ∃ between close after, marksAt body text (opening + 1) = between ++ close :: after ∧ close.offset = closing ∧
    close.isNormal = true ∧ close.char = '}' ∧ ∃ word : DyckWord, word.toList = braces between

section Location

variable {outside body : Dialect} {keyword text : List Char} {start position opening closing : Nat}

theorem Reaches.exists_pieces {mark : Mark} {distance : Nat} {inside : List Char}
    (reaches : Reaches keyword none (marksAt outside text start) mark distance inside) :
    ∃ before lead, text = before ++ lead ++ '{' :: inside ∧ byteLength before = mark.offset ∧
      byteLength (before ++ lead) = mark.offset + distance := by
  obtain ⟨skipped, later, split, candidate⟩ := reaches
  obtain ⟨before, whole, length⟩ := exists_of_mem_marksAt (split ▸ List.mem_append_right _ (List.mem_cons_self ..))
  obtain ⟨word, gap, opens, -, -, -, rfl⟩ := candidate.opens
  refine ⟨before, word ++ gap, ?_, length, by rw [Text.byteLength_append, length]⟩
  rw [whole, opens, List.append_assoc, List.append_assoc]

theorem closes_iff : Closes body text opening closing ↔
    ∃ close, closingBrace? 0 (marksAt body text (opening + 1)) = some close ∧ close.offset = closing := by
  simp only [closingBrace?_eq_some_iff, ClosedBy, descends_zero]
  constructor
  · rintro ⟨between, close, after, split, offset, closes⟩
    exact ⟨close, ⟨between, after, split, closes⟩, offset⟩
  · rintro ⟨close, ⟨between, after, split, closes⟩, offset⟩
    exact ⟨between, close, after, split, offset, closes⟩

theorem Closes.unique {closing' : Nat} (closes : Closes body text opening closing)
    (closes' : Closes body text opening closing') : closing = closing' := by
  obtain ⟨close, found, rfl⟩ := closes_iff.1 closes
  obtain ⟨close', found', rfl⟩ := closes_iff.1 closes'
  rw [Option.some.inj (found.symm.trans found')]

def answer (body : Dialect) (text : List Char) (position opening : Nat) : Lookup :=
  match closingBrace? 0 (marksAt body text (opening + 1)) with
  | some close => .found ⟨position, opening, close.offset⟩
  | none => .malformed position

theorem locateWith_cases (outside body : Dialect) (keyword text : List Char) (start : Nat) :
    (locateWith outside body keyword text start = .missing ∧
        ∀ position opening, ¬ Introduces outside keyword text start position opening) ∨
      ∃ position opening, locateWith outside body keyword text start = answer body text position opening ∧
        ∀ position' opening', Leads outside keyword text start position' opening' ↔
          position' = position ∧ opening' = opening := by
  have ordered := ordered_marksAt outside text (min start (byteLength text))
  rcases locateIn_cases body keyword none ordered with
    ⟨missing, never⟩ | ⟨mark, distance, inside, reaches, answers, first⟩
  · refine .inl ⟨missing, ?_⟩
    rintro position opening ⟨mark, distance, inside, reaches, -⟩
    exact never _ _ _ reaches
  · have introduces : Introduces outside keyword text start mark.offset (mark.offset + distance) :=
      ⟨mark, distance, inside, reaches, rfl, rfl⟩
    refine .inr ⟨mark.offset, mark.offset + distance, ?_, fun position' opening' => ⟨?_, ?_⟩⟩
    · obtain ⟨before, lead, rfl, -, length⟩ := reaches.exists_pieces
      rw [answer, ← length, marksAt_behind, length]
      exact answers
    · rintro ⟨⟨other, distance', inside', reaches', rfl, rfl⟩, least⟩
      rcases first _ _ _ reaches' with later | ⟨rfl, rfl, rfl⟩
      · exact absurd (least _ _ introduces) (Nat.not_le_of_lt later)
      · exact ⟨rfl, rfl⟩
    · rintro ⟨rfl, rfl⟩
      refine ⟨introduces, ?_⟩
      rintro _ _ ⟨other, distance', inside', reaches', rfl, rfl⟩
      rcases first _ _ _ reaches' with later | ⟨rfl, -⟩
      · exact Nat.le_of_lt later
      · exact Nat.le_refl _

theorem locateWith_eq_missing_iff : locateWith outside body keyword text start = .missing ↔
    ¬ ∃ position opening, Introduces outside keyword text start position opening := by
  rcases locateWith_cases outside body keyword text start with ⟨missing, never⟩ | ⟨position, opening, answers, leads⟩
  · refine iff_of_true missing ?_
    rintro ⟨position, opening, introduces⟩
    exact never position opening introduces
  · have introduces := ((leads position opening).2 ⟨rfl, rfl⟩).introduces
    refine iff_of_false (fun missing => ?_) (fun never => never ⟨position, opening, introduces⟩)
    rw [answers, answer] at missing
    split at missing <;> cases missing

theorem locateWith_eq_found_iff {block : Block} : locateWith outside body keyword text start = .found block ↔
    Leads outside keyword text start block.keyword block.opening ∧ Closes body text block.opening block.closing := by
  rcases locateWith_cases outside body keyword text start with ⟨missing, never⟩ | ⟨position, opening, answers, leads⟩
  · rw [missing]
    exact iff_of_false Lookup.noConfusion (fun found => never _ _ found.1.introduces)
  · rw [answers, answer, leads, closes_iff]
    constructor
    · intro found
      split at found
      · rename_i close closes
        cases found
        exact ⟨⟨rfl, rfl⟩, close, closes, rfl⟩
      · cases found
    · rintro ⟨⟨rfl, rfl⟩, close, closes, closing⟩
      rw [closes]
      exact congrArg Lookup.found (by rw [closing])

theorem locateWith_eq_malformed_iff : locateWith outside body keyword text start = .malformed position ↔
    ∃ opening, Leads outside keyword text start position opening ∧ ¬ ∃ closing, Closes body text opening closing := by
  rcases locateWith_cases outside body keyword text start with ⟨missing, never⟩ | ⟨first, opening, answers, leads⟩
  · rw [missing]
    refine iff_of_false Lookup.noConfusion ?_
    rintro ⟨opening, leads, -⟩
    exact never _ _ leads.introduces
  · simp only [answers, answer, leads, closes_iff]
    constructor
    · intro malformed
      split at malformed
      · cases malformed
      · rename_i unclosed
        cases malformed
        refine ⟨opening, ⟨rfl, rfl⟩, ?_⟩
        rintro ⟨_, _, closes, -⟩
        rw [unclosed] at closes
        cases closes
    · rintro ⟨_, ⟨rfl, rfl⟩, never⟩
      split
      · rename_i close closes
        exact absurd ⟨close.offset, close, closes, rfl⟩ never
      · rfl

/-- The offsets in an answer cut the text at character boundaries, a found block into what it encloses and the rest. -/
def Lookup.Cuts (text : List Char) : Lookup → Prop
  | .found block => ∃ before lead inner after, text = before ++ lead ++ '{' :: inner ++ '}' :: after ∧
      block.keyword = byteLength before ∧ block.opening = byteLength (before ++ lead) ∧
      block.closing = byteLength (before ++ lead ++ '{' :: inner) ∧ block.inner text = inner
  | .missing => True
  | .malformed position => ∃ before lead after, text = before ++ lead ++ '{' :: after ∧ position = byteLength before

theorem Introduces.exists_pieces (introduces : Introduces outside keyword text start position opening) :
    ∃ before lead inside, text = before ++ lead ++ '{' :: inside ∧ byteLength before = position ∧
      byteLength (before ++ lead) = opening := by
  obtain ⟨mark, distance, inside, reaches, rfl, rfl⟩ := introduces
  obtain ⟨before, lead, split, position, opening⟩ := reaches.exists_pieces
  exact ⟨before, lead, inside, split, position, opening⟩

theorem Closes.exists_pieces {front inside : List Char}
    (closes : Closes body (front ++ '{' :: inside) (byteLength front) closing) :
    ∃ inner after, inside = inner ++ '}' :: after ∧ closing = byteLength (front ++ '{' :: inner) := by
  obtain ⟨between, close, after, split, rfl, -, brace, -⟩ := closes
  rw [marksAt_behind] at split
  have cut := cut_of_split split
  refine ⟨between.map Mark.char, close.rest, by rw [cut.text, Mark.text, brace], ?_⟩
  rw [cut.offset, Text.byteLength_append, byteLength, Nat.add_assoc]
  rfl

theorem cuts_locateWith (outside body : Dialect) (keyword text : List Char) (start : Nat) :
    (locateWith outside body keyword text start).Cuts text := by
  cases located : locateWith outside body keyword text start with
  | missing => trivial
  | malformed position =>
    obtain ⟨opening, leads, -⟩ := locateWith_eq_malformed_iff.1 located
    obtain ⟨before, lead, inside, split, length, -⟩ := leads.introduces.exists_pieces
    exact ⟨before, lead, inside, split, length.symm⟩
  | found block =>
    obtain ⟨keywordAt, opening, closing⟩ := block
    obtain ⟨leads, closes⟩ := locateWith_eq_found_iff.1 located
    obtain ⟨before, lead, inside, rfl, rfl, rfl⟩ := leads.introduces.exists_pieces
    obtain ⟨inner, after, rfl, rfl⟩ := closes.exists_pieces
    refine ⟨before, lead, inner, after, by rw [List.append_assoc _ ('{' :: inner), List.cons_append], rfl, rfl, rfl, ?_⟩
    have between := Text.slice_between (before ++ lead ++ ['{']) inner ('}' :: after)
    simpa [Block.inner, byteLength, Nat.add_assoc, show '{'.utf8Size = 1 from rfl] using between

end Location

/-- Block location is exact. A block is found from the first keyword that introduces one to the one brace that closes it,
it is malformed when no brace closes it and missing when no keyword introduces one. -/
theorem locateWith_exact (outside body : Dialect) (keyword text : List Char) (start : Nat) :
    (∀ position opening closing, locateWith outside body keyword text start = .found ⟨position, opening, closing⟩ ↔
      Leads outside keyword text start position opening ∧ Closes body text opening closing ∧
        ∀ other, Closes body text opening other → other = closing) ∧
    (∀ position, locateWith outside body keyword text start = .malformed position ↔
      ∃ opening, Leads outside keyword text start position opening ∧ ¬ ∃ closing, Closes body text opening closing) ∧
    (locateWith outside body keyword text start = .missing ↔
      ¬ ∃ position opening, Introduces outside keyword text start position opening) ∧
    (locateWith outside body keyword text start).Cuts text := by
  refine ⟨fun position opening closing => ?_, fun position => locateWith_eq_malformed_iff, locateWith_eq_missing_iff,
    cuts_locateWith ..⟩
  rw [locateWith_eq_found_iff]
  constructor
  · rintro ⟨leads, closes⟩
    exact ⟨leads, closes, fun other closes' => closes'.unique closes⟩
  · rintro ⟨leads, closes, -⟩
    exact ⟨leads, closes⟩

end Lexical
end SymbolCache
