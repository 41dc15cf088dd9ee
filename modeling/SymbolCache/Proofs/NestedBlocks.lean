import SymbolCache.Proofs.ProcedureScan
import SymbolCache.Source.Property

/-! What stands in a block inside of an object's own block. It is no part of the object-level text, and the text after it
is read as if the block were empty. -/

namespace SymbolCache.Lexical

variable {dialect : Dialect}

theorem plain_closing : Plain (some '}') := .of_ne (by decide) (by decide)

theorem step_head?_append {second : List Char} (plain : Plain second.head?) (phase : Phase) (c : Char) (rest : List Char) :
    step dialect phase c (rest ++ second).head? = step dialect phase c rest.head? := by
  rw [List.head?_append, step_ahead plain]

theorem ahead_stripFrom {next : Option Char} (plain : Plain next) (phase : Phase) (offset : Nat) (text : List Char) :
    (stripFrom dialect phase offset text).head?.or next = text.head? ∨
      Plain ((stripFrom dialect phase offset text).head?.or next) := by
  rcases head?_stripFrom dialect phase offset text with same | other
  · rw [same]
    cases text.head? with
    | none => exact .inr plain
    | some => exact .inl rfl
  · exact .inr (other.or plain)

theorem step_brace {c : Char} (isBrace : c = '{' ∨ c = '}') (next : Option Char) :
    step .modern .normal c next = (.normal, .normal) := by
  rcases isBrace with rfl | rfl <;> simp [step, Dialect.modern]

/-- The braces open after a text. A closing brace without an opening one closes nothing. -/
def openAfter (dialect : Dialect) : Nat → Phase → List Char → Nat
  | depth, _, [] => depth
  | depth, phase, c :: rest =>
    let (state, after) := step dialect phase c rest.head?
    if state == .normal && c == '{' then openAfter dialect (depth + 1) after rest
    else if state == .normal && c == '}' then openAfter dialect (depth - 1) after rest
    else openAfter dialect depth after rest

/-- A text that ends inside of a block, where a scan is in normal phase. -/
structure EndsInBlock (dialect : Dialect) (text : List Char) : Prop where
  normal : phaseAfter dialect none .normal text = .normal
  inside : 0 < openAfter dialect 0 .normal text

theorem EndsInBlock.ne_nil {text : List Char} (ends : EndsInBlock dialect text) : text ≠ [] := by
  rintro rfl
  exact Nat.lt_irrefl 0 ends.inside

section Blanking

variable (spares : dialect.SparesBlanks)

include spares

theorem advance_blank {c : Char} (blank : c = ' ' ∨ c = '\n') (next : Option Char) (depth : Nat) (rest : List Char) :
    advance dialect next depth .normal (c :: rest) = advance dialect next depth .normal rest := by
  have noBrace : c ≠ '{' ∧ c ≠ '}' := by rcases blank with rfl | rfl <;> decide
  simp only [advance, step_blank spares blank]
  rw [if_neg (by simp [noBrace.1]), if_neg (by simp [noBrace.2])]

theorem advance_spaces (next : Option Char) (depth count : Nat) (rest : List Char) :
    advance dialect next depth .normal (List.replicate count ' ' ++ rest) = advance dialect next depth .normal rest := by
  induction count with
  | zero => rfl
  | succ count ih => rw [List.replicate_succ, List.cons_append, advance_blank spares (.inl rfl), ih]

theorem advance_stripFrom {next : Option Char} (plain : Plain next) (depth : Nat) (phase : Phase) (offset : Nat)
    (text : List Char) :
    advance dialect next depth phase.uncommented (stripFrom dialect phase offset text) =
      (advance dialect next depth phase text).map fun reached => (reached.1, reached.2.uncommented) := by
  induction text generalizing depth phase offset with
  | nil => rfl
  | cons c rest ih =>
    rw [advance, step_ahead plain]
    dsimp only
    cases comment : (step dialect phase c rest.head?).1.isComment with
    | false =>
      obtain ⟨same, settled⟩ := step_of_not_comment (ahead_stripFrom plain _ (offset + c.utf8Size) rest) comment
      have later (depth : Nat) := ih depth (step dialect phase c rest.head?).2 (offset + c.utf8Size)
      rw [settled] at later
      rw [stripFrom_of_not_comment offset comment, advance, same]
      dsimp only
      simp only [later]
      split
      · rfl
      · split
        · cases depth <;> rfl
        · rfl
    | true =>
      obtain ⟨before, after⟩ := uncommented_of_comment comment
      have other : ((step dialect phase c rest.head?).1 == .normal) = false := by
        rw [beq_eq_false_iff_ne]
        intro normal
        rw [normal] at comment
        cases comment
      have later := ih depth (step dialect phase c rest.head?).2 (offset + c.utf8Size)
      rw [after] at later
      rw [other, Bool.false_and, Bool.false_and, if_neg Bool.false_ne_true, if_neg Bool.false_ne_true, stripFrom_cons, comment,
        before, ← later]
      split
      · exact advance_spaces spares ..
      · rename_i kept
        have newline : c = '\n' := by simpa using kept
        exact advance_blank spares (.inr newline) ..

theorem Encloses.stripFrom {inner : List Char} (encloses : Encloses dialect inner) (offset : Nat) :
    Encloses dialect (stripFrom dialect .normal offset inner) := by
  have braces := advance_stripFrom spares plain_closing 0 .normal offset inner
  rwa [show advance dialect (some '}') 0 .normal inner = some (0, .normal) from encloses] at braces

end Blanking

theorem Encloses.phaseAfter {inner : List Char} (encloses : Encloses dialect inner) :
    phaseAfter dialect none .normal inner = .normal := by
  rw [← phaseAfter_plain plain_closing]
  exact (phase_of_advance encloses).symm

/-- A block is blanked on its own, wherever a scan is in normal phase. -/
theorem stripComments_block {front inner : List Char} (normal : phaseAfter .modern none .normal front = .normal)
    (encloses : Encloses .modern inner) (rest : List Char) :
    stripComments .modern (front ++ '{' :: (inner ++ '}' :: rest)) =
      stripComments .modern front ++ '{' :: (stripComments .modern inner ++ '}' :: stripComments .modern rest) := by
  have brace {c : Char} (isBrace : c = '{' ∨ c = '}') (more : List Char) :
      Plain (c :: more).head? ∧ stripFrom .modern .normal 0 (c :: more) = c :: stripFrom .modern .normal 0 more := by
    have steps := step_brace isBrace more.head?
    have plain : c ≠ '/' ∧ c ≠ '*' := by rcases isBrace with rfl | rfl <;> decide
    refine ⟨.of_ne plain.1 plain.2, ?_⟩
    rw [stripFrom_of_not_comment 0 (by rw [steps]; rfl), steps, stripFrom_offset .modern .normal _ 0]
  have opening := brace (.inl rfl) (inner ++ '}' :: rest)
  have closing := brace (.inr rfl) rest
  have whole := @stripFrom_append .modern .normal 0 _ _ (.of_plain front opening.1)
  have block := @stripFrom_append .modern .normal 0 _ _ (.of_plain inner closing.1)
  rw [normal, opening.2] at whole
  rw [encloses.phaseAfter, closing.2] at block
  rw [block] at whole
  exact whole

end SymbolCache.Lexical

namespace SymbolCache.Source
open Lexical

def objectLevelFrom (depth : Nat) (phase : Phase) (text : List Char) : List Char :=
  objectLevelChars depth (marksFrom .modern phase 0 text)

theorem objectLevelChars_offset (depth : Nat) (phase : Phase) (offset other : Nat) (text : List Char) :
    objectLevelChars depth (marksFrom .modern phase offset text) = objectLevelChars depth (marksFrom .modern phase other text) := by
  induction text generalizing depth phase offset other with
  | nil => rfl
  | cons c rest ih =>
    simp only [marksFrom, objectLevelChars, Mark.isNormal]
    rw [ih (depth + 1) _ _ (other + c.utf8Size), ih (depth - 1) _ _ (other + c.utf8Size), ih depth _ _ (other + c.utf8Size)]

theorem objectLevelFrom_cons (depth : Nat) (phase : Phase) (c : Char) (rest : List Char) :
    objectLevelFrom depth phase (c :: rest) =
      if (step .modern phase c rest.head?).1 == .normal && c == '{' then
        objectLevelFrom (depth + 1) (step .modern phase c rest.head?).2 rest
      else if (step .modern phase c rest.head?).1 == .normal && c == '}' then
        if depth ≤ 1 then [] else objectLevelFrom (depth - 1) (step .modern phase c rest.head?).2 rest
      else if depth = 1 then c :: objectLevelFrom depth (step .modern phase c rest.head?).2 rest
      else objectLevelFrom depth (step .modern phase c rest.head?).2 rest := by
  simp only [objectLevelFrom, objectLevelChars_offset _ _ 0 (0 + c.utf8Size) rest]
  rfl

/-- Texts that agree from inside of the first block on have the same object-level text behind every beginning. -/
theorem objectLevelFrom_congr {first second : List Char} (plain : Plain first.head?) (plainSecond : Plain second.head?)
    {phase : Phase} {text : List Char} {depth : Nat}
    (alike : objectLevelFrom (openAfter .modern depth phase text) (phaseAfter .modern none phase text) first =
      objectLevelFrom (openAfter .modern depth phase text) (phaseAfter .modern none phase text) second) :
    objectLevelFrom depth phase (text ++ first) = objectLevelFrom depth phase (text ++ second) := by
  induction text generalizing depth phase with
  | nil => exact alike
  | cons c rest ih =>
    rw [openAfter, phaseAfter_cons] at alike
    rw [List.cons_append, List.cons_append, objectLevelFrom_cons, objectLevelFrom_cons, step_head?_append plain,
      step_head?_append plainSecond]
    dsimp only at alike
    split at alike
    · rename_i opens
      rw [if_pos opens, if_pos opens, ih alike]
    · rename_i notOpens
      rw [if_neg notOpens, if_neg notOpens]
      split at alike
      · rename_i closes
        rw [if_pos closes, if_pos closes, ih alike]
      · rename_i notCloses
        rw [if_neg notCloses, if_neg notCloses, ih alike]

theorem objectLevelFrom_nested {first second : List Char} {depth reached : Nat} {phase after : Phase}
    (advances : advance .modern second.head? depth phase first = some (reached, after)) :
    objectLevelFrom (depth + 2) phase (first ++ second) = objectLevelFrom (reached + 2) after second := by
  induction first generalizing depth phase with
  | nil =>
    cases advances
    rfl
  | cons c rest ih =>
    simp only [advance] at advances
    rw [List.cons_append, objectLevelFrom_cons, List.head?_append]
    split at advances
    · rename_i opens
      rw [if_pos opens]
      exact ih advances
    · rename_i notOpens
      rw [if_neg notOpens]
      split at advances
      · rename_i closes
        rw [if_pos closes, if_neg (by omega)]
        cases depth with
        | zero => cases advances
        | succ outer => exact ih advances
      · rename_i notCloses
        rw [if_neg notCloses, if_neg (by omega)]
        exact ih advances

/-- A block inside of a block is passed over. -/
theorem objectLevelFrom_block {inner : List Char} (encloses : Encloses .modern inner) {depth : Nat} (inside : 0 < depth)
    (rest : List Char) :
    objectLevelFrom depth .normal ('{' :: (inner ++ '}' :: rest)) = objectLevelFrom depth .normal rest := by
  obtain ⟨outer, rfl⟩ := Nat.exists_eq_succ_of_ne_zero (Nat.ne_of_gt inside)
  have passes : advance .modern ('}' :: rest).head? outer .normal inner = some (outer, .normal) := by
    have deeper := advance_deeper encloses outer
    rwa [Nat.zero_add] at deeper
  rw [objectLevelFrom_cons, step_brace (.inl rfl), if_pos (by decide), objectLevelFrom_nested passes, objectLevelFrom_cons,
    step_brace (.inr rfl), if_neg (by decide), if_pos (by decide), if_neg (by omega)]
  rfl

theorem objectLevelText_block {text : List Char} (ends : EndsInBlock .modern text) {inner other : List Char}
    (encloses : Encloses .modern inner) (enclosesOther : Encloses .modern other) (rest : List Char) :
    objectLevelText (text ++ '{' :: (inner ++ '}' :: rest)) = objectLevelText (text ++ '{' :: (other ++ '}' :: rest)) := by
  have plain (more : List Char) : Plain ('{' :: more).head? := .of_ne (by decide) (by decide)
  refine objectLevelFrom_congr (plain _) (plain _) ?_
  rw [ends.normal, objectLevelFrom_block encloses ends.inside, objectLevelFrom_block enclosesOther ends.inside]

end SymbolCache.Source
