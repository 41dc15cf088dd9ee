import SymbolCache.Lexical.Block
import SymbolCache.Proofs.TextPositions

/-! What braces enclose. A scan along a text is summed up by the depth and the phase it ends in,
and a closing brace is found exactly where that sum says so, whatever stands behind it. -/

namespace SymbolCache.Lexical
open Text (byteLength)

/-- The next character begins no second half of a comment mark. -/
def Plain (next : Option Char) : Prop := next ≠ some '/' ∧ next ≠ some '*'

theorem Plain.none : Plain none := ⟨nofun, nofun⟩

theorem Plain.or {first next : Option Char} (plain : Plain first) (plainNext : Plain next) : Plain (first.or next) := by
  cases first with
  | none => exact plainNext
  | some => exact plain

theorem Plain.of_ne {c : Char} (slash : c ≠ '/') (star : c ≠ '*') : Plain (some c) :=
  ⟨fun same => slash (Option.some.inj same), fun same => star (Option.some.inj same)⟩

variable {dialect : Dialect} {phase : Phase}

/-- Characters that complete no mark all leave the one before them alone. -/
theorem step_plain {next other : Option Char} (plain : Plain next) (plainOther : Plain other) (c : Char) :
    step dialect phase c next = step dialect phase c other := by
  cases phase <;> simp [step, plain.1, plain.2, plainOther.1, plainOther.2]

/-- Only a text that ends looks at what follows it. -/
theorem step_ahead {next : Option Char} (plain : Plain next) (phase : Phase) (c : Char) (rest : List Char) :
    step dialect phase c (rest.head?.or next) = step dialect phase c rest.head? := by
  cases rest with
  | nil => exact step_plain plain .none c
  | cons => rfl

theorem phase_of_step_normal {c : Char} {next : Option Char} {after : Phase}
    (steps : step dialect phase c next = (.normal, after)) : phase = .normal ∧ after = .normal := by
  cases phase with
  | normal =>
    simp only [step] at steps
    repeat' split at steps
    all_goals simp_all
  | blockComment =>
    simp only [step] at steps
    repeat' split at steps
    all_goals cases steps
  | lineComment | opening | closing | string quote => cases steps

/-- The depth of open braces and the phase after a text, given the character that follows it; none
when a brace in it closes more than was open. -/
def advance (dialect : Dialect) (next : Option Char) : Nat → Phase → List Char → Option (Nat × Phase)
  | depth, phase, [] => some (depth, phase)
  | depth, phase, c :: rest =>
    let (state, after) := step dialect phase c (rest.head?.or next)
    if state == .normal && c == '{' then advance dialect next (depth + 1) after rest
    else if state == .normal && c == '}' then
      match depth with
      | 0 => none
      | outer + 1 => advance dialect next outer after rest
    else advance dialect next depth after rest

theorem advance_append (next : Option Char) (depth : Nat) (phase : Phase) (first second : List Char) :
    advance dialect next depth phase (first ++ second) =
      (advance dialect (second.head?.or next) depth phase first).bind fun reached =>
        advance dialect next reached.1 reached.2 second := by
  induction first generalizing depth phase with
  | nil => rfl
  | cons c rest ih =>
    have ahead : ((rest ++ second).head?.or next) = rest.head?.or (second.head?.or next) := by
      rw [List.head?_append, Option.or_assoc]
    simp only [List.cons_append, advance, ahead, ih]
    split
    · rfl
    · split
      · cases depth <;> rfl
      · rfl

theorem advance_plain {next other : Option Char} (plain : Plain next) (plainOther : Plain other) (depth : Nat)
    (phase : Phase) (text : List Char) :
    advance dialect next depth phase text = advance dialect other depth phase text := by
  induction text generalizing depth phase with
  | nil => rfl
  | cons c rest ih =>
    simp only [advance, step_ahead plain, step_ahead plainOther, ih]

/-- More braces open before a text stay open after it. -/
theorem advance_deeper {next : Option Char} {depth reached : Nat} {phase after : Phase} {text : List Char}
    (advances : advance dialect next depth phase text = some (reached, after)) (more : Nat) :
    advance dialect next (depth + more) phase text = some (reached + more, after) := by
  induction text generalizing depth phase with
  | nil =>
    cases advances
    rfl
  | cons c rest ih =>
    simp only [advance] at advances ⊢
    split at advances
    · rename_i opens
      rw [if_pos opens, Nat.add_right_comm]
      exact ih advances
    · rename_i notOpens
      rw [if_neg notOpens]
      split at advances
      · rename_i closes
        rw [if_pos closes]
        cases depth with
        | zero => cases advances
        | succ outer =>
          rw [Nat.succ_add]
          exact ih advances
      · rename_i notCloses
        rw [if_neg notCloses]
        exact ih advances

theorem closingBrace?_marksFrom_cons (depth offset : Nat) (phase : Phase) (c : Char) (rest : List Char) :
    closingBrace? depth (marksFrom dialect phase offset (c :: rest)) =
      if (step dialect phase c rest.head?).1 == .normal && c == '{' then
        closingBrace? (depth + 1) (marksFrom dialect (step dialect phase c rest.head?).2 (offset + c.utf8Size) rest)
      else if (step dialect phase c rest.head?).1 == .normal && c == '}' then
        match depth with
        | 0 => some ⟨offset, c, (step dialect phase c rest.head?).1, rest⟩
        | outer + 1 =>
          closingBrace? outer (marksFrom dialect (step dialect phase c rest.head?).2 (offset + c.utf8Size) rest)
      else closingBrace? depth (marksFrom dialect (step dialect phase c rest.head?).2 (offset + c.utf8Size) rest) :=
  rfl

/-- A scan for a closing brace passes over a text that closes no more than was open. -/
theorem closingBrace?_append {first second : List Char} {depth reached : Nat} {phase after : Phase}
    (advances : advance dialect second.head? depth phase first = some (reached, after)) (offset : Nat) :
    closingBrace? depth (marksFrom dialect phase offset (first ++ second)) =
      closingBrace? reached (marksFrom dialect after (offset + byteLength first) second) := by
  induction first generalizing depth phase offset with
  | nil =>
    cases advances
    rfl
  | cons c rest ih =>
    simp only [advance] at advances
    rw [List.cons_append, closingBrace?_marksFrom_cons, List.head?_append, byteLength, ← Nat.add_assoc]
    split at advances
    · rename_i opens
      rw [if_pos opens]
      exact ih advances _
    · rename_i notOpens
      rw [if_neg notOpens]
      split at advances
      · rename_i closes
        rw [if_pos closes]
        cases depth with
        | zero => cases advances
        | succ outer => exact ih advances _
      · rename_i notCloses
        rw [if_neg notCloses]
        exact ih advances _

/-- A scan that finds nothing passes over every beginning of the text. -/
theorem advance_isSome_of_closingBrace?_eq_none {first second : List Char} {depth : Nat} {phase : Phase} {offset : Nat}
    (unclosed : closingBrace? depth (marksFrom dialect phase offset (first ++ second)) = none) :
    ∃ reached, advance dialect second.head? depth phase first = some reached := by
  induction first generalizing depth phase offset with
  | nil => exact ⟨_, rfl⟩
  | cons c rest ih =>
    rw [List.cons_append, closingBrace?_marksFrom_cons, List.head?_append] at unclosed
    simp only [advance]
    split at unclosed
    · rename_i opens
      rw [if_pos opens]
      exact ih unclosed
    · rename_i notOpens
      rw [if_neg notOpens]
      split at unclosed
      · rename_i closes
        rw [if_pos closes]
        cases depth with
        | zero => cases unclosed
        | succ outer => exact ih unclosed
      · rename_i notCloses
        rw [if_neg notCloses]
        exact ih unclosed

/-- A text that a pair of braces encloses: its own braces are closed, and it ends in normal phase. -/
def Encloses (dialect : Dialect) (inner : List Char) : Prop :=
  advance dialect (some '}') 0 .normal inner = some (0, .normal)

theorem exists_of_closingBrace? {text : List Char} {depth offset : Nat} {phase : Phase} {close : Mark}
    (found : closingBrace? depth (marksFrom dialect phase offset text) = some close) :
    ∃ inner, text = inner ++ '}' :: close.rest ∧ close.offset = offset + byteLength inner ∧
      advance dialect (some '}') depth phase inner = some (0, .normal) := by
  induction text generalizing depth phase offset with
  | nil => cases found
  | cons c rest ih =>
    rw [closingBrace?_marksFrom_cons] at found
    -- The character is part of the enclosed text unless it is the brace itself.
    have extend {depth' : Nat} {after : Phase} (same : ∀ inner, rest = inner ++ '}' :: close.rest →
          advance dialect (some '}') depth phase (c :: inner) = advance dialect (some '}') depth' after inner)
        (later : closingBrace? depth' (marksFrom dialect after (offset + c.utf8Size) rest) = some close) :
        ∃ inner, c :: rest = inner ++ '}' :: close.rest ∧ close.offset = offset + byteLength inner ∧
          advance dialect (some '}') depth phase inner = some (0, .normal) := by
      obtain ⟨inner, split, position, advances⟩ := ih later
      refine ⟨c :: inner, by rw [split, List.cons_append], ?_, (same inner split).trans advances⟩
      rw [position, byteLength, Nat.add_assoc]
    have ahead {inner : List Char} (split : rest = inner ++ '}' :: close.rest) :
        inner.head?.or (some '}') = rest.head? := by
      rw [split, List.head?_append, List.head?_cons]
    split at found
    · rename_i opens
      refine extend ?_ found
      intro inner split
      simp only [advance, ahead split, if_pos opens]
    · rename_i notOpens
      split at found
      · rename_i closes
        cases depth with
        | zero =>
          cases found
          simp only [Bool.and_eq_true, beq_iff_eq] at closes
          obtain ⟨normal, rfl⟩ := closes
          have atNormal := (phase_of_step_normal (Prod.ext normal rfl)).1
          exact ⟨[], rfl, rfl, by rw [atNormal]; rfl⟩
        | succ outer =>
          refine extend ?_ found
          intro inner split
          simp only [advance, ahead split, if_neg notOpens, if_pos closes]
      · rename_i notCloses
        refine extend ?_ found
        intro inner split
        simp only [advance, ahead split, if_neg notOpens, if_neg notCloses]

/-- The brace after an enclosed text is the one that closes it. -/
theorem closingBrace?_of_encloses {inner : List Char} (bare : '}' ∉ dialect.quotes)
    (encloses : Encloses dialect inner) (offset : Nat) (rest : List Char) :
    closingBrace? 0 (marksFrom dialect .normal offset (inner ++ '}' :: rest)) =
      some ⟨offset + byteLength inner, '}', .normal, rest⟩ := by
  have steps : step dialect .normal '}' rest.head? = (.normal, .normal) := by simp [step, bare]
  have passes : advance dialect ('}' :: rest).head? 0 .normal inner = some (0, .normal) := encloses
  rw [closingBrace?_append passes, closingBrace?_marksFrom_cons, steps]
  rfl

private theorem closingBrace?_eq_none {text : List Char} (absent : '}' ∉ text) (depth offset : Nat) (phase : Phase) :
    closingBrace? depth (marksFrom dialect phase offset text) = none := by
  induction text generalizing depth offset phase with
  | nil => rfl
  | cons c rest ih =>
    rw [List.mem_cons, not_or] at absent
    have notCloses : ¬ ((step dialect phase c rest.head?).1 == .normal && c == '}') = true := by
      simp [Ne.symm absent.1]
    rw [closingBrace?_marksFrom_cons, if_neg notCloses, ih absent.2, ih absent.2, ite_self]

/-- A text that never closes may end in any way that brings no brace. -/
theorem closingBrace?_eq_none_congr {text first second : List Char} {offset : Nat}
    (unclosed : closingBrace? 0 (marksFrom dialect .normal offset (text ++ first)) = none) (absent : '}' ∉ second)
    (plain : Plain first.head?) (plainSecond : Plain second.head?) :
    closingBrace? 0 (marksFrom dialect .normal offset (text ++ second)) = none := by
  obtain ⟨⟨reached, after⟩, advances⟩ := advance_isSome_of_closingBrace?_eq_none unclosed
  rw [advance_plain plain plainSecond] at advances
  rw [closingBrace?_append advances, closingBrace?_eq_none absent]

/-! In the outline only braces count. -/

@[simp] theorem step_outline (c : Char) (next : Option Char) : step .outline .normal c next = (.normal, .normal) := by
  simp [step, Dialect.outline]

abbrev Balanced (text : List Char) : Prop := Encloses .outline text

private theorem advance_outline (next other : Option Char) (depth : Nat) (text : List Char) :
    advance .outline next depth .normal text = advance .outline other depth .normal text := by
  induction text generalizing depth with
  | nil => rfl
  | cons c rest ih => simp only [advance, step_outline, ih]

theorem phase_of_advance_outline {next : Option Char} {depth reached : Nat} {after : Phase} {text : List Char}
    (advances : advance .outline next depth .normal text = some (reached, after)) : after = .normal := by
  induction text generalizing depth with
  | nil =>
    cases advances
    rfl
  | cons c rest ih =>
    simp only [advance, step_outline] at advances
    split at advances
    · exact ih advances
    · split at advances
      · cases depth with
        | zero => cases advances
        | succ outer => exact ih advances
      · exact ih advances

namespace Balanced

theorem advances {text : List Char} (balanced : Balanced text) (next : Option Char) (depth : Nat) :
    advance .outline next depth .normal text = some (depth, .normal) := by
  have deeper := advance_deeper balanced depth
  rw [Nat.zero_add] at deeper
  rw [advance_outline next (some '}'), deeper]

theorem append {first second : List Char} (balanced : Balanced first) (balancedSecond : Balanced second) :
    Balanced (first ++ second) := by
  unfold Balanced Encloses
  rw [advance_append, balanced.advances, Option.bind_some, balancedSecond.advances]

theorem of_not_mem {text : List Char} (noOpening : '{' ∉ text) (noClosing : '}' ∉ text) : Balanced text := by
  unfold Balanced Encloses
  induction text with
  | nil => rfl
  | cons c rest ih =>
    rw [List.mem_cons, not_or] at noOpening noClosing
    simp [advance, Ne.symm noOpening.1, Ne.symm noClosing.1, ih noOpening.2 noClosing.2]

private theorem advance_braced {body : List Char} (balanced : Balanced body) (next : Option Char) (depth : Nat)
    (rest : List Char) : advance .outline next depth .normal ('{' :: body ++ '}' :: rest) =
      advance .outline next depth .normal rest := by
  simp only [List.cons_append, advance, step_outline]
  rw [if_pos (by decide), advance_append, balanced.advances, Option.bind_some, advance]
  simp

theorem braced {body : List Char} (balanced : Balanced body) : Balanced ('{' :: body ++ ['}']) :=
  advance_braced balanced (some '}') 0 []

theorem replace {before body after : List Char} (whole : Balanced (before ++ '{' :: body ++ '}' :: after))
    (balanced : Balanced body) {other : List Char} (balancedOther : Balanced other) :
    Balanced (before ++ '{' :: other ++ '}' :: after) := by
  unfold Balanced Encloses at whole ⊢
  rw [List.append_assoc, advance_append] at whole ⊢
  rw [advance_outline _ none] at whole ⊢
  cases reached : advance .outline none 0 .normal before with
  | none =>
    rw [reached] at whole
    cases whole
  | some state =>
    obtain ⟨depth, phase⟩ := state
    cases phase_of_advance_outline reached
    rw [reached, Option.bind_some, advance_braced balanced] at whole
    rw [Option.bind_some, advance_braced balancedOther, whole]

end Balanced

end SymbolCache.Lexical
