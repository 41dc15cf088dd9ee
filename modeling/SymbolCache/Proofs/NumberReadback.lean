import SymbolCache.Json.Printer
import SymbolCache.Json.Reader
import SymbolCache.Proofs.TextPositions

/-! Reading numbers: the digits of a whole number of 64 bits, and any number in front of a separator. -/

namespace SymbolCache.Json

/-- What follows a value: nothing, a separator or a new line. -/
def Separated (rest : List Char) : Prop := ∀ c, rest.head? = some c → c ∈ [',', ']', '}', '\n']

theorem separated_cons {c : Char} (separator : c ∈ [',', ']', '}', '\n']) (rest : List Char) :
    Separated (c :: rest) := by
  intro first same
  cases same
  exact separator

private theorem Separated.stops {rest : List Char} (separated : Separated rest) : Text.Stops Char.isDigit rest := by
  intro c first
  have separator := separated c first
  simp only [List.mem_cons, List.not_mem_nil, or_false] at separator
  rcases separator with rfl | rfl | rfl | rfl <;> rfl

private theorem takeDigits_eq {digits : List Char} {number : Nat}
    (fits : digits.foldl (fun n c => 10 * n + digitValue c) number ≤ maxWord) :
    takeDigits number digits = (digits.foldl (fun n c => 10 * n + digitValue c) number, []) := by
  have grows (digits : List Char) (number : Nat) :
      number ≤ digits.foldl (fun n c => 10 * n + digitValue c) number := by
    induction digits generalizing number with
    | nil => exact Nat.le_refl _
    | cons c rest ih =>
      have later := ih (10 * number + digitValue c)
      rw [List.foldl_cons]
      omega
  induction digits generalizing number with
  | nil => rfl
  | cons c rest ih =>
    rw [List.foldl_cons] at fits
    rw [takeDigits, if_pos (Nat.le_trans (grows _ _) fits), ih fits, List.foldl_cons]

private theorem head?_toDigits {number : Nat} (positive : 0 < number) : (Nat.toDigits 10 number).head? ≠ some '0' := by
  induction number using Nat.strongRecOn with
  | ind number ih =>
    by_cases small : number < 10
    · have digits : ∀ digit < 10, 0 < digit → (Nat.toDigits 10 digit).head? ≠ some '0' := by decide
      exact digits number small positive
    · rw [Nat.toDigits_of_base_le (by decide) (Nat.not_lt.1 small)]
      have first := ih (number / 10) (by omega) (by omega)
      cases shape : Nat.toDigits 10 (number / 10) with
      | nil => exact absurd shape Nat.toDigits_ne_nil
      | cons c rest =>
        rw [shape] at first
        exact first

/-- The digits of a number are read as a whole number of 64 bits, whatever its sign. -/
theorem readNumber_toDigits {number : Nat} (fits : number ≤ maxWord) {rest : List Char}
    (separated : Separated rest) (negative : Bool) :
    readNumber negative (Nat.toDigits 10 number ++ rest) =
      if !negative then some (.int number, rest)
      else if number = 0 || number > Nat.pow 2 63 then some (.float ⟨true, Binary64.ofRatio number 1⟩, rest)
      else some (.int (-(number : Int)), rest) := by
  have all : ∀ c ∈ Nat.toDigits 10 number, c.isDigit = true :=
    fun c inside => Nat.isDigit_of_mem_toDigits (by decide) (by decide) inside
  have value : (Nat.toDigits 10 number).foldl (fun n c => 10 * n + digitValue c) 0 = number :=
    Nat.ofDigitChars_ten_toDigits
  have taken : takeDigits 0 (Nat.toDigits 10 number) = (number, []) := by
    rw [takeDigits_eq (by rwa [value]), value]
  have leading : ((Nat.toDigits 10 number).isEmpty ||
      ((Nat.toDigits 10 number).head? == some '0' && decide ((Nat.toDigits 10 number).length > 1))) = false := by
    rw [List.isEmpty_eq_false_iff.2 Nat.toDigits_ne_nil, Bool.false_or]
    rcases Nat.eq_zero_or_pos number with rfl | positive
    · rfl
    · rw [beq_eq_false_iff_ne.2 (head?_toDigits positive), Bool.false_and]
  unfold readNumber
  rw [Text.takeWhile_run all separated.stops, Text.dropWhile_run all separated.stops]
  simp only [leading, Bool.false_eq_true, if_false, taken]
  have notMark (c : Char) (others : c ∉ [',', ']', '}', '\n']) (after : List Char) : rest ≠ c :: after := by
    rintro rfl
    exact others (separated c rfl)
  split
  · exact absurd rfl (notMark '.' (by decide) _)
  · exact absurd rfl (notMark 'e' (by decide) _)
  · exact absurd rfl (notMark 'E' (by decide) _)
  · rfl

section Floats

variable {text rest after : List Char} {negative : Bool} {value : Json}

private theorem Separated.ne_cons (separated : Separated rest) {c : Char} (other : c ∉ [',', ']', '}', '\n'])
    (after : List Char) : rest ≠ c :: after := by
  rintro rfl
  exact other (separated c rfl)

private def exponentDigits (positive : Bool) (text : List Char) : Option (Bool × List Char × List Char) :=
  if (text.takeWhile Char.isDigit).isEmpty then none
  else some (positive, text.takeWhile Char.isDigit, text.dropWhile Char.isDigit)

private theorem exponentDigits_append (separated : Separated rest) (positive : Bool) (text : List Char) :
    exponentDigits positive (text ++ rest) =
      (exponentDigits positive text).map fun (positive, digits, after) => (positive, digits, after ++ rest) := by
  unfold exponentDigits
  rw [Text.takeWhile_append_stops separated.stops, Text.dropWhile_append_stops separated.stops]
  split <;> rfl

private theorem readExponent_of_unsigned (plus : ∀ after, text ≠ '+' :: after) (minus : ∀ after, text ≠ '-' :: after) :
    readExponent text = exponentDigits true text := by
  unfold readExponent
  split
  rename_i shape
  split at shape
  · exact absurd rfl (plus _)
  · exact absurd rfl (minus _)
  · cases shape
    rfl

/-- What follows a number has no part in its exponent. -/
private theorem readExponent_append (separated : Separated rest) (text : List Char) :
    readExponent (text ++ rest) = (readExponent text).map fun (positive, digits, after) => (positive, digits, after ++ rest) := by
  cases text with
  | nil =>
    rw [List.nil_append, readExponent_of_unsigned (separated.ne_cons (by decide)) (separated.ne_cons (by decide))]
    exact exponentDigits_append separated true []
  | cons c text =>
    by_cases plus : c = '+'
    · subst plus
      exact exponentDigits_append separated true text
    · by_cases minus : c = '-'
      · subst minus
        exact exponentDigits_append separated false text
      · have unsigned (more : List Char) : readExponent (c :: more) = exponentDigits true (c :: more) :=
          readExponent_of_unsigned (by simp [plus]) (by simp [minus])
        rw [List.cons_append, unsigned, unsigned]
        exact exponentDigits_append separated true (c :: text)

def withRest (rest : List Char) (read : Json × List Char) : Json × List Char := (read.1, read.2 ++ rest)

private def finishExponent (negative : Bool) (significand : Nat) (places : Int) (text : List Char) :
    Option (Json × List Char) := do
  let (positive, digits, rest) ← readExponent text
  return (withExponent negative significand places positive digits, rest)

private theorem finishExponent_append (separated : Separated rest) (negative : Bool) (significand : Nat) (places : Int)
    (text : List Char) : finishExponent negative significand places (text ++ rest) =
      (finishExponent negative significand places text).map (withRest rest) := by
  rw [finishExponent, finishExponent, readExponent_append separated]
  cases readExponent text <;> rfl

private def finishFraction (negative : Bool) (significand : Nat) (places : Int) (text : List Char) :
    Option (Json × List Char) :=
  match text with
  | 'e' :: after | 'E' :: after => finishExponent negative significand places after
  | _ => some (floatOf negative significand places, text)

private def finishWhole (negative : Bool) (significand : Nat) (excess : List Char) (text : List Char) :
    Option (Json × List Char) :=
  match text with
  | '.' :: after =>
    if (after.takeWhile Char.isDigit).isEmpty then none
    else
      let (significand, dropped) := takeDigits significand (after.takeWhile Char.isDigit)
      finishFraction negative significand
        ((excess.length : Int) - ((after.takeWhile Char.isDigit).length - dropped.length : Nat)) (after.dropWhile Char.isDigit)
  | 'e' :: after | 'E' :: after => finishExponent negative significand excess.length after
  | _ =>
    if !excess.isEmpty then some (floatOf negative significand excess.length, text)
    else if !negative then some (.int significand, text)
    else if significand = 0 || significand > Nat.pow 2 63 then
      some (.float ⟨true, Binary64.ofRatio significand 1⟩, text)
    else some (.int (-(significand : Int)), text)

private theorem readNumber_eq (negative : Bool) (text : List Char) : readNumber negative text =
    if (text.takeWhile Char.isDigit).isEmpty ||
        ((text.takeWhile Char.isDigit).head? == some '0' && (text.takeWhile Char.isDigit).length > 1) then none
    else finishWhole negative (takeDigits 0 (text.takeWhile Char.isDigit)).1 (takeDigits 0 (text.takeWhile Char.isDigit)).2
      (text.dropWhile Char.isDigit) := by
  rfl

private theorem finishFraction_append (separated : Separated rest) (negative : Bool) (significand : Nat) (places : Int)
    (text : List Char) : finishFraction negative significand places (text ++ rest) =
      (finishFraction negative significand places text).map (withRest rest) := by
  have unmarked {text : List Char} (small : ∀ after, text ≠ 'e' :: after) (large : ∀ after, text ≠ 'E' :: after) :
      finishFraction negative significand places text = some (floatOf negative significand places, text) := by
    unfold finishFraction
    split
    · exact absurd rfl (small _)
    · exact absurd rfl (large _)
    · rfl
  cases text with
  | nil =>
    rw [List.nil_append, unmarked (separated.ne_cons (by decide)) (separated.ne_cons (by decide))]
    rfl
  | cons c text =>
    by_cases small : c = 'e'
    · subst small
      exact finishExponent_append separated negative significand places text
    · by_cases large : c = 'E'
      · subst large
        exact finishExponent_append separated negative significand places text
      · rw [List.cons_append, unmarked (by simp [small]) (by simp [large]), unmarked (by simp [small]) (by simp [large])]
        rfl

/-- A number that ends with its digits before the point ends there whatever follows. -/
private theorem finishWhole_append_of_unmarked (negative : Bool) (significand : Nat) (excess : List Char)
    (unmarked : ∀ mark ∈ ['.', 'e', 'E'], ∀ after, text ≠ mark :: after)
    (unmarked' : ∀ mark ∈ ['.', 'e', 'E'], ∀ after, text ++ rest ≠ mark :: after) :
    finishWhole negative significand excess (text ++ rest) =
      (finishWhole negative significand excess text).map (withRest rest) := by
  have bare {text : List Char} (unmarked : ∀ mark ∈ ['.', 'e', 'E'], ∀ after, text ≠ mark :: after) :
      finishWhole negative significand excess text =
        if !excess.isEmpty then some (floatOf negative significand excess.length, text)
        else if !negative then some (.int significand, text)
        else if significand = 0 || significand > Nat.pow 2 63 then
          some (.float ⟨true, Binary64.ofRatio significand 1⟩, text)
        else some (.int (-(significand : Int)), text) := by
    unfold finishWhole
    split
    · exact absurd rfl (unmarked '.' (by decide) _)
    · exact absurd rfl (unmarked 'e' (by decide) _)
    · exact absurd rfl (unmarked 'E' (by decide) _)
    · rfl
  rw [bare unmarked, bare unmarked']
  split
  · rfl
  · split
    · rfl
    · split <;> rfl

private theorem finishWhole_append (separated : Separated rest) (negative : Bool) (significand : Nat)
    (excess text : List Char) : finishWhole negative significand excess (text ++ rest) =
      (finishWhole negative significand excess text).map (withRest rest) := by
  cases text with
  | nil =>
    have unmarked : ∀ mark ∈ ['.', 'e', 'E'], ∀ after, rest ≠ mark :: after := by
      intro mark isMark
      simp only [List.mem_cons, List.not_mem_nil, or_false] at isMark
      rcases isMark with rfl | rfl | rfl <;> exact separated.ne_cons (by decide)
    exact finishWhole_append_of_unmarked negative significand excess nofun unmarked
  | cons c text =>
    by_cases point : c = '.'
    · subst point
      rw [List.cons_append, finishWhole, finishWhole, Text.takeWhile_append_stops separated.stops,
        Text.dropWhile_append_stops separated.stops]
      split
      · rfl
      · exact finishFraction_append separated _ _ _ _
    · by_cases small : c = 'e'
      · subst small
        exact finishExponent_append separated negative significand _ text
      · by_cases large : c = 'E'
        · subst large
          exact finishExponent_append separated negative significand _ text
        · have unmarked {later : List Char} : ∀ mark ∈ ['.', 'e', 'E'], ∀ after, c :: later ≠ mark :: after := by
            rintro mark isMark after same
            obtain ⟨rfl, -⟩ := List.cons.inj same
            simp [point, small, large] at isMark
          exact finishWhole_append_of_unmarked negative significand excess unmarked unmarked

/-- What follows a number has no part in it. -/
theorem readNumber_append (separated : Separated rest) (negative : Bool) (text : List Char) :
    readNumber negative (text ++ rest) = (readNumber negative text).map (withRest rest) := by
  rw [readNumber_eq, readNumber_eq, Text.takeWhile_append_stops separated.stops,
    Text.dropWhile_append_stops separated.stops]
  split
  · rfl
  · exact finishWhole_append separated ..

private theorem suffix_of_readExponent {positive : Bool} {digits : List Char}
    (read : readExponent text = some (positive, digits, after)) : after <:+ text := by
  have dropped {positive' : Bool} {text : List Char} (found : exponentDigits positive' text = some (positive, digits, after)) :
      after <:+ text := by
    unfold exponentDigits at found
    split at found
    · cases found
    · cases found
      exact List.dropWhile_suffix _
  cases text with
  | nil => exact dropped read
  | cons c text =>
    by_cases plus : c = '+'
    · subst plus
      exact (@dropped true text read).trans (List.suffix_cons ..)
    · by_cases minus : c = '-'
      · subst minus
        exact (@dropped false text read).trans (List.suffix_cons ..)
      · rw [readExponent_of_unsigned (by simp [plus]) (by simp [minus])] at read
        exact dropped read

theorem suffix_of_readNumber (read : readNumber negative text = some (value, after)) : after <:+ text := by
  have exponent {significand : Nat} {places : Int} {text : List Char}
      (read : finishExponent negative significand places text = some (value, after)) : after <:+ text := by
    unfold finishExponent at read
    cases found : readExponent text with
    | none => simp [found] at read
    | some parts =>
      obtain ⟨positive, digits, rest⟩ := parts
      rw [found] at read
      cases read
      exact suffix_of_readExponent found
  have fraction {significand : Nat} {places : Int} {text : List Char}
      (read : finishFraction negative significand places text = some (value, after)) : after <:+ text := by
    unfold finishFraction at read
    split at read
    · exact (exponent read).trans (List.suffix_cons ..)
    · exact (exponent read).trans (List.suffix_cons ..)
    · cases read
      exact List.suffix_refl _
  rw [readNumber_eq] at read
  split at read
  · cases read
  · refine List.IsSuffix.trans ?_ (List.dropWhile_suffix Char.isDigit)
    unfold finishWhole at read
    split at read
    · rename_i shape
      rw [shape]
      split at read
      · cases read
      · exact ((fraction read).trans (List.dropWhile_suffix _)).trans (List.suffix_cons ..)
    · rename_i shape
      rw [shape]
      exact (exponent read).trans (List.suffix_cons ..)
    · rename_i shape
      rw [shape]
      exact (exponent read).trans (List.suffix_cons ..)
    · split at read
      · cases read
        exact List.suffix_refl _
      · split at read
        · cases read
          exact List.suffix_refl _
        · split at read <;> cases read <;> exact List.suffix_refl _

end Floats

theorem isSpace_of_isDigit {c : Char} (digit : c.isDigit = true) : isSpace c = false := by
  rw [← Bool.not_eq_true]
  intro space
  simp only [isSpace, Bool.or_eq_true, beq_iff_eq] at space
  rcases space with ((rfl | rfl) | rfl) | rfl <;> exact absurd digit (by decide)

/-- A text without blanks. -/
private def Visible (text : List Char) : Prop := ∀ c ∈ text, isSpace c = false

private instance (text : List Char) : Decidable (Visible text) := List.decidableBAll (fun c => isSpace c = false) text

private theorem Visible.append {first second : List Char} (left : Visible first) (right : Visible second) :
    Visible (first ++ second) := by
  intro c inside
  exact (List.mem_append.1 inside).elim (left c) (right c)

private theorem Visible.cons {c : Char} {text : List Char} (first : isSpace c = false) (others : Visible text) :
    Visible (c :: text) := by
  intro other inside
  rcases List.mem_cons.1 inside with rfl | later
  · exact first
  · exact others other later

private theorem visible_toDigits (n : Nat) : Visible (Nat.toDigits 10 n) := fun _ inside =>
  isSpace_of_isDigit (Nat.isDigit_of_mem_toDigits (by decide) (by decide) inside)

private theorem visible_replicate (count : Nat) : Visible (List.replicate count '0') := by
  intro c inside
  rw [(List.mem_replicate.1 inside).2]
  rfl

private theorem visible_render (scaled : Decimal.Scaled) : Visible (scaled.render floatFormat).toList := by
  have digits := visible_toDigits scaled.digits
  unfold Decimal.Scaled.render
  rw [String.toList_ofList]
  dsimp only
  split
  · split
    · exact (digits.append (visible_replicate _)).append (by decide)
    · split
      · exact Visible.append (fun c inside => digits c (List.mem_of_mem_take inside))
          (.cons rfl fun c inside => digits c (List.mem_of_mem_drop inside))
      · exact (Visible.append (by decide) (visible_replicate _)).append digits
  · refine Visible.append ?_ (.cons rfl ?_)
    · split
      · rename_i shape
        exact shape ▸ digits
      · rename_i c rest _ shape
        have all : Visible (c :: rest) := shape ▸ digits
        exact .cons (all c (List.mem_cons_self ..))
          (.cons rfl fun other inside => all other (List.mem_cons_of_mem _ inside))
      · exact nofun
    · split
      · exact Visible.append (by decide) (visible_toDigits _)
      · exact .cons rfl (visible_toDigits _)

/-- A float is written without blanks. -/
theorem visible_renderFloat (number : Binary64) : ∀ c ∈ (renderFloat number).toList, isSpace c = false := by
  have sign : Visible (if number.negative then "-" else "").toList := by
    split <;> decide
  show Visible (renderFloat number).toList
  unfold renderFloat
  split
  · decide
  · extract_lets shown
    split
    · rw [String.toList_append]
      exact sign.append (by decide)
    · rw [String.toList_append]
      exact sign.append (visible_render _)

end SymbolCache.Json
