import Mathlib.Algebra.Group.Int.Defs
import Mathlib.Data.List.Forall2
import SymbolCache.Proofs.NumberReadback

/-! Both forms of a value read back as the value, the one-line form and the indented one. Of floats this is not so in
general, since reading rounds more than once; it is asked of each float. -/

namespace SymbolCache.Json

/-- A float is read from the text it is written as. -/
def Exact (number : Binary64) : Prop := parse? (renderFloat number).toList = some (.float number)

/-- Values whose text determines them, with at most so many levels of arrays and objects. Whole numbers have 64 bits,
signed or unsigned. -/
inductive Printable : Nat → Json → Prop where
  | null {levels : Nat} : Printable levels .null
  | bool {levels : Nat} (value : Bool) : Printable levels (.bool value)
  | int {levels : Nat} {value : Int} (low : -(2 : Int) ^ 63 ≤ value) (high : value < (2 : Int) ^ 64) :
      Printable levels (.int value)
  | float {levels : Nat} {number : Binary64} (exact : Exact number) : Printable levels (.float number)
  | text {levels : Nat} (value : String) : Printable levels (.text value)
  | array {inner : Nat} {items : List Json} (inside : ∀ item ∈ items, Printable inner item) :
      Printable (inner + 1) (.array items)
  | object {inner : Nat} {entries : List (String × Json)} (inside : ∀ entry ∈ entries, Printable inner entry.2) :
      Printable (inner + 1) (.object entries)

private theorem hexValue?_digitChar : ∀ digit < 16, hexValue? (Nat.digitChar digit) = some digit := by decide

private theorem ne_ofNat {c : Char} {n : Nat} (differs : c ≠ Char.ofNat n) : c.toNat ≠ n := by
  rintro rfl
  exact differs (Char.ofNat_toNat c).symm

/-- The escape of a character is read as the character. -/
private theorem readUnits_escapeChar (c : Char) (rest : List Char) :
    readUnits (escapeChar c ++ rest) = (readUnits rest).map fun (units, after) => (.char c :: units, after) := by
  have continued (char : Char) : (do
      let (units, after) ← readUnits rest
      return (Unit16.char char :: units, after)) =
      (readUnits rest).map fun (units, after) => (.char char :: units, after) := by
    cases readUnits rest <;> rfl
  by_cases short : c ∈ ['"', '\\', '\n', '\r', '\t', Char.ofNat 8, Char.ofNat 12]
  · simp only [List.mem_cons, List.not_mem_nil, or_false] at short
    rcases short with rfl | rfl | rfl | rfl | rfl | rfl | rfl <;> exact continued _
  · simp only [List.mem_cons, List.not_mem_nil, or_false, not_or] at short
    obtain ⟨quote, escape, feed, carriage, tab, back, form⟩ := short
    by_cases control : c.toNat < 32
    · have escaped : escapeChar c =
          ['\\', 'u', '0', '0', Nat.digitChar (c.toNat / 16), Nat.digitChar (c.toNat % 16)] := by
        simp [escapeChar, quote, escape, feed, carriage, tab, ne_ofNat back, ne_ofNat form, control]
      have high := hexValue?_digitChar (c.toNat / 16) (by omega)
      have low := hexValue?_digitChar (c.toNat % 16) (by omega)
      have zero : hexValue? '0' = some 0 := by decide
      have whole : 4096 * 0 + 256 * 0 + 16 * (c.toNat / 16) + c.toNat % 16 = c.toNat := by omega
      have unit : hexUnit? '0' '0' (Nat.digitChar (c.toNat / 16)) (Nat.digitChar (c.toNat % 16)) = some c.toNat := by
        simp only [hexUnit?, zero, high, low, Option.bind_eq_bind, Option.bind_some, whole]
        rfl
      have notHigh : ¬ (0xD800 ≤ c.toNat) := by omega
      have notLow : ¬ (0xDC00 ≤ c.toNat) := by omega
      rw [escaped]
      simp only [List.cons_append, List.nil_append]
      rw [readUnits]
      simp only [unit, Option.bind_eq_bind, Option.bind_some, notHigh, notLow, decide_false, Bool.false_and,
        Bool.false_eq_true, if_false, Char.ofNat_toNat]
      exact continued c
    · have plain : escapeChar c = [c] := by
        simp [escapeChar, quote, escape, feed, carriage, tab, ne_ofNat back, ne_ofNat form, control]
      rw [plain, List.singleton_append, readUnits]
      · simp only [control, decide_false, Bool.false_or, beq_eq_false_iff_ne.2 escape, Bool.false_eq_true, if_false]
        exact continued c
      · exact quote
      · exact fun _ _ _ _ _ same => absurd same escape
      · exact fun _ _ same => absurd same escape

private theorem readUnits_quoted (text rest : List Char) :
    readUnits (text.flatMap escapeChar ++ '"' :: rest) = some (text.map .char, rest) := by
  induction text with
  | nil => simp [readUnits]
  | cons c text ih =>
    rw [List.flatMap_cons, List.append_assoc, readUnits_escapeChar, ih]
    rfl

private theorem joinUnits_map_char (text : List Char) : joinUnits (text.map .char) = some text := by
  induction text with
  | nil => rfl
  | cons c text ih =>
    rw [List.map_cons, joinUnits, ih]
    rfl

theorem readString_quoted (text : String) (rest : List Char) :
    readString (text.toList.flatMap escapeChar ++ '"' :: rest) = some (some text, rest) := by
  simp [readString, readUnits_quoted, joinUnits_map_char]

/-- A text is that of a value: it starts with a mark of its kind and is read as the value, if there is fuel for it. -/
private structure Reads (text : List Char) (value : Json) : Prop where
  starts : ∃ c rest, text = c :: rest ∧ isSpace c = false ∧ c ≠ ']' ∧ c ≠ '}'
  reads : ∀ fuel rest, 2 * text.length ≤ fuel → Separated rest → readValue fuel (text ++ rest) = some (value, rest)

private theorem skipSpace_cons {c : Char} (visible : isSpace c = false) (rest : List Char) :
    skipSpace (c :: rest) = c :: rest := List.dropWhile_cons_of_neg (by simp [visible])

private theorem reads_word {value : Json} {c : Char} {text word : List Char} (shape : text = c :: word)
    (visible : isSpace c = false) (notItem : c ≠ ']') (notEntry : c ≠ '}')
    (dispatch : ∀ fuel rest, Separated rest → 2 * (c :: word).length ≤ fuel + 1 →
      readValue (fuel + 1) (c :: (word ++ rest)) = some (value, rest)) : Reads text value := by
  subst shape
  refine ⟨⟨c, word, rfl, visible, notItem, notEntry⟩, fun fuel rest enough separated => ?_⟩
  obtain ⟨less, rfl⟩ : ∃ less, fuel = less + 1 := by
    rw [List.length_cons] at enough
    exact ⟨fuel - 1, by omega⟩
  exact dispatch less rest separated enough

private theorem readValue_of_digit {c : Char} (digit : c.isDigit = true) (fuel : Nat) (rest : List Char) :
    readValue (fuel + 1) (c :: rest) = readNumber false (c :: rest) := by
  rw [readValue, skipSpace_cons (isSpace_of_isDigit digit)]
  split
  case h_8 => rfl
  all_goals
    rename_i same
    cases same
    exact absurd digit (by decide)

private theorem readValue_of_minus (fuel : Nat) (rest : List Char) :
    readValue (fuel + 1) ('-' :: rest) = readNumber true rest := by
  rw [readValue, skipSpace_cons (by decide)]
  rfl

private theorem reads_nat {number : Nat} (fits : number ≤ maxWord) : Reads (scalar (.int number)) (.int number) := by
  have shape : scalar (.int number) = Nat.toDigits 10 number := Nat.toList_repr
  cases digits : Nat.toDigits 10 number with
  | nil => exact absurd digits Nat.toDigits_ne_nil
  | cons c word =>
    have digit : c.isDigit = true :=
      @Nat.isDigit_of_mem_toDigits 10 number c (by decide) (by decide) (by simp [digits])
    have apart (mark : Char) (other : mark.isDigit = false) : c ≠ mark := by
      rintro rfl
      simp [digit] at other
    refine reads_word (shape.trans digits) (isSpace_of_isDigit digit) (apart ']' (by decide)) (apart '}' (by decide)) ?_
    intro fuel rest separated _
    rw [readValue_of_digit digit, ← List.cons_append, ← digits, readNumber_toDigits fits separated]
    rfl

private theorem reads_negative {number : Nat} (positive : 0 < number) (fits : number ≤ Nat.pow 2 63) :
    Reads (scalar (.int (-(number : Int)))) (.int (-(number : Int))) := by
  have shape : scalar (.int (-(number : Int))) = '-' :: Nat.toDigits 10 number := by
    cases number with
    | zero => exact absurd positive (by decide)
    | succ less =>
      have text : scalar (.int (-((less + 1 : Nat) : Int))) = ("-" ++ Nat.repr (less + 1)).toList := rfl
      rw [text, String.toList_append, Nat.toList_repr]
      rfl
  refine reads_word shape (by decide) (by decide) (by decide) ?_
  intro fuel rest separated _
  have word : number ≤ maxWord := Nat.le_trans fits (by decide)
  have nonzero : (decide (number = 0) || decide (number > Nat.pow 2 63)) = false := by
    simp only [Bool.or_eq_false_iff, decide_eq_false_iff_not]
    omega
  rw [readValue_of_minus]
  simp only [readNumber_toDigits word separated, nonzero, Bool.not_true, Bool.false_eq_true, if_false]

private theorem reads_text (value : String) : Reads (quoted value) (.text value) := by
  refine @reads_word _ '"' _ (value.toList.flatMap escapeChar ++ ['"']) rfl (by decide) (by decide) (by decide) ?_
  intro fuel rest _ _
  rw [readValue, skipSpace_cons (by decide), List.append_assoc, List.singleton_append]
  simp [readString_quoted]

/-- Where a float is read, a number stands. -/
private theorem readNumber_of_readValue {fuel : Nat} {written after : List Char} {number : Binary64}
    (visible : ∀ c ∈ written, isSpace c = false) (read : readValue (fuel + 1) written = some (.float number, after)) :
    (∃ word, written = '-' :: word ∧ readNumber true word = some (.float number, after)) ∨
      ∃ c word, written = c :: word ∧ c.isDigit = true ∧ readNumber false (c :: word) = some (.float number, after) := by
  have shown : skipSpace written = written := Text.dropWhile_stops fun c first => visible c (List.mem_of_head? first)
  rw [readValue, shown] at read
  split at read
  · cases read
  · cases read
  · cases read
  · simp only [Option.bind_eq_bind, Option.bind_eq_some_iff, Option.pure_def, Option.some.injEq, Prod.mk.injEq] at read
    obtain ⟨⟨content, rest⟩, -, same, -⟩ := read
    split at same <;> cases same
  · exact .inl ⟨_, rfl, read⟩
  · split at read
    · cases read
    · simp only [Option.bind_eq_bind, Option.bind_eq_some_iff, Option.pure_def, Option.some.injEq, Prod.mk.injEq] at read
      obtain ⟨⟨items, rest⟩, -, same, -⟩ := read
      cases same
  · split at read
    · cases read
    · simp only [Option.bind_eq_bind, Option.bind_eq_some_iff, Option.pure_def, Option.some.injEq, Prod.mk.injEq] at read
      obtain ⟨⟨entries, rest⟩, -, same, -⟩ := read
      unfold objectOf at same
      split at same <;> cases same
  · cases written with
    | nil => cases read
    | cons c word =>
      refine .inr ⟨c, word, rfl, ?_, read⟩
      by_contra other
      simp [readNumber, List.takeWhile_cons_of_neg other] at read

/-- A float that is read from its text alone is read from it in front of a separator. -/
private theorem reads_float {number : Binary64} (exact : Exact number) :
    Reads (scalar (.float number)) (.float number) := by
  have visible := visible_renderFloat number
  have written : scalar (.float number) = (renderFloat number).toList := rfl
  rw [written]
  unfold Exact parse? at exact
  generalize (renderFloat number).toList = written at exact visible
  simp only [Option.bind_eq_bind, Option.bind_eq_some_iff] at exact
  obtain ⟨⟨value, after⟩, read, ended⟩ := exact
  split at ended
  swap
  · cases ended
  rename_i blank
  obtain rfl : value = .float number := by simpa using ended
  -- What is left after the number is blank and part of its text, so it is nothing.
  have nothing {part : List Char} (within : part <:+ written) (left : after <:+ part) : after = [] := by
    by_contra some
    obtain ⟨c, rest, rfl⟩ := List.exists_cons_of_ne_nil some
    rw [skipSpace, List.dropWhile_cons_of_neg] at blank
    · cases blank
    · simp [visible c ((left.trans within).subset (List.mem_cons_self ..))]
  rcases readNumber_of_readValue visible read with ⟨word, rfl, number⟩ | ⟨c, word, rfl, digit, number⟩
  · obtain rfl := nothing (List.suffix_cons ..) (suffix_of_readNumber number)
    refine reads_word rfl (by decide) (by decide) (by decide) fun fuel rest separated _ => ?_
    rw [readValue_of_minus, readNumber_append separated, number]
    rfl
  · obtain rfl := nothing (List.suffix_refl _) (suffix_of_readNumber number)
    have apart (mark : Char) (other : mark.isDigit = false) : c ≠ mark := by
      rintro rfl
      simp [digit] at other
    refine reads_word rfl (isSpace_of_isDigit digit) (apart ']' (by decide)) (apart '}' (by decide))
      fun fuel rest separated _ => ?_
    rw [readValue_of_digit digit, ← List.cons_append, readNumber_append separated, number]
    rfl

/-- Texts with the same blanks before each and commas between. -/
private def spaced (gap : List Char) : List (List Char) → List Char
  | [] => []
  | [only] => gap ++ only
  | first :: second :: rest => gap ++ (first ++ ',' :: spaced gap (second :: rest))

/-- The text of an entry, with blanks before its value. -/
private def entryText (space : List Char) (entry : String × List Char) : List Char :=
  quoted entry.1 ++ ':' :: (space ++ entry.2)

/-- Entries with the same blanks before each and commas between. -/
private def spacedEntries (gap space : List Char) : List (String × List Char) → List Char
  | [] => []
  | [only] => gap ++ entryText space only
  | first :: second :: rest => gap ++ (entryText space first ++ ',' :: spacedEntries gap space (second :: rest))

section Blanks

variable {gap closing rest : List Char}

private theorem skipSpace_append (blank : ∀ c ∈ gap, isSpace c = true) (rest : List Char) :
    skipSpace (gap ++ rest) = skipSpace rest := List.dropWhile_append_of_pos blank

private theorem skipSpace_skipSpace (text : List Char) : skipSpace (skipSpace text) = skipSpace text :=
  Text.dropWhile_stops (.dropWhile isSpace text)

private theorem readValue_skipSpace (fuel : Nat) (text : List Char) : readValue fuel (skipSpace text) = readValue fuel text := by
  cases fuel with
  | zero => rfl
  | succ fuel => rw [readValue, readValue, skipSpace_skipSpace]

private theorem readItems_skipSpace (fuel : Nat) (text : List Char) : readItems fuel (skipSpace text) = readItems fuel text := by
  cases fuel with
  | zero => rfl
  | succ fuel => rw [readItems, readItems, readValue_skipSpace]

private theorem readEntries_skipSpace (fuel : Nat) (text : List Char) :
    readEntries fuel (skipSpace text) = readEntries fuel text := by
  cases fuel with
  | zero => rfl
  | succ fuel => rw [readEntries, readEntries, skipSpace_skipSpace]

private theorem Reads.readValue_append {text : List Char} {value : Json} (reads : Reads text value)
    (blank : ∀ c ∈ gap, isSpace c = true) (fuel : Nat) (enough : 2 * text.length ≤ fuel) (separated : Separated rest) :
    readValue fuel (gap ++ (text ++ rest)) = some (value, rest) := by
  rw [← readValue_skipSpace, skipSpace_append blank, readValue_skipSpace]
  exact reads.reads fuel rest enough separated

/-- What closes a list: blanks that begin with a new line, or none, and a bracket. -/
private structure Closes (closing : List Char) : Prop where
  blank : ∀ c ∈ closing, isSpace c = true
  newline : ∀ c, closing.head? = some c → c = '\n'

private theorem Closes.separated (closes : Closes closing) (bracket : Char) (listed : bracket ∈ [',', ']', '}', '\n'])
    (rest : List Char) : Separated (closing ++ bracket :: rest) := by
  cases closing with
  | nil => exact separated_cons listed rest
  | cons c more =>
    rw [closes.newline c rfl]
    exact separated_cons (by decide) _

private theorem Closes.skipSpace_append (closes : Closes closing) (bracket : Char) (visible : isSpace bracket = false)
    (rest : List Char) : skipSpace (closing ++ bracket :: rest) = bracket :: rest := by
  rw [Json.skipSpace_append closes.blank, skipSpace_cons visible]

private theorem readItems_spaced (blank : ∀ c ∈ gap, isSpace c = true) (closes : Closes closing) {text : List Char}
    {item : Json} {texts : List (List Char)} {items : List Json} (first : Reads text item)
    (others : List.Forall₂ Reads texts items) (fuel : Nat) (rest : List Char)
    (enough : 2 * (spaced gap (text :: texts)).length + 1 ≤ fuel) :
    readItems fuel (spaced gap (text :: texts) ++ (closing ++ ']' :: rest)) = some (item :: items, rest) := by
  induction others generalizing text item fuel with
  | nil =>
    rw [spaced, List.length_append] at enough
    obtain ⟨less, rfl⟩ : ∃ less, fuel = less + 1 := ⟨fuel - 1, by omega⟩
    have read := first.readValue_append blank less (by omega) (closes.separated ']' (by decide) rest)
    have close := closes.skipSpace_append ']' (by decide) rest
    rw [spaced, List.append_assoc, readItems, read]
    simp [close]
  | @cons second other texts items next _ ih =>
    rw [spaced, List.length_append, List.length_append, List.length_cons] at enough
    obtain ⟨less, rfl⟩ : ∃ less, fuel = less + 1 := ⟨fuel - 1, by omega⟩
    have read := first.readValue_append blank less (by omega)
      (separated_cons (c := ',') (by decide) (spaced gap (second :: texts) ++ (closing ++ ']' :: rest)))
    have later := ih next less (by omega)
    have comma (more : List Char) : skipSpace (',' :: more) = ',' :: more := skipSpace_cons (by decide) _
    rw [spaced, List.append_assoc, List.append_assoc, List.cons_append, readItems, read]
    simp [comma, later]

private theorem readEntries_spaced (blank : ∀ c ∈ gap, isSpace c = true) (closes : Closes closing) {space : List Char}
    (narrow : ∀ c ∈ space, isSpace c = true) {one : String × List Char} {entry : String × Json}
    {texts : List (String × List Char)} {entries : List (String × Json)} (key : one.1 = entry.1)
    (first : Reads one.2 entry.2) (others : List.Forall₂ (fun one other => one.1 = other.1 ∧ Reads one.2 other.2) texts entries)
    (fuel : Nat) (rest : List Char) (enough : 2 * (spacedEntries gap space (one :: texts)).length + 1 ≤ fuel) :
    readEntries fuel (spacedEntries gap space (one :: texts) ++ (closing ++ '}' :: rest)) =
      some ((entry :: entries).map fun entry => (some entry.1, entry.2), rest) := by
  have comma (more : List Char) : skipSpace (',' :: more) = ',' :: more := skipSpace_cons (by decide) _
  have colon (more : List Char) : skipSpace (':' :: more) = ':' :: more := skipSpace_cons (by decide) _
  have quote (more : List Char) : skipSpace (gap ++ '"' :: more) = '"' :: more := by
    rw [skipSpace_append blank, skipSpace_cons (by decide)]
  have shape (one : String × List Char) (more : List Char) : entryText space one ++ more =
      '"' :: (one.1.toList.flatMap escapeChar ++ '"' :: ':' :: (space ++ (one.2 ++ more))) := by
    simp [entryText, quoted]
  have long (one : String × List Char) : one.2.length + 3 ≤ (entryText space one).length := by
    simp [entryText, quoted]
    omega
  induction others generalizing one entry fuel with
  | nil =>
    have least := long one
    rw [spacedEntries, List.length_append] at enough
    obtain ⟨less, rfl⟩ : ∃ less, fuel = less + 1 := ⟨fuel - 1, by omega⟩
    have read := first.readValue_append narrow less (by omega) (closes.separated '}' (by decide) rest)
    have close := closes.skipSpace_append '}' (by decide) rest
    rw [spacedEntries, List.append_assoc, shape, readEntries, quote]
    simp [readString_quoted, colon, read, close, key]
  | @cons second other texts entries next _ ih =>
    have least := long one
    rw [spacedEntries, List.length_append, List.length_append, List.length_cons] at enough
    obtain ⟨less, rfl⟩ : ∃ less, fuel = less + 1 := ⟨fuel - 1, by omega⟩
    have read := first.readValue_append narrow less (by omega) (separated_cons (c := ',') (by decide)
      (spacedEntries gap space (second :: texts) ++ (closing ++ '}' :: rest)))
    have later := ih next.1 next.2 less (by omega)
    rw [spacedEntries, List.append_assoc, List.append_assoc, List.cons_append, shape, readEntries, quote]
    simp [readString_quoted, colon, read, comma, later, key]

end Blanks

private theorem objectOf_map (entries : List (String × Json)) :
    objectOf (entries.map fun entry => (some entry.1, entry.2)) = .object entries := by
  have named : (entries.map fun entry => (some entry.1, entry.2)).mapM
      (fun entry => entry.1.map fun key => (key, entry.2)) = some entries := by
    induction entries with
    | nil => rfl
    | cons entry rest ih =>
      rw [List.map_cons, List.mapM_cons, ih]
      rfl
  unfold objectOf
  split
  · rename_i read
    rw [Option.some.inj (read.symm.trans named)]
  · rename_i read
    cases read.symm.trans named

private theorem reads_array {gap closing : List Char} (blank : ∀ c ∈ gap, isSpace c = true) (closes : Closes closing)
    {first : List Char} {item : Json} {texts : List (List Char)} {items : List Json} (read : Reads first item)
    (others : List.Forall₂ Reads texts items) :
    Reads ('[' :: spaced gap (first :: texts) ++ closing ++ [']']) (.array (item :: items)) := by
  refine @reads_word _ '[' _ (spaced gap (first :: texts) ++ closing ++ [']']) rfl (by decide) (by decide) (by decide) ?_
  intro fuel rest _ enough
  rw [List.length_cons, List.length_append, List.length_append, List.length_singleton] at enough
  obtain ⟨c, word, shape, visible, notClosing, -⟩ := read.starts
  have inner : spaced gap (first :: texts) ++ closing ++ [']'] ++ rest =
      spaced gap (first :: texts) ++ (closing ++ ']' :: rest) := by simp
  obtain ⟨more, begins⟩ : ∃ more, skipSpace (spaced gap (first :: texts) ++ (closing ++ ']' :: rest)) = c :: more := by
    cases texts with
    | nil =>
      rw [spaced, List.append_assoc, skipSpace_append blank, shape, List.cons_append, skipSpace_cons visible]
      exact ⟨_, rfl⟩
    | cons second texts =>
      rw [spaced, List.append_assoc, skipSpace_append blank, shape, List.cons_append, List.cons_append,
        skipSpace_cons visible]
      exact ⟨_, rfl⟩
  have reads := readItems_spaced blank closes read others fuel rest (by omega)
  rw [← readItems_skipSpace, begins] at reads
  rw [readValue, skipSpace_cons (by decide), inner]
  simp only [begins]
  split
  · rename_i same
    cases same
    exact absurd rfl notClosing
  · simp [reads]

private theorem reads_object {gap closing space : List Char} (blank : ∀ c ∈ gap, isSpace c = true)
    (closes : Closes closing) (narrow : ∀ c ∈ space, isSpace c = true) {one : String × List Char} {entry : String × Json}
    {texts : List (String × List Char)} {entries : List (String × Json)} (key : one.1 = entry.1)
    (read : Reads one.2 entry.2) (others : List.Forall₂ (fun one other => one.1 = other.1 ∧ Reads one.2 other.2) texts entries) :
    Reads ('{' :: spacedEntries gap space (one :: texts) ++ closing ++ ['}']) (.object (entry :: entries)) := by
  refine @reads_word _ '{' _ (spacedEntries gap space (one :: texts) ++ closing ++ ['}']) rfl (by decide) (by decide)
    (by decide) ?_
  intro fuel rest _ enough
  rw [List.length_cons, List.length_append, List.length_append, List.length_singleton] at enough
  have inner : spacedEntries gap space (one :: texts) ++ closing ++ ['}'] ++ rest =
      spacedEntries gap space (one :: texts) ++ (closing ++ '}' :: rest) := by simp
  obtain ⟨more, begins⟩ : ∃ more, skipSpace (spacedEntries gap space (one :: texts) ++ (closing ++ '}' :: rest)) =
      '"' :: more := by
    cases texts with
    | nil =>
      rw [spacedEntries, List.append_assoc, skipSpace_append blank, entryText, quoted, List.cons_append, List.cons_append,
        List.cons_append, skipSpace_cons (by decide)]
      exact ⟨_, rfl⟩
    | cons second texts =>
      rw [spacedEntries, List.append_assoc, skipSpace_append blank, entryText, quoted, List.cons_append, List.cons_append,
        List.cons_append, List.cons_append, skipSpace_cons (by decide)]
      exact ⟨_, rfl⟩
  have reads := readEntries_spaced blank closes narrow key read others fuel rest (by omega)
  rw [← readEntries_skipSpace, begins] at reads
  rw [readValue, skipSpace_cons (by decide), inner]
  simp only [begins]
  split
  · rename_i same
    cases same
  · simp [reads, -List.map_cons, objectOf_map]

private theorem reads_null : Reads (scalar .null) .null :=
  @reads_word _ 'n' _ "ull".toList rfl (by decide) (by decide) (by decide) fun _ _ _ _ => rfl

private theorem reads_bool (value : Bool) : Reads (scalar (.bool value)) (.bool value) := by
  cases value with
  | true => exact @reads_word _ 't' _ "rue".toList rfl (by decide) (by decide) (by decide) fun _ _ _ _ => rfl
  | false => exact @reads_word _ 'f' _ "alse".toList rfl (by decide) (by decide) (by decide) fun _ _ _ _ => rfl

private theorem reads_int {value : Int} (low : -(2 : Int) ^ 63 ≤ value) (high : value < (2 : Int) ^ 64) :
    Reads (scalar (.int value)) (.int value) := by
  rcases Int.lt_or_le value 0 with negative | positive
  · have shape : value = -((-value).toNat : Int) := by omega
    rw [shape]
    refine reads_negative (by omega) ?_
    have bound : (Nat.pow 2 63 : Int) = (2 : Int) ^ 63 := by decide
    omega
  · have shape : value = (value.toNat : Int) := by omega
    rw [shape]
    refine reads_nat ?_
    have bound : (maxWord : Int) = (2 : Int) ^ 64 - 1 := by decide
    omega

private theorem closes_nil : Closes [] := ⟨nofun, nofun⟩

private theorem closes_margin (margin : Nat) : Closes ('\n' :: List.replicate margin ' ') := by
  refine ⟨fun c inside => ?_, fun c first => by cases first; rfl⟩
  rcases List.mem_cons.1 inside with rfl | space
  · rfl
  · rw [(List.mem_replicate.1 space).2]
    rfl

private theorem compactItems_eq (items : List Json) : compactItems true items = spaced [] (items.map compactChars) := by
  induction items with
  | nil => simp [compactItems, spaced]
  | cons first items ih =>
    cases items with
    | nil => simp [compactItems, spaced]
    | cons second items =>
      rw [List.map_cons, List.map_cons, spaced, ← List.map_cons, ← ih]
      simp [compactItems]

private theorem compactEntries_eq (entries : List (String × Json)) : compactEntries true entries =
    spacedEntries [] [] (entries.map fun entry => (entry.1, compactChars entry.2)) := by
  induction entries with
  | nil => simp [compactEntries, spacedEntries]
  | cons first entries ih =>
    cases entries with
    | nil => simp [compactEntries, spacedEntries, entryText]
    | cons second entries =>
      rw [List.map_cons] at ih
      rw [List.map_cons, List.map_cons, spacedEntries, ← ih]
      simp [compactEntries, entryText]

private theorem prettyItems_eq (margin : Nat) (items : List Json) : prettyItems margin true items =
    spaced ('\n' :: List.replicate margin ' ') (items.map (prettyChars margin)) := by
  induction items with
  | nil => simp [prettyItems, spaced]
  | cons first items ih =>
    cases items with
    | nil => simp [prettyItems, spaced]
    | cons second items =>
      rw [List.map_cons, List.map_cons, spaced, ← List.map_cons, ← ih]
      simp [prettyItems]

private theorem prettyEntries_eq (margin : Nat) (entries : List (String × Json)) : prettyEntries margin true entries =
    spacedEntries ('\n' :: List.replicate margin ' ') [' '] (entries.map fun entry => (entry.1, prettyChars margin entry.2)) := by
  induction entries with
  | nil => simp [prettyEntries, spacedEntries]
  | cons first entries ih =>
    cases entries with
    | nil => simp [prettyEntries, spacedEntries, entryText]
    | cons second entries =>
      rw [List.map_cons] at ih
      rw [List.map_cons, List.map_cons, spacedEntries, ← ih]
      simp [prettyEntries, entryText]

private theorem reads_brackets : Reads ['[', ']'] (.array []) :=
  @reads_word _ '[' _ [']'] rfl (by decide) (by decide) (by decide) fun _ _ _ _ => rfl

private theorem reads_braces : Reads ['{', '}'] (.object []) :=
  @reads_word _ '{' _ ['}'] rfl (by decide) (by decide) (by decide) fun _ _ _ _ => rfl

private theorem forall₂_map {written : Json → List Char} {items : List Json} (all : ∀ item ∈ items, Reads (written item) item) :
    List.Forall₂ Reads (items.map written) items :=
  List.forall₂_map_left_iff.2 (List.forall₂_same.2 all)

private theorem forall₂_entries {written : Json → List Char} {entries : List (String × Json)}
    (all : ∀ entry ∈ entries, Reads (written entry.2) entry.2) :
    List.Forall₂ (fun one other => one.1 = other.1 ∧ Reads one.2 other.2)
      (entries.map fun entry => (entry.1, written entry.2)) entries :=
  List.forall₂_map_left_iff.2 (List.forall₂_same.2 fun entry inside => ⟨rfl, all entry inside⟩)

private theorem reads_compactChars {levels : Nat} {value : Json} (printable : Printable levels value) :
    Reads (compactChars value) value := by
  induction printable with
  | null => exact reads_null
  | bool value => exact reads_bool value
  | int low high => exact reads_int low high
  | float exact => exact reads_float exact
  | text value => exact reads_text value
  | @array _ items inside ih =>
    rw [compactChars, compactItems_eq]
    cases items with
    | nil => exact reads_brackets
    | cons first items =>
      have reads := @reads_array [] [] nofun closes_nil _ _ _ _ (ih first (List.mem_cons_self ..))
        (forall₂_map fun item member => ih item (List.mem_cons_of_mem _ member))
      rwa [List.append_nil] at reads
  | @object _ entries inside ih =>
    rw [compactChars, compactEntries_eq]
    cases entries with
    | nil => exact reads_braces
    | cons first entries =>
      have reads := @reads_object [] [] [] nofun closes_nil nofun (first.1, compactChars first.2) first _ _ rfl
        (ih first (List.mem_cons_self ..)) (forall₂_entries fun entry member => ih entry (List.mem_cons_of_mem _ member))
      rwa [List.append_nil] at reads

private theorem reads_prettyChars {levels : Nat} {value : Json} (printable : Printable levels value) (margin : Nat) :
    Reads (prettyChars margin value) value := by
  induction printable generalizing margin with
  | null => exact reads_null
  | bool value => exact reads_bool value
  | int low high => exact reads_int low high
  | float exact => exact reads_float exact
  | text value => exact reads_text value
  | @array _ items inside ih =>
    cases items with
    | nil => exact reads_brackets
    | cons first items =>
      have reads := reads_array (closes_margin (margin + 2)).blank (closes_margin margin)
        (ih first (List.mem_cons_self ..) (margin + 2))
        (forall₂_map fun item member => ih item (List.mem_cons_of_mem _ member) (margin + 2))
      rw [prettyChars, prettyItems_eq]
      · simpa using reads
      · nofun
  | @object _ entries inside ih =>
    cases entries with
    | nil => exact reads_braces
    | cons first entries =>
      have narrow : ∀ c ∈ [' '], isSpace c = true := by
        intro c inside
        rw [List.mem_singleton.1 inside]
        rfl
      have reads := @reads_object _ _ [' '] (closes_margin (margin + 2)).blank (closes_margin margin) narrow
        (first.1, prettyChars (margin + 2) first.2) first _ _ rfl (ih first (List.mem_cons_self ..) (margin + 2))
        (forall₂_entries fun entry member => ih entry (List.mem_cons_of_mem _ member) (margin + 2))
      rw [prettyChars, prettyEntries_eq]
      · simpa using reads
      · nofun

/-- A text is read as the value it is of. -/
private theorem Reads.parse? {written : List Char} {value : Json} (reads : Reads written value) :
    Json.parse? written = some value := by
  have read := reads.reads (2 * written.length + 2) [] (by omega) nofun
  rw [List.append_nil] at read
  rw [Json.parse?, read]
  rfl

/-- The one-line form of a value reads back as the value. -/
theorem parse?_compactChars {levels : Nat} {value : Json} (printable : Printable levels value) :
    parse? (compactChars value) = some value :=
  (reads_compactChars printable).parse?

/-- The indented form of a value reads back as the value. -/
theorem parse?_pretty {levels : Nat} {value : Json} (printable : Printable levels value) :
    parse? value.pretty.toList = some value := by
  rw [pretty, String.toList_ofList]
  exact (reads_prettyChars printable 0).parse?

section Unbroken

private theorem unbroken_escapeChar (c : Char) : '\n' ∉ escapeChar c := by
  unfold escapeChar
  split
  · decide
  · split
    · decide
    · split
      · decide
      · rename_i other
        split
        · decide
        · split
          · decide
          · split
            · decide
            · split
              · decide
              · split
                · simp
                · simpa using Ne.symm (by simpa using other)

private theorem unbroken_quoted (text : String) : '\n' ∉ quoted text := by
  have inner : '\n' ∉ text.toList.flatMap escapeChar := by
    intro inside
    obtain ⟨c, -, broken⟩ := List.mem_flatMap.1 inside
    exact unbroken_escapeChar c broken
  simpa [quoted] using inner

private theorem unbroken_int (value : Int) : '\n' ∉ scalar (.int value) := by
  have digits (n : Nat) : '\n' ∉ Nat.toDigits 10 n := fun inside =>
    absurd (Nat.isDigit_of_mem_toDigits (by decide) (by decide) inside) (by decide)
  cases value with
  | ofNat n =>
    have shape : scalar (.int (.ofNat n)) = Nat.toDigits 10 n := Nat.toList_repr
    exact shape ▸ digits n
  | negSucc n =>
    have shape : scalar (.int (.negSucc n)) = ("-" ++ Nat.repr (n + 1)).toList := rfl
    rw [shape, String.toList_append, Nat.toList_repr]
    simpa using digits (n + 1)

private theorem unbroken_spaced {texts : List (List Char)} (all : ∀ one ∈ texts, '\n' ∉ one) : '\n' ∉ spaced [] texts := by
  induction texts with
  | nil => exact nofun
  | cons first texts ih =>
    have here := all first (List.mem_cons_self ..)
    have later := ih fun one inside => all one (List.mem_cons_of_mem _ inside)
    cases texts with
    | nil => simpa [spaced] using here
    | cons second texts => simpa [spaced] using ⟨here, later⟩

private theorem unbroken_spacedEntries {texts : List (String × List Char)} (all : ∀ one ∈ texts, '\n' ∉ one.2) :
    '\n' ∉ spacedEntries [] [] texts := by
  induction texts with
  | nil => exact nofun
  | cons first texts ih =>
    have key := unbroken_quoted first.1
    have here := all first (List.mem_cons_self ..)
    have later := ih fun one inside => all one (List.mem_cons_of_mem _ inside)
    cases texts with
    | nil => simp [spacedEntries, entryText, key, here]
    | cons second texts => simp [spacedEntries, entryText, key, here, later]

/-- The one-line form is on one line. -/
theorem unbroken_compactChars {levels : Nat} {value : Json} (printable : Printable levels value) :
    '\n' ∉ compactChars value := by
  induction printable with
  | null => decide
  | bool value => cases value <;> decide
  | @int _ value low high => exact unbroken_int value
  | @float _ number exact => exact fun inside => absurd (visible_renderFloat number '\n' inside) (by decide)
  | text value => exact unbroken_quoted value
  | @array _ items inside ih =>
    have inner : '\n' ∉ spaced [] (items.map compactChars) := unbroken_spaced (by simpa using ih)
    rw [compactChars, compactItems_eq]
    simpa using inner
  | @object _ entries inside ih =>
    have inner : '\n' ∉ spacedEntries [] [] (entries.map fun entry => (entry.1, compactChars entry.2)) :=
      unbroken_spacedEntries fun one inside => by
        obtain ⟨entry, member, rfl⟩ := List.mem_map.1 inside
        exact ih entry member
    rw [compactChars, compactEntries_eq]
    simpa using inner

end Unbroken

private theorem exists_plainItems? {levels : Nat} {items : List Json}
    (all : ∀ item ∈ items, ∃ plain, plain? levels item = some plain) : ∃ plain, plainItems? levels items = some plain := by
  induction items with
  | nil => exact ⟨[], rfl⟩
  | cons item rest ih =>
    obtain ⟨first, found⟩ := all item (List.mem_cons_self ..)
    obtain ⟨others, founds⟩ := ih fun other inside => all other (List.mem_cons_of_mem _ inside)
    exact ⟨first :: others, by simp [plainItems?, found, founds]⟩

theorem exists_plainEntries? {levels : Nat} {entries : List (String × Json)}
    (all : ∀ entry ∈ entries, ∃ plain, plain? levels entry.2 = some plain) :
    ∃ plain, plainEntries? levels entries = some plain := by
  induction entries with
  | nil => exact ⟨[], rfl⟩
  | cons entry rest ih =>
    obtain ⟨first, found⟩ := all entry (List.mem_cons_self ..)
    obtain ⟨others, founds⟩ := ih fun other inside => all other (List.mem_cons_of_mem _ inside)
    exact ⟨(entry.1, first) :: others, by simp [plainEntries?, found, founds]⟩

/-- Such a value can be read as a plain one. -/
theorem Printable.exists_plain? {levels : Nat} {value : Json} (printable : Printable levels value) :
    ∃ plain, plain? levels value = some plain := by
  induction printable with
  | null => exact ⟨_, rfl⟩
  | bool value => exact ⟨_, rfl⟩
  | int low high => exact ⟨_, rfl⟩
  | float => exact ⟨_, rfl⟩
  | text value => exact ⟨_, rfl⟩
  | array inside ih =>
    obtain ⟨items, found⟩ := exists_plainItems? ih
    exact ⟨_, by rw [plain?, found]; rfl⟩
  | object inside ih =>
    obtain ⟨entries, found⟩ := exists_plainEntries? ih
    exact ⟨_, by rw [plain?, found]; rfl⟩

end SymbolCache.Json
