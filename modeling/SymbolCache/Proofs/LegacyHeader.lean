import SymbolCache.Legacy.Header
import SymbolCache.Proofs.TextPositions
import SymbolCache.Proofs.TextSplitting

/-! Header lines: what reading one says about its parts, and that a line written from such parts
is read as they are. -/

namespace SymbolCache.Text

theorem exists_of_run? {p : Char → Bool} {text taken rest : List Char} (runs : run? p text = some (taken, rest)) :
    text = taken ++ rest ∧ taken ≠ [] ∧ ∀ c ∈ taken, p c = true := by
  simp only [run?] at runs
  split at runs
  · cases runs
  · rename_i present
    cases runs
    refine ⟨List.takeWhile_append_dropWhile.symm, ?_, List.all_eq_true.1 List.all_takeWhile⟩
    intro empty
    exact present (by rw [empty]; rfl)

theorem run?_append {p : Char → Bool} {taken rest : List Char} (present : taken ≠ []) (all : ∀ c ∈ taken, p c = true)
    (stops : Stops p rest) : run? p (taken ++ rest) = some (taken, rest) := by
  simp only [run?, takeWhile_run all stops, dropWhile_run all stops]
  rw [if_neg]
  simpa using present

theorem run?_append_stops {p : Char → Bool} {more : List Char} (stops : Stops p more) (text : List Char) :
    run? p (text ++ more) = (run? p text).map fun found => (found.1, found.2 ++ more) := by
  simp only [run?, takeWhile_append_stops stops, dropWhile_append_stops stops]
  split <;> rfl

theorem isBlank_of_isSpaceOrTab {c : Char} (space : isSpaceOrTab c = true) : isBlank c = true := by
  rw [isSpaceOrTab, Bool.or_eq_true, beq_iff_eq, beq_iff_eq] at space
  rcases space with rfl | rfl <;> rfl

/-- A text that trimming leaves alone. -/
structure Trimmed (text : List Char) : Prop where
  nonempty : text ≠ []
  stops : Stops isBlank text
  ends : Ends isBlank text

theorem Stops.mono {p q : Char → Bool} {text : List Char} (stops : Stops q text) (weaker : ∀ c, p c = true → q c = true) :
    Stops p text := by
  intro c first
  have other := stops c first
  cases holds : p c with
  | false => rfl
  | true =>
    rw [weaker c holds] at other
    cases other

theorem trimmed_trim {text : List Char} (present : trim text ≠ []) : Trimmed (trim text) where
  nonempty := present
  stops := (Stops.dropWhile isBlank text).dropEndWhile
  ends := ends_dropEndWhile isBlank (trimStart text)

theorem Trimmed.trim {text : List Char} (trimmed : Trimmed text) : trim text = text := by
  rw [Text.trim, trimStart, dropWhile_stops trimmed.stops, trimEnd, dropEndWhile_ends trimmed.ends]

theorem stops_trim (text : List Char) : Stops isBlank (trim text) := (Stops.dropWhile isBlank text).dropEndWhile

theorem ends_trim (text : List Char) : Ends isBlank (trim text) := ends_dropEndWhile isBlank (trimStart text)

theorem trim_run {run text : List Char} (blank : ∀ c ∈ run, isBlank c = true) (trimmed : Trimmed text) :
    trim (run ++ text) = text := by
  rw [trim, trimStart_run blank trimmed.stops, trimEnd, dropEndWhile_ends trimmed.ends]

theorem mem_of_mem_trim {text : List Char} {c : Char} (member : c ∈ trim text) : c ∈ text := by
  have inStart := (List.dropWhile_sublist isBlank).subset (List.mem_reverse.1 member)
  exact (List.dropWhile_sublist isBlank).subset (List.mem_reverse.1 inStart)

private def magnitude (digits : List Char) : Nat := digits.foldl (fun n c => 10 * n + (c.toNat - '0'.toNat)) 0

private theorem readInt64?_unsigned {text : List Char} (present : text ≠ []) (digits : ∀ c ∈ text, isDigit c = true) :
    readInt64? text = if text.all Char.isDigit then
      (if magnitude text < Nat.pow 2 63 then some (magnitude text : Int) else none) else none := by
  cases text with
  | nil => exact absurd rfl present
  | cons c rest =>
    have first := digits c (List.mem_cons_self ..)
    unfold readInt64?
    split
    · rename_i negative sign
      split at sign
      · rename_i same
        cases same
        exact absurd first (by decide)
      · rename_i same
        cases same
        exact absurd first (by decide)
      · cases sign
        cases (c :: rest).all Char.isDigit <;> rfl

/-- Digits of any script that are read as a number are the digits of a small natural number. -/
theorem exists_of_readInt64? {text : List Char} {id : Int} (present : text ≠ []) (digits : ∀ c ∈ text, isDigit c = true)
    (reads : readInt64? text = some id) : ∃ number, number < Nat.pow 2 63 ∧ id = (number : Int) := by
  rw [readInt64?_unsigned present digits] at reads
  split at reads
  · split at reads
    · rename_i bound
      cases reads
      exact ⟨_, bound, rfl⟩
    · cases reads
  · cases reads

theorem toString_digits (number : Nat) : (toString (number : Int)).toList ≠ [] ∧
    ∀ c ∈ (toString (number : Int)).toList, c.isDigit = true := by
  have digits : (toString (number : Int)).toList = Nat.toDigits 10 number := Nat.toList_repr
  rw [digits]
  exact ⟨Nat.toDigits_ne_nil, fun c inside => Nat.isDigit_of_mem_toDigits (by decide) (by decide) inside⟩

theorem isDigit_of_ascii {c : Char} (digit : c.isDigit = true) : isDigit c = true := by
  rw [isDigit, digit, Bool.true_or]

theorem readInt64?_digits {digits : List Char} (present : digits ≠ []) (all : ∀ c ∈ digits, c.isDigit = true)
    (bound : Nat.ofDigitChars 10 digits 0 < Nat.pow 2 63) :
    readInt64? digits = some (Nat.ofDigitChars 10 digits 0 : Int) := by
  rw [readInt64?_unsigned present (fun c inside => isDigit_of_ascii (all c inside)), if_pos (List.all_eq_true.2 all)]
  exact if_pos bound

theorem readInt64?_toString {number : Nat} (bound : number < Nat.pow 2 63) :
    readInt64? (toString (number : Int)).toList = some (number : Int) := by
  obtain ⟨present, all⟩ := toString_digits number
  have value : magnitude (toString (number : Int)).toList = number := by
    have digits : (toString (number : Int)).toList = Nat.toDigits 10 number := Nat.toList_repr
    rw [digits]
    exact Nat.ofDigitChars_ten_toDigits
  rw [readInt64?_unsigned present (fun c inside => isDigit_of_ascii (all c inside)), if_pos (List.all_eq_true.2 all), value,
    if_pos bound]

end SymbolCache.Text

namespace SymbolCache.Legacy
open Text (Stops)

/-- The parts of a header that can stand in a line. -/
structure Header.WellFormed (header : Header) : Prop where
  typePresent : header.objectType ≠ []
  typeLetters : ∀ c ∈ header.objectType, c.isAlpha = true
  digitsPresent : header.digits ≠ []
  digits : ∀ c ∈ header.digits, Text.isDigit c = true

private theorem mem_of_stripStart? {beginning text rest : List Char}
    (stripped : Text.stripStart? beginning text = some rest) : ∀ c ∈ rest, c ∈ text := by
  induction beginning generalizing text with
  | nil =>
    cases stripped
    exact fun _ inside => inside
  | cons p beginning ih =>
    cases text with
    | nil => cases stripped
    | cons c text =>
      unfold Text.stripStart? at stripped
      split at stripped
      · exact fun other inside => List.mem_cons_of_mem _ (ih stripped other inside)
      · cases stripped

private theorem mem_of_headerName? {text name : List Char} (named : headerName? text = some name) :
    ∀ c ∈ name, c ∈ text := by
  have content : ∀ c ∈ text.dropWhile Text.isSpaceOrTab, c ∈ text := (List.dropWhile_sublist _).subset
  have gap : ∀ c ∈ text.takeWhile Text.isSpaceOrTab, c ∈ text := (List.takeWhile_sublist _).subset
  intro c inside
  simp only [headerName?] at named
  split at named
  · rename_i first rest split
    split at named
    · cases named
    · cases named
      split at inside
      · rw [List.mem_singleton] at inside
        rw [inside]
        exact content first (by rw [split]; exact List.mem_cons_self ..)
      · obtain ⟨run, whole, -⟩ := Text.exists_dropEndWhile isTrailing (text.dropWhile Text.isSpaceOrTab)
        exact content c (by rw [whole]; exact List.mem_append_left _ inside)
  · split at named
    · rename_i last other rest reversed
      cases named
      rw [List.mem_singleton] at inside
      rw [inside]
      exact gap last (List.mem_reverse.1 (by rw [reversed]; exact List.mem_cons_self ..))
    · cases named

theorem wellFormed_of_header? {line : List Char} {header : Header} (reads : header? line = some header) :
    header.WellFormed ∧ ∀ c ∈ header.name, c ∈ line := by
  simp only [header?, Option.bind_eq_bind, Option.bind_eq_some_iff] at reads
  obtain ⟨afterWord, stripped, ⟨spaces, afterGap⟩, gap, ⟨objectType, afterType⟩, type, ⟨blanks, afterSecond⟩, second,
    ⟨digits, afterDigits⟩, number, name, named, same⟩ := reads
  cases same
  dsimp only at type second number named
  obtain ⟨typeSplit, typePresent, typeLetters⟩ := Text.exists_of_run? type
  obtain ⟨digitSplit, digitsPresent, digitsAll⟩ := Text.exists_of_run? number
  refine ⟨⟨typePresent, typeLetters, digitsPresent, digitsAll⟩, ?_⟩
  intro c inside
  have inRest : c ∈ afterWord := by
    rw [(Text.exists_of_run? gap).1, typeSplit, (Text.exists_of_run? second).1, digitSplit]
    simp [mem_of_headerName? named c inside]
  have inLine := mem_of_stripStart? stripped c inRest
  exact (List.dropWhile_sublist _).subset inLine

def Header.line (header : Header) : List Char :=
  "OBJECT ".toList ++ header.objectType ++ ' ' :: header.digits ++ ' ' :: header.name

theorem isSpaceOrTab_of {p : Char → Bool} (space : p ' ' = false) (tab : p '\t' = false) {c : Char}
    (holds : p c = true) : Text.isSpaceOrTab c = false := by
  cases blank : Text.isSpaceOrTab c with
  | false => rfl
  | true =>
    rw [Text.isSpaceOrTab, Bool.or_eq_true, beq_iff_eq, beq_iff_eq] at blank
    rcases blank with rfl | rfl
    · rw [space] at holds
      cases holds
    · rw [tab] at holds
      cases holds

theorem stops_append {p q : Char → Bool} {text : List Char} (present : text ≠ []) (all : ∀ c ∈ text, p c = true)
    (other : ∀ c, p c = true → q c = false) (rest : List Char) : Stops q (text ++ rest) := by
  cases text with
  | nil => exact absurd rfl present
  | cons c text => exact .cons (other c (all c (List.mem_cons_self ..))) _

private theorem isTrailing_blank (c : Char) (trailing : isTrailing c = true) : Text.isBlank c = true := by
  rw [isTrailing, Bool.or_eq_true, beq_iff_eq] at trailing
  rcases trailing with space | rfl
  · exact Text.isBlank_of_isSpaceOrTab space
  · rfl

private theorem headerName?_trimmed {name : List Char} (trimmed : Text.Trimmed name) :
    headerName? (' ' :: name) = some name := by
  have stops : Stops Text.isSpaceOrTab name := trimmed.stops.mono fun _ => Text.isBlank_of_isSpaceOrTab
  have space : ∀ c ∈ [' '], Text.isSpaceOrTab c = true := List.all_eq_true.1 rfl
  have gap : (' ' :: name).takeWhile Text.isSpaceOrTab = [' '] := Text.takeWhile_run space stops
  have content : (' ' :: name).dropWhile Text.isSpaceOrTab = name := Text.dropWhile_run space stops
  have whole : Text.dropEndWhile isTrailing name = name :=
    Text.dropEndWhile_ends (Stops.mono trimmed.ends isTrailing_blank)
  simp only [headerName?, gap, content, whole]
  cases name with
  | nil => exact absurd rfl trimmed.nonempty
  | cons c rest => rfl

theorem header?_line {header : Header} (wellFormed : header.WellFormed) (trimmed : Text.Trimmed header.name) :
    header? header.line = some header := by
  have letters : Stops Text.isSpaceOrTab (header.objectType ++ ' ' :: (header.digits ++ ' ' :: header.name)) :=
    stops_append wellFormed.typePresent wellFormed.typeLetters (fun _ => isSpaceOrTab_of (by decide) (by decide)) _
  have digits : Stops Text.isSpaceOrTab (header.digits ++ ' ' :: header.name) :=
    stops_append wellFormed.digitsPresent wellFormed.digits (fun _ => isSpaceOrTab_of (by decide) (by decide)) _
  have space : ∀ c ∈ [' '], Text.isSpaceOrTab c = true := List.all_eq_true.1 rfl
  have flat : header.line = 'O' :: ['B', 'J', 'E', 'C', 'T'] ++
      ([' '] ++ (header.objectType ++ ' ' :: (header.digits ++ ' ' :: header.name))) := by
    have literal : header.line = 'O' :: ['B', 'J', 'E', 'C', 'T'] ++ [' '] ++ header.objectType ++
        ' ' :: header.digits ++ ' ' :: header.name := rfl
    simp only [literal, List.append_assoc, List.cons_append]
  have stripped : Text.stripStart? "OBJECT".toList (header.line.dropWhile Text.isSpaceOrTab) =
      some ([' '] ++ (header.objectType ++ ' ' :: (header.digits ++ ' ' :: header.name))) := by
    rw [flat]
    rfl
  have gap := Text.run?_append (by decide) space letters
  have afterType : Stops Char.isAlpha (' ' :: (header.digits ++ ' ' :: header.name)) := .cons (by decide) _
  have afterDigits : Stops Text.isDigit (' ' :: header.name) := .cons (by decide) _
  have type := Text.run?_append wellFormed.typePresent wellFormed.typeLetters afterType
  have second := Text.run?_append (by decide) space digits
  rw [List.singleton_append] at second
  have number := Text.run?_append wellFormed.digitsPresent wellFormed.digits afterDigits
  simp only [header?, Option.bind_eq_bind, stripped, Option.bind_some, gap, type, second, number,
    headerName?_trimmed trimmed]
  rfl

end SymbolCache.Legacy
