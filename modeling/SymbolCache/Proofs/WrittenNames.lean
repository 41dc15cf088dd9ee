import SymbolCache.Proofs.LegacyHeader
import SymbolCache.Source.Name

/-! Words, gaps and names as they are written, and the character classes that end them. A name in quotes reads back
whatever stands inside, since the quotes that belong to it are doubled. -/

namespace SymbolCache.Text

def blankCodes : List Nat :=
  List.range' 9 5 ++ [0x20, 0x85, 0xA0, 0x1680] ++ List.range' 0x2000 11 ++ [0x2028, 0x2029, 0x202F, 0x205F, 0x3000]

/-- What holds of every blank can be checked one by one. -/
theorem all_of_isBlank {p : Char → Bool} (all : (blankCodes.map Char.ofNat).all p = true) {c : Char}
    (blank : isBlank c = true) : p c = true := by
  have listed : c.toNat ∈ blankCodes := by
    simp only [isBlank, Bool.or_eq_true, Bool.and_eq_true, decide_eq_true_eq, beq_iff_eq] at blank
    simp only [blankCodes, List.mem_append, List.mem_range'_1, List.mem_cons, List.not_mem_nil, or_false]
    omega
  have member := List.mem_map_of_mem (f := Char.ofNat) listed
  rw [Char.ofNat_toNat] at member
  exact List.all_eq_true.1 all c member

/-- What goes on with a name that has been read. -/
def isNamePart (c : Char) : Bool := isIdentifierPart c || c == '"'

theorem isNamePart_of_isBlank {c : Char} (blank : isBlank c = true) : isNamePart c = false := by
  have other := all_of_isBlank (p := fun c => !isNamePart c) (by decide) blank
  simpa using other

theorem isBlank_of_isNamePart {c : Char} (part : isNamePart c = true) : isBlank c = false := by
  cases blank : isBlank c with
  | false => rfl
  | true =>
    rw [isNamePart_of_isBlank blank] at part
    cases part

theorem isNamePart_of_isLetter {c : Char} (letter : isLetter c = true) : isNamePart c = true := by
  simp [isNamePart, isIdentifierPart, isIdentifierStart, letter]

/-- No name begins with a digit of any script. -/
theorem isDigit_of_isIdentifierStart {c : Char} (start : isIdentifierStart c = true) : isDigit c = false := by
  simp only [isIdentifierStart, isLetter, Bool.or_eq_true, beq_iff_eq] at start
  rcases start with ((alpha | rfl) | rfl) | rfl
  · have ranges : (decide (c.val ≥ 'A'.val ∧ c.val ≤ 'Z'.val) || (c.val ≥ 'a'.val && c.val ≤ 'z'.val)) = true := alpha
    have codes : 'A'.val.toNat = 65 ∧ 'Z'.val.toNat = 90 ∧ 'a'.val.toNat = 97 ∧ 'z'.val.toNat = 122 ∧
      '0'.val.toNat = 48 ∧ '9'.val.toNat = 57 := ⟨rfl, rfl, rfl, rfl, rfl, rfl⟩
    simp only [Bool.or_eq_true, Bool.and_eq_true, decide_eq_true_eq, ge_iff_le, UInt32.le_iff_toNat_le] at ranges
    have noDigit : c.isDigit = false := by
      rw [Char.isDigit, Bool.and_eq_false_iff, decide_eq_false_iff_not, decide_eq_false_iff_not]
      simp only [ge_iff_le, UInt32.le_iff_toNat_le]
      omega
    have ascii : decide (0x80 ≤ c.toNat) = false := by
      rw [decide_eq_false_iff_not, Char.toNat]
      omega
    rw [isDigit, noDigit, ascii]
    rfl
  · decide
  · decide
  · decide

theorem isAlpha_of_isLower_toLower {c : Char} (lower : c.toLower.isLower = true) : c.isAlpha = true := by
  by_cases capital : c.val ≥ 'A'.val ∧ c.val ≤ 'Z'.val
  · exact Bool.or_eq_true_iff.2 (.inl (decide_eq_true capital))
  · have small : c.toLower = c := dif_neg capital
    exact Bool.or_eq_true_iff.2 (.inr (small ▸ lower))

theorem foldCase_of_isAlpha {c : Char} (alpha : c.isAlpha = true) : foldCase c = c.toLower := by
  have ranges : (decide (c.val ≥ 'A'.val ∧ c.val ≤ 'Z'.val) || (c.val ≥ 'a'.val && c.val ≤ 'z'.val)) = true := alpha
  have codes : 'Z'.val.toNat = 90 ∧ 'z'.val.toNat = 122 := ⟨rfl, rfl⟩
  simp only [Bool.or_eq_true, Bool.and_eq_true, decide_eq_true_eq, ge_iff_le, UInt32.le_iff_toNat_le] at ranges
  have ascii : c.toNat < 0x80 := by
    rw [Char.toNat]
    omega
  rw [foldCase, if_pos ascii]

theorem toLower_of_isLower {c : Char} (lower : c.isLower = true) : c.toLower = c := by
  have range : (c.val ≥ 'a'.val && c.val ≤ 'z'.val) = true := lower
  simp only [Bool.and_eq_true, decide_eq_true_eq, ge_iff_le, UInt32.le_iff_toNat_le] at range
  have codes : 'a'.val.toNat = 97 ∧ 'Z'.val.toNat = 90 := ⟨rfl, rfl⟩
  refine dif_neg ?_
  simp only [ge_iff_le, UInt32.le_iff_toNat_le]
  omega

/-- A word in small letters, written in any letter case. -/
structure Spells (keyword word : List Char) : Prop where
  same : sameWord word keyword = true
  lower : ∀ c ∈ keyword, c.isLower = true

theorem Spells.map_toLower {keyword word : List Char} (spells : Spells keyword word) : word.map Char.toLower = keyword := by
  have same := spells.same
  rw [sameWord, beq_iff_eq] at same
  rw [same]
  exact (List.map_congr_left fun c inside => toLower_of_isLower (spells.lower c inside)).trans (List.map_id keyword)

theorem Spells.isAlpha {keyword word : List Char} (spells : Spells keyword word) : ∀ c ∈ word, c.isAlpha = true := by
  intro c inside
  have lower : c.toLower ∈ keyword := spells.map_toLower ▸ List.mem_map_of_mem inside
  exact isAlpha_of_isLower_toLower (spells.lower _ lower)

theorem Spells.stripFolded? {keyword word : List Char} (spells : Spells keyword word) (rest : List Char) :
    stripFolded? keyword (word ++ rest) = some rest := by
  have lower := spells.map_toLower
  subst lower
  have alpha := spells.isAlpha
  clear spells
  induction word with
  | nil => rfl
  | cons c word ih =>
    have first := foldCase_of_isAlpha (alpha c (List.mem_cons_self ..))
    rw [List.map_cons, List.cons_append, Text.stripFolded?, if_pos (beq_iff_eq.2 first.symm)]
    exact ih fun other inside => alpha other (List.mem_cons_of_mem _ inside)

theorem stripFolded?_append {keyword more : List Char} (blocked : Stops (fun c => keyword.contains (foldCase c)) more)
    (text : List Char) : stripFolded? keyword (text ++ more) = (stripFolded? keyword text).map (· ++ more) := by
  induction keyword generalizing text with
  | nil => rfl
  | cons k keyword ih =>
    have later : Stops (fun c => keyword.contains (foldCase c)) more :=
      blocked.mono fun d inside => by rw [List.contains_cons, inside, Bool.or_true]
    cases text with
    | nil =>
      cases more with
      | nil => rfl
      | cons c more =>
        have other : (k :: keyword).contains (foldCase c) = false := blocked c rfl
        rw [List.contains_cons, BEq.comm, Bool.or_eq_false_iff] at other
        change stripFolded? (k :: keyword) (c :: more) = none
        rw [stripFolded?, other.1, if_neg Bool.false_ne_true]
    | cons c rest =>
      rw [List.cons_append, stripFolded?, stripFolded?]
      split
      · exact ih later rest
      · rfl

theorem exists_of_stripFolded?_eq_some {keyword text rest : List Char} (strips : stripFolded? keyword text = some rest) :
    ∃ word, text = word ++ rest ∧ ∀ c ∈ word, foldCase c ∈ keyword := by
  induction keyword generalizing text with
  | nil =>
    cases strips
    exact ⟨[], rfl, nofun⟩
  | cons k keyword ih =>
    cases text with
    | nil => cases strips
    | cons c text =>
      rw [stripFolded?] at strips
      split at strips
      · rename_i same
        obtain ⟨word, rfl, letters⟩ := ih strips
        refine ⟨c :: word, rfl, List.forall_mem_cons.2 ⟨?_, fun d inside => List.mem_cons_of_mem _ (letters d inside)⟩⟩
        rw [← beq_iff_eq.1 same]
        exact List.mem_cons_self ..
      · cases strips

theorem isLetter_of_isAlpha {c : Char} (alpha : c.isAlpha = true) : isLetter c = true := by
  rw [isLetter, alpha]
  rfl

theorem isBlank_of_isLetter {c : Char} (letter : isLetter c = true) : isBlank c = false :=
  isBlank_of_isNamePart (isNamePart_of_isLetter letter)

theorem isSpaceOrTab_of_unblank {c : Char} (unblank : isBlank c = false) : isSpaceOrTab c = false := by
  cases space : isSpaceOrTab c with
  | false => rfl
  | true =>
    rw [isBlank_of_isSpaceOrTab space] at unblank
    cases unblank

theorem trim_of_unblank {text : List Char} (unblank : ∀ c ∈ text, isBlank c = false) : trim text = text := by
  have stops : Stops isBlank text := fun c first => unblank c (List.mem_of_mem_head? first)
  have ends : Ends isBlank text := fun c last => unblank c (List.mem_reverse.1 (List.mem_of_mem_head? last))
  rw [trim, trimStart, dropWhile_stops stops, trimEnd, dropEndWhile_ends ends]

/-- Spaces and tabs that part two words. -/
structure IsGap (gap : List Char) : Prop where
  present : gap ≠ []
  space : ∀ c ∈ gap, isSpaceOrTab c = true

theorem IsGap.stops {p : Char → Bool} {gap : List Char} (isGap : IsGap gap) (space : p ' ' = false) (tab : p '\t' = false)
    (rest : List Char) : Stops p (gap ++ rest) := by
  obtain ⟨c, more, rfl⟩ := List.exists_cons_of_ne_nil isGap.present
  have first := isGap.space c (List.mem_cons_self ..)
  rw [isSpaceOrTab, Bool.or_eq_true, beq_iff_eq, beq_iff_eq] at first
  rcases first with rfl | rfl
  · exact .cons space _
  · exact .cons tab _

theorem run?_of_stops {p : Char → Bool} {text : List Char} (stops : Stops p text) : run? p text = none := by
  have taken : text.takeWhile p = [] := by simpa using takeWhile_append_stops stops []
  simp [run?, taken]

theorem IsGap.run? {gap rest : List Char} (isGap : IsGap gap) (stops : Stops isSpaceOrTab rest) :
    run? isSpaceOrTab (gap ++ rest) = some (gap, rest) := run?_append isGap.present isGap.space stops

end SymbolCache.Text

namespace SymbolCache.Source
open Text (Stops isNamePart)

/-- A name as it stands in a text. -/
inductive WrittenName where
  | plain (word : List Char)
  | quoted (content : List Char)

namespace WrittenName

def value : WrittenName → List Char
  | plain word => word
  | quoted content => content

def text : WrittenName → List Char
  | plain word => word
  | quoted content => '"' :: (Text.double '"' content ++ ['"'])

def WellFormed : WrittenName → Prop
  | plain word => ∃ first rest, word = first :: rest ∧ Text.isIdentifierStart first = true ∧
      ∀ c ∈ rest, Text.isIdentifierPart c = true
  | quoted content => content ≠ [] ∧ '\n' ∉ content

end WrittenName

theorem halve_double (quote : Char) (text : List Char) : Text.halve quote (Text.double quote text) = text := by
  induction text with
  | nil => rfl
  | cons c rest ih =>
    rw [Text.double, List.flatMap_cons, ← Text.double]
    by_cases same : c = quote
    · subst same
      simp [Text.halve, ih]
    · have other : (c == quote) = false := beq_eq_false_iff_ne.2 same
      rw [other, if_neg Bool.false_ne_true, List.singleton_append]
      cases shape : Text.double quote rest with
      | nil =>
        rw [shape] at ih
        rw [← ih]
        rfl
      | cons next more =>
        rw [shape] at ih
        rw [Text.halve, other, Bool.false_and, if_neg Bool.false_ne_true, ih]

/-- Doubled quotes do not end a name, and a single one does. -/
theorem quotedText?_double {content rest : List Char} (unbroken : '\n' ∉ content) (ends : Stops (· == '"') rest) :
    quotedText? '"' (Text.double '"' content ++ '"' :: rest) = some (Text.double '"' content, rest) := by
  induction content with
  | nil =>
    cases rest with
    | nil => rfl
    | cons c rest =>
      have other : (c == '"') = false := ends c rfl
      rw [Text.double, List.flatMap_nil, List.nil_append, quotedText?, other]
      rfl
  | cons c content ih =>
    rw [List.mem_cons, not_or] at unbroken
    rw [Text.double, List.flatMap_cons, ← Text.double]
    by_cases quote : c = '"'
    · subst quote
      simp only [beq_self_eq_true, if_true, List.cons_append, List.nil_append]
      rw [quotedText?]
      simp [ih unbroken.2]
    · have other : (c == '"') = false := beq_eq_false_iff_ne.2 quote
      have onLine : (c == '\n') = false := beq_eq_false_iff_ne.2 (Ne.symm unbroken.1)
      obtain ⟨next, more, shape⟩ := List.exists_cons_of_ne_nil
        (l := Text.double '"' content ++ '"' :: rest) (by simp)
      rw [other, if_neg Bool.false_ne_true, List.append_assoc, List.singleton_append, shape, quotedText?, other, onLine,
        ← shape, ih unbroken.2]
      rfl

theorem name?_text {name : WrittenName} (written : name.WellFormed) {rest : List Char} (ends : Stops isNamePart rest) :
    name? (name.text ++ rest) = some (name.value, rest) := by
  cases name with
  | plain word =>
    obtain ⟨first, more, rfl, start, parts⟩ := written
    have unquoted : (first == '"') = false := by
      rw [beq_eq_false_iff_ne]
      rintro rfl
      exact absurd start (by decide)
    have stops : Stops Text.isIdentifierPart rest := ends.mono fun c part => by rw [isNamePart, part, Bool.true_or]
    rw [WrittenName.text, List.cons_append, name?, unquoted, start, Text.takeWhile_run parts stops,
      Text.dropWhile_run parts stops]
    rfl
  | quoted content =>
    obtain ⟨present, unbroken⟩ := written
    have stops : Stops (· == '"') rest := ends.mono fun c quote => by rw [isNamePart, quote, Bool.or_true]
    have some : (Text.double '"' content).isEmpty = false := by
      obtain ⟨c, more, rfl⟩ := List.exists_cons_of_ne_nil present
      rw [Text.double, List.flatMap_cons]
      split <;> rfl
    rw [WrittenName.text, List.cons_append, List.append_assoc, List.singleton_append, name?]
    simp [quotedText?_double unbroken stops, some, halve_double, WrittenName.value]

/-- A name begins with a character of a name, and never with a digit. -/
theorem exists_of_name {name : WrittenName} (written : name.WellFormed) :
    ∃ first rest, name.text = first :: rest ∧ isNamePart first = true ∧ Text.isDigit first = false := by
  cases name with
  | plain word =>
    obtain ⟨first, rest, rfl, start, -⟩ := written
    exact ⟨first, rest, rfl, by simp [isNamePart, Text.isIdentifierPart, start], Text.isDigit_of_isIdentifierStart start⟩
  | quoted content => exact ⟨'"', _, rfl, by decide, by decide⟩

theorem newline_not_mem_text {name : WrittenName} (written : name.WellFormed) : '\n' ∉ name.text := by
  cases name with
  | plain word =>
    obtain ⟨first, rest, rfl, start, parts⟩ := written
    intro inside
    rcases List.mem_cons.1 inside with rfl | later
    · exact absurd start (by decide)
    · exact absurd (parts _ later) (by decide)
  | quoted content =>
    intro inside
    simp only [WrittenName.text, Text.double, List.mem_cons, List.mem_append, List.mem_flatMap, List.not_mem_nil, or_false] at inside
    rcases inside with quote | ⟨c, member, doubled⟩ | quote
    · exact absurd quote (by decide)
    · split at doubled
      · simp at doubled
      · exact written.2 (List.mem_singleton.1 doubled ▸ member)
    · exact absurd quote (by decide)

/-! Names that are put in quotes unless they are identifiers. -/

theorem unquote_of_unblank {word : List Char} (unblank : ∀ c ∈ word, Text.isBlank c = false)
    (bare : Stops (· == '"') word) : unquote word = word := by
  unfold unquote
  rw [Text.trim_of_unblank unblank]
  cases word with
  | nil => rfl
  | cons c rest =>
    have first : ('"' == c) = false := by
      rw [BEq.comm]
      exact bare c rfl
    simp [Text.stripStart?, first]

/-- The outer quotes are no blanks, so trimming takes nothing away from what they enclose. -/
theorem unquote_quoted (content : List Char) : unquote ('"' :: (content ++ ['"'])) = Text.halve '"' content := by
  have trimmed : Text.Trimmed ('"' :: (content ++ ['"'])) :=
    ⟨nofun, .cons (by decide) _, .concat (by decide) ('"' :: content)⟩
  simp [unquote, trimmed.trim, Text.stripStart?, Text.stripEnd?]

theorem unquote_quoteName (name : List Char) : unquote (quoteName name) = name := by
  unfold quoteName
  split
  next plain =>
    simp only [Bool.and_eq_true, List.all_eq_true] at plain
    have other {c : Char} (inside : c ∈ name) : Text.isBlank c = false ∧ c ≠ '"' := by
      have part := plain.2 c inside
      constructor
      · apply eq_false_of_ne_true
        intro blank
        have never := Text.all_of_isBlank (p := fun c => !(c.isAlphanum || c == '_')) (by decide) blank
        rw [part] at never
        cases never
      · intro quote
        subst quote
        exact absurd part (by decide)
    apply unquote_of_unblank (fun c inside => (other inside).1)
    intro c first
    exact beq_eq_false_iff_ne.2 (other (List.mem_of_mem_head? first)).2
  next =>
    have read := unquote_quoted (Text.double '"' name)
    rw [halve_double] at read
    exact read

/-- Whatever a name is made of, it is read back from its written form, so no two names are written alike. -/
theorem quoteName_reads_back : (∀ name, unquote (quoteName name) = name) ∧ Function.Injective quoteName := by
  refine ⟨unquote_quoteName, ?_⟩
  intro first second same
  have read := congrArg unquote same
  rw [unquote_quoteName, unquote_quoteName] at read
  exact read

end SymbolCache.Source
