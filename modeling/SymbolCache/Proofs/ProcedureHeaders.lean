import SymbolCache.Proofs.ProcedureScan
import SymbolCache.Proofs.TextWords
import SymbolCache.Proofs.WrittenNames

/-! Header lines of procedures. A name with a parenthesis behind it makes a header of the words before it, and a name with
a colon behind it does not. -/

namespace SymbolCache.Text

/-- A word is not read past a character that occurs in no variant of it. -/
theorem exists_of_stripFolded? {keyword word rest after : List Char}
    (blocked : Stops (fun c => keyword.contains (foldCase c)) rest)
    (strips : stripFolded? keyword (word ++ rest) = some after) : ∃ front back, word = front ++ back ∧ after = back ++ rest := by
  rw [stripFolded?_append blocked] at strips
  obtain ⟨back, inside, rfl⟩ := Option.map_eq_some_iff.1 strips
  obtain ⟨front, whole, -⟩ := exists_of_stripFolded?_eq_some inside
  exact ⟨front, back, whole, rfl⟩

end SymbolCache.Text

namespace SymbolCache.Source
open Text (Stops isNamePart)

/-- Text that neither opens nor closes anything: outside of whole quoted parts stands no quote, no parenthesis and no
slash. -/
inductive Neutral : List Char → Prop where
  | nil : Neutral []
  | char {c : Char} {rest : List Char} (plain : c ∉ ['"', '\'', '(', ')', '/']) (more : Neutral rest) : Neutral (c :: rest)
  | quoted (content : List Char) {rest : List Char} (more : Neutral rest) :
      Neutral ((WrittenName.quoted content).text ++ rest)

namespace Neutral

variable {text : List Char}

theorem append {other : List Char} (neutral : Neutral text) (more : Neutral other) : Neutral (text ++ other) := by
  induction neutral with
  | nil => exact more
  | char plain _ ih => exact .char plain ih
  | quoted content _ ih =>
    rw [List.append_assoc]
    exact .quoted content ih

theorem of_all (all : ∀ c ∈ text, c ∉ ['"', '\'', '(', ')', '/']) : Neutral text := by
  induction text with
  | nil => exact .nil
  | cons c text ih => exact .char (all c (List.mem_cons_self ..)) (ih fun d inside => all d (List.mem_cons_of_mem _ inside))

theorem of_class {p : Char → Bool} (unmarked : (['"', '\'', '(', ')', '/'].any p) = false) (all : ∀ c ∈ text, p c = true) :
    Neutral text := by
  refine of_all fun c inside marked => ?_
  exact List.any_eq_false.1 unmarked c marked (all c inside)

theorem blank (blank : ∀ c ∈ text, Text.isBlank c = true) : Neutral text := of_class (by decide) blank

theorem flatMap {α : Type} {items : List α} {write : α → List Char} (neutral : ∀ item ∈ items, Neutral (write item)) :
    Neutral (items.flatMap write) := by
  induction items with
  | nil => exact .nil
  | cons item items ih =>
    rw [List.flatMap_cons]
    exact (neutral item (List.mem_cons_self ..)).append (ih fun other inside => neutral other (List.mem_cons_of_mem _ inside))

theorem name {name : WrittenName} (written : name.WellFormed) : Neutral name.text := by
  cases name with
  | plain word =>
    obtain ⟨first, rest, rfl, start, parts⟩ := written
    refine of_class (p := Text.isIdentifierPart) (by decide) fun c inside => ?_
    rcases List.mem_cons.1 inside with rfl | later
    · rw [Text.isIdentifierPart, start, Bool.true_or]
    · exact parts c later
  | quoted content =>
    have whole := Neutral.quoted content .nil
    rwa [List.append_nil] at whole

/-- Inside of quotes a parenthesis closes nothing. -/
theorem closingParen?_quoted (depth : Nat) (content rest : List Char) :
    closingParen? depth (some '"') (Text.double '"' content ++ '"' :: rest) =
      (closingParen? depth none rest).map fun (before, after) => (Text.double '"' content ++ '"' :: before, after) := by
  induction content with
  | nil => simp [Text.double, closingParen?]
  | cons c content ih =>
    rw [Text.double, List.flatMap_cons, ← Text.double]
    by_cases quote : c = '"'
    · subst quote
      simp [closingParen?, ih, Function.comp_def]
    · simp [closingParen?, ih, quote, Function.comp_def]

theorem closingParen?_append (neutral : Neutral text) (rest : List Char) :
    closingParen? 0 none (text ++ rest) =
      (closingParen? 0 none rest).map fun (before, after) => (text ++ before, after) := by
  induction neutral with
  | nil => simp
  | @char c _ plain _ ih =>
    simp only [List.mem_cons, List.not_mem_nil, or_false, not_or] at plain
    obtain ⟨noQuote, noApostrophe, noOpening, noClosing, -⟩ := plain
    simp [closingParen?, ih, noQuote, noApostrophe, noOpening, noClosing, Function.comp_def]
  | quoted content _ ih =>
    simp only [WrittenName.text, List.cons_append, List.append_assoc]
    simp [closingParen?, closingParen?_quoted, ih, Function.comp_def]

theorem stripFrom_string (offset : Nat) (c : Char) (rest : List Char) :
    Lexical.stripFrom .modern (.string '"') offset (c :: rest) =
      c :: Lexical.stripFrom .modern (if c = '"' then .normal else .string '"') 0 rest := by
  rw [Lexical.stripFrom_of_not_comment offset rfl, Lexical.stripFrom_offset .modern _ _ 0]
  simp [Lexical.step]

theorem stripFrom_char {c : Char} (plain : c ∉ ['"', '\'', '/']) (offset : Nat) (rest : List Char) :
    Lexical.stripFrom .modern .normal offset (c :: rest) = c :: Lexical.stripFrom .modern .normal 0 rest := by
  simp only [List.mem_cons, List.not_mem_nil, or_false, not_or] at plain
  obtain ⟨noQuote, noApostrophe, noSlash⟩ := plain
  have stays : Lexical.step .modern .normal c rest.head? = (.normal, .normal) := by
    rw [Lexical.step_modern noSlash, if_neg]
    simp [noQuote, noApostrophe]
  rw [Lexical.stripFrom_of_not_comment offset (by rw [stays]; rfl), stays, Lexical.stripFrom_offset .modern _ _ 0]

theorem stripFrom_quote (offset : Nat) (rest : List Char) :
    Lexical.stripFrom .modern .normal offset ('"' :: rest) = '"' :: Lexical.stripFrom .modern (.string '"') 0 rest := by
  have opens : Lexical.step .modern .normal '"' rest.head? = (.string '"', .string '"') := Lexical.step_modern (by decide) _
  rw [Lexical.stripFrom_of_not_comment offset (by rw [opens]; rfl), opens, Lexical.stripFrom_offset .modern _ _ 0]

/-- Between two halves of a doubled quote a scan is in normal phase, and no comment begins there. -/
theorem stripFrom_quoted (offset : Nat) (content rest : List Char) :
    Lexical.stripFrom .modern (.string '"') offset (Text.double '"' content ++ '"' :: rest) =
      Text.double '"' content ++ '"' :: Lexical.stripFrom .modern .normal 0 rest := by
  induction content generalizing offset with
  | nil => exact stripFrom_string offset '"' rest
  | cons c content ih =>
    rw [Text.double, List.flatMap_cons, ← Text.double]
    by_cases quote : c = '"'
    · subst quote
      simp [stripFrom_string, stripFrom_quote, ih]
    · simp [stripFrom_string, quote, ih]

theorem stripFrom_append (neutral : Neutral text) (offset : Nat) (rest : List Char) :
    Lexical.stripFrom .modern .normal offset (text ++ rest) = text ++ Lexical.stripFrom .modern .normal 0 rest := by
  induction neutral generalizing offset with
  | nil => exact Lexical.stripFrom_offset .modern _ _ _ _
  | @char c _ plain _ ih =>
    have unmarked : c ∉ ['"', '\'', '/'] := by
      simp only [List.mem_cons, List.not_mem_nil, or_false, not_or] at plain ⊢
      exact ⟨plain.1, plain.2.1, plain.2.2.2.2⟩
    rw [List.cons_append, stripFrom_char unmarked, ih, List.cons_append]
  | quoted content _ ih =>
    simp only [WrittenName.text, List.cons_append, List.append_assoc, List.nil_append]
    rw [stripFrom_quote, stripFrom_quoted, ih]

end Neutral

/-- Blanks on a line. -/
structure Inline (gap : List Char) : Prop where
  blank : ∀ c ∈ gap, Text.isBlank c = true
  unbroken : '\n' ∉ gap

/-- Blanks that part two words of a line. -/
structure IsInlineGap (gap : List Char) : Prop extends Inline gap where
  present : gap ≠ []

theorem IsInlineGap.run? {gap rest : List Char} (isGap : IsInlineGap gap) (stops : Stops Text.isBlank rest) :
    Text.run? Text.isBlank (gap ++ rest) = some (gap, rest) := Text.run?_append isGap.present isGap.blank stops

theorem IsInlineGap.stops {p : Char → Bool} {gap : List Char} (isGap : IsInlineGap gap)
    (other : ∀ c, Text.isBlank c = true → p c = false) (rest : List Char) : Stops p (gap ++ rest) := by
  obtain ⟨c, more, rfl⟩ := List.exists_cons_of_ne_nil isGap.present
  exact .cons (other c (isGap.blank c (List.mem_cons_self ..))) _

/-- A text that begins as a name does. -/
def BeginsName (text : List Char) : Prop := ∃ c rest, text = c :: rest ∧ isNamePart c = true

theorem BeginsName.stops {p : Char → Bool} {text : List Char} (begins : BeginsName text)
    (other : ∀ c, isNamePart c = true → p c = false) : Stops p text := by
  obtain ⟨c, rest, rfl, part⟩ := begins
  exact .cons (other c part) _

theorem BeginsName.unblank {text : List Char} (begins : BeginsName text) : Stops Text.isBlank text :=
  begins.stops fun _ part => Text.isBlank_of_isNamePart part

theorem BeginsName.append {text : List Char} (begins : BeginsName text) (rest : List Char) : BeginsName (text ++ rest) := by
  obtain ⟨c, more, rfl, part⟩ := begins
  exact ⟨c, more ++ rest, rfl, part⟩

theorem beginsName_text {name : WrittenName} (written : name.WellFormed) : BeginsName name.text := by
  obtain ⟨first, rest, same, part, -⟩ := exists_of_name written
  exact ⟨first, rest, same, part⟩

/-- A word of a header and the blanks behind it. -/
structure HeaderWord where
  letters : List Char
  gap : List Char

namespace HeaderWord

def text (word : HeaderWord) : List Char := word.letters ++ word.gap

structure WellFormed (word : HeaderWord) : Prop where
  present : word.letters ≠ []
  letters : ∀ c ∈ word.letters, Text.isLetter c = true
  gap : IsInlineGap word.gap

theorem WellFormed.beginsName {word : HeaderWord} (written : word.WellFormed) : BeginsName word.text := by
  obtain ⟨c, rest, same⟩ := List.exists_cons_of_ne_nil written.present
  have letter := written.letters c (by rw [same]; exact List.mem_cons_self ..)
  exact ⟨c, rest ++ word.gap, by rw [text, same, List.cons_append], Text.isNamePart_of_isLetter letter⟩

/-- The letters of a word make a name. -/
theorem WellFormed.plain {word : HeaderWord} (written : word.WellFormed) : (WrittenName.plain word.letters).WellFormed := by
  obtain ⟨c, letters, same⟩ := List.exists_cons_of_ne_nil written.present
  have all := written.letters
  rw [same] at all
  refine ⟨c, letters, same, ?_, fun d inside => ?_⟩
  · rw [Text.isIdentifierStart, all c (List.mem_cons_self ..), Bool.true_or]
  · rw [Text.isIdentifierPart, Text.isIdentifierStart, all d (List.mem_cons_of_mem _ inside), Bool.true_or, Bool.true_or]

theorem WellFormed.unbroken {word : HeaderWord} (written : word.WellFormed) : '\n' ∉ word.text := by
  rw [text, List.mem_append, not_or]
  exact ⟨fun inside => absurd (written.letters _ inside) (by decide), written.gap.unbroken⟩

theorem WellFormed.neutral {word : HeaderWord} (written : word.WellFormed) : Neutral word.text :=
  (Neutral.of_class (by decide) written.letters).append (.blank written.gap.blank)

end HeaderWord

section Reading

variable {word next : HeaderWord} {rest : List Char}

theorem not_isLetter_of_isBlank (c : Char) (blank : Text.isBlank c = true) : Text.isLetter c = false := by
  cases letter : Text.isLetter c with
  | false => rfl
  | true =>
    rw [Text.isBlank_of_isLetter letter] at blank
    cases blank

theorem modifier?_word (written : word.WellFormed) (begins : BeginsName rest) :
    modifier? (word.text ++ rest) = some (word.letters, rest) := by
  have letters : Stops Text.isLetter (word.gap ++ rest) := written.gap.stops not_isLetter_of_isBlank rest
  have stops : Stops Text.isBlank rest := begins.unblank
  rw [modifier?, HeaderWord.text, List.append_assoc]
  simp [Text.run?_append written.present written.letters letters, written.gap.run? stops]

/-- What a header name has been read from. -/
theorem exists_of_procedureName? {text name after : List Char} (reads : procedureName? text = some (name, after)) :
    ∃ behind blanks start more, Text.stripFolded? "procedure".toList text = some behind ∧
      Text.run? Text.isBlank behind = some (blanks, start) ∧ name? start = some (name, more) ∧
      (more.head? ≠ some '@' → Text.expect? '(' (Text.trimStart more) = some after) := by
  simp only [procedureName?, Option.bind_eq_bind, Option.bind_eq_some_iff] at reads
  obtain ⟨behind, strips, ⟨blanks, start⟩, runs, ⟨found, more⟩, named, opened, expects, same⟩ := reads
  cases same
  refine ⟨behind, blanks, start, more, strips, runs, named, fun unnumbered => ?_⟩
  rw [← expects]
  congr 2
  split
  · rename_i numbered
    exact absurd (congrArg List.head? numbered) unnumbered
  · rfl

theorem not_mem_keyword_of_isBlank (c : Char) (blank : Text.isBlank c = true) :
    "procedure".toList.contains (Text.foldCase c) = false := by
  have other := Text.all_of_isBlank (p := fun c => !"procedure".toList.contains (Text.foldCase c)) (by decide +kernel) blank
  simpa using other

/-- A name is followed by a parenthesis, so no word before another one is taken for the keyword. -/
theorem procedureName?_words (written : word.WellFormed) (follows : next.WellFormed) (begins : BeginsName rest) :
    procedureName? (word.text ++ (next.text ++ rest)) = none := by
  cases reads : procedureName? (word.text ++ (next.text ++ rest)) with
  | none => rfl
  | some found =>
    obtain ⟨name, after⟩ := found
    obtain ⟨behind, blanks, start, more, strips, runs, named, expects⟩ := exists_of_procedureName? reads
    rw [HeaderWord.text, List.append_assoc] at strips
    obtain ⟨front, back, same, rfl⟩ :=
      Text.exists_of_stripFolded? (written.gap.stops not_mem_keyword_of_isBlank _) strips
    cases back with
    | cons c back =>
      have letter := written.letters c (by rw [same]; simp)
      rw [List.cons_append, Text.run?_of_stops (.cons (Text.isBlank_of_isLetter letter) _)] at runs
      cases runs
    | nil =>
      have begun : BeginsName (next.text ++ rest) := follows.beginsName.append rest
      rw [List.nil_append, written.gap.run? begun.unblank] at runs
      cases runs
      have read : name? (next.letters ++ (next.gap ++ rest)) = some (next.letters, next.gap ++ rest) :=
        name?_text follows.plain (follows.gap.stops (fun c blank => Text.isNamePart_of_isBlank blank) rest)
      rw [HeaderWord.text, List.append_assoc, read] at named
      cases named
      have unnumbered : (next.gap ++ rest).head? ≠ some '@' := by
        intro numbered
        have other := follows.gap.stops (p := (· == '@')) (fun c blank => by
          rw [beq_eq_false_iff_ne]
          rintro rfl
          cases blank) rest
        exact absurd (other '@' numbered) (by decide)
      have opened := expects unnumbered
      rw [Text.trimStart_run follows.gap.blank begins.unblank] at opened
      obtain ⟨c, rest, rfl, part⟩ := begins
      have other : (c == '(') = false := by
        rw [beq_eq_false_iff_ne]
        rintro rfl
        cases part
      rw [Text.expect?, other] at opened
      cases opened

theorem procedureName?_header {keyword gap : List Char} (spells : Text.Spells "procedure".toList keyword)
    (isGap : IsInlineGap gap) {name : WrittenName} (written : name.WellFormed) (rest : List Char) :
    procedureName? (keyword ++ (gap ++ (name.text ++ '(' :: rest))) = some (name.value, rest) := by
  have begins : BeginsName (name.text ++ '(' :: rest) := (beginsName_text written).append _
  have named : name? (name.text ++ '(' :: rest) = some (name.value, '(' :: rest) :=
    name?_text written (.cons (by decide) rest)
  simp only [procedureName?, Option.bind_eq_bind, spells.stripFolded?, Option.bind_some,
    isGap.run? begins.unblank, named]
  rfl

theorem wellFormed_keyword {keyword gap : List Char} (spells : Text.Spells "procedure".toList keyword)
    (isGap : IsInlineGap gap) : HeaderWord.WellFormed ⟨keyword, gap⟩ := by
  refine ⟨?_, fun c inside => Text.isLetter_of_isAlpha (spells.isAlpha c inside), isGap⟩
  rintro rfl
  exact absurd spells.map_toLower (by decide)

theorem beginsName_words {words : List HeaderWord} (written : ∀ word ∈ words, word.WellFormed)
    (behind : BeginsName rest) : BeginsName (words.flatMap HeaderWord.text ++ rest) := by
  cases words with
  | nil => exact behind
  | cons word words =>
    rw [List.flatMap_cons, List.append_assoc]
    exact (written word (List.mem_cons_self ..)).beginsName.append _

theorem length_le_flatMap {words : List HeaderWord} (written : ∀ word ∈ words, word.WellFormed) :
    words.length ≤ (words.flatMap HeaderWord.text).length := by
  induction words with
  | nil => exact Nat.le_refl _
  | cons word words ih =>
    have first := List.length_pos_iff.2 (written word (List.mem_cons_self ..)).present
    have rest := ih fun other inside => written other (List.mem_cons_of_mem _ inside)
    rw [List.flatMap_cons, List.length_cons, HeaderWord.text, List.length_append, List.length_append]
    omega

/-- Behind a word of a header stands another one, and a name begins after that. -/
theorem exists_next_word {words : List HeaderWord} (written : ∀ word ∈ words, word.WellFormed)
    (follows : next.WellFormed) (begins : BeginsName rest) : ∃ (first : HeaderWord) (behind : List Char),
      first.WellFormed ∧ BeginsName behind ∧ words.flatMap HeaderWord.text ++ (next.text ++ rest) = first.text ++ behind := by
  cases words with
  | nil => exact ⟨next, rest, follows, begins, rfl⟩
  | cons word words =>
    refine ⟨word, _, written word (List.mem_cons_self ..), beginsName_words (fun other inside =>
      written other (List.mem_cons_of_mem _ inside)) (follows.beginsName.append rest), ?_⟩
    rw [List.flatMap_cons, List.append_assoc]

/-- Modifiers do not matter, however many there are, as long as none of them makes the procedure local. -/
theorem headerAfter?_words {keyword gap : List Char} (spells : Text.Spells "procedure".toList keyword)
    (isGap : IsInlineGap gap) {name : WrittenName} (written : name.WellFormed) {words : List HeaderWord}
    (modifiers : ∀ word ∈ words, word.WellFormed ∧ Text.sameWord word.letters "local".toList = false)
    {fuel : Nat} (enough : words.length < fuel) (rest : List Char) :
    headerAfter? false fuel (words.flatMap HeaderWord.text ++ (keyword ++ (gap ++ (name.text ++ '(' :: rest)))) =
      some ⟨false, name.value, rest⟩ := by
  obtain ⟨fuel, rfl⟩ := Nat.exists_eq_succ_of_ne_zero (Nat.ne_of_gt (Nat.zero_lt_of_lt enough))
  induction words generalizing fuel with
  | nil => rw [List.flatMap_nil, List.nil_append, headerAfter?, procedureName?_header spells isGap written]
  | cons word words ih =>
    obtain ⟨first, notLocal⟩ := modifiers word (List.mem_cons_self ..)
    have later : ∀ other ∈ words, other.WellFormed ∧ Text.sameWord other.letters "local".toList = false :=
      fun other inside => modifiers other (List.mem_cons_of_mem _ inside)
    have shorter : words.length < fuel := Nat.lt_of_succ_lt_succ enough
    obtain ⟨fuel, rfl⟩ := Nat.exists_eq_succ_of_ne_zero (Nat.ne_of_gt (Nat.zero_lt_of_lt shorter))
    obtain ⟨next, behind, follows, named, same⟩ := exists_next_word (fun other inside => (later other inside).1)
      (wellFormed_keyword spells isGap) ((beginsName_text written).append ('(' :: rest))
    rw [HeaderWord.text, List.append_assoc] at same
    have reads := ih later fuel shorter
    rw [same] at reads
    rw [List.flatMap_cons, List.append_assoc, same, headerAfter?, procedureName?_words first follows named,
      modifier?_word first (follows.beginsName.append behind)]
    dsimp only
    rw [notLocal, Bool.false_or, reads]

theorem procedureName?_of_first {c : Char} (other : Text.foldCase c ≠ 'p') (rest : List Char) :
    procedureName? (c :: rest) = none := by
  have unread : Text.stripFolded? "procedure".toList (c :: rest) = none := by
    have first : "procedure".toList = 'p' :: "rocedure".toList := rfl
    rw [first, Text.stripFolded?, if_neg (by simpa using Ne.symm other)]
  rw [procedureName?, unread]
  rfl

theorem headerAfter?_of_first {c : Char} (unlettered : Text.isLetter c = false) (other : Text.foldCase c ≠ 'p')
    (isLocal : Bool) (fuel : Nat) (rest : List Char) : headerAfter? isLocal fuel (c :: rest) = none := by
  have unread : modifier? (c :: rest) = none := by
    rw [modifier?, Text.run?_of_stops (.cons unlettered rest)]
    rfl
  cases fuel with
  | zero => rfl
  | succ fuel => rw [headerAfter?, procedureName?_of_first other, unread]

/-- What stands directly before a colon is neither the keyword nor a modifier. -/
theorem headerAfter?_of_colon {front : List Char} (unblank : ∀ c ∈ front, Text.isBlank c = false) (isLocal : Bool)
    (fuel : Nat) (rest : List Char) : headerAfter? isLocal fuel (front ++ ':' :: rest) = none := by
  have stops {back : List Char} (inside : ∀ c ∈ back, Text.isBlank c = false) : Stops Text.isBlank (back ++ ':' :: rest) := by
    cases back with
    | nil => exact .cons (by decide) rest
    | cons c back => exact .cons (inside c (List.mem_cons_self ..)) _
  have unnamed : procedureName? (front ++ ':' :: rest) = none := by
    cases reads : procedureName? (front ++ ':' :: rest) with
    | none => rfl
    | some found =>
      obtain ⟨behind, blanks, start, more, strips, runs, -⟩ := exists_of_procedureName? reads
      obtain ⟨read, back, rfl, rfl⟩ := Text.exists_of_stripFolded? (.cons (by decide) rest) strips
      rw [Text.run?_of_stops (stops fun c inside => unblank c (List.mem_append_right _ inside))] at runs
      cases runs
  have unmodified : modifier? (front ++ ':' :: rest) = none := by
    have ends : Stops Text.isLetter (':' :: rest) := .cons (by decide) rest
    have kept : Stops Text.isBlank ((front ++ ':' :: rest).dropWhile Text.isLetter) := by
      rw [Text.dropWhile_append_stops ends]
      exact stops fun c inside => unblank c ((List.dropWhile_sublist _).subset inside)
    simp only [modifier?, Text.run?]
    split
    · rfl
    · simpa [Text.run?] using Text.run?_of_stops kept
  cases fuel with
  | zero => rfl
  | succ fuel => rw [headerAfter?, unnamed, unmodified]

/-- A line that has begun so is no header, whatever follows. -/
def Unheaded (text : List Char) : Prop :=
  (∀ c ∈ text, Text.isBlank c = true) ∨
    ∀ rest isLocal fuel, headerAfter? isLocal fuel (Text.trimStart (text ++ rest)) = none

namespace Unheaded

variable {text : List Char}

theorem append {other : List Char} (unheaded : Unheaded text) (more : Unheaded other) : Unheaded (text ++ other) := by
  rcases unheaded with blank | never
  · rcases more with otherBlank | never
    · refine .inl fun c inside => ?_
      rcases List.mem_append.1 inside with first | second
      · exact blank c first
      · exact otherBlank c second
    · refine .inr fun rest isLocal fuel => ?_
      rw [List.append_assoc, Text.trimStart, List.dropWhile_append_of_pos blank]
      exact never rest isLocal fuel
  · refine .inr fun rest isLocal fuel => ?_
    rw [List.append_assoc]
    exact never (other ++ rest) isLocal fuel

theorem of_first {c : Char} (unblank : Text.isBlank c = false) (unlettered : Text.isLetter c = false)
    (other : Text.foldCase c ≠ 'p') (rest : List Char) : Unheaded (c :: rest) := by
  refine .inr fun more isLocal fuel => ?_
  rw [List.cons_append, Text.trimStart, List.dropWhile_cons_of_neg (by simpa using unblank)]
  exact headerAfter?_of_first unlettered other isLocal fuel _

theorem procedureHeader? (unheaded : Unheaded text) : procedureHeader? text = none := by
  rcases unheaded with blank | never
  · have empty : Text.trimStart text = [] := by
      have dropped := Text.trimStart_run blank (.nil _)
      rwa [List.append_nil] at dropped
    rw [Source.procedureHeader?, empty]
    rfl
  · have missed := never [] false (text.length + 1)
    rwa [List.append_nil] at missed

end Unheaded

/-- A name before a colon begins no header. -/
theorem headerAfter?_of_name {name : WrittenName} (written : name.WellFormed) (isLocal : Bool) (fuel : Nat)
    (rest : List Char) : headerAfter? isLocal fuel (name.text ++ ':' :: rest) = none := by
  cases name with
  | quoted content => exact headerAfter?_of_first (by decide) (by decide) isLocal fuel _
  | plain word =>
    obtain ⟨first, more, rfl, start, parts⟩ := written
    refine headerAfter?_of_colon (fun c inside => Text.isBlank_of_isNamePart ?_) isLocal fuel rest
    rcases List.mem_cons.1 inside with rfl | later
    · simp [isNamePart, Text.isIdentifierPart, start]
    · simp [isNamePart, parts c later]

end Reading
end SymbolCache.Source
