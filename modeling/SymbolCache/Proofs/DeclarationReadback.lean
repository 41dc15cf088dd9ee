import SymbolCache.Proofs.BlockLocation
import SymbolCache.Proofs.WrittenNames
import SymbolCache.Source.Declaration

/-! Declarations read back as they are written: behind any preamble, with or without a number and an extended object,
and with names that hold quotes, digits or keywords. A unit that opens with any other word declares nothing. -/

namespace SymbolCache.ObjectKind
open Text (Spells)

theorem isLower_keyword (kind : ObjectKind) : ∀ c ∈ kind.keyword.toList, c.isLower = true := by
  cases kind <;> exact List.all_eq_true.1 rfl

theorem parse?_eq_some_iff {kind : ObjectKind} {word : List Char} (letters : ∀ c ∈ word, Text.isLetter c = true) :
    parse? word = some kind ↔ Spells kind.keyword.toList word := by
  have trimmed : Text.trim word = word := Text.trim_of_unblank fun c inside => Text.isBlank_of_isLetter (letters c inside)
  rw [parse?, trimmed, ofKeyword?_eq_some_iff, ← String.toList_inj, String.toList_ofList]
  constructor
  · intro same
    refine ⟨?_, isLower_keyword kind⟩
    rw [Text.sameWord, beq_iff_eq, same]
    exact ((List.map_congr_left fun c inside => Text.toLower_of_isLower (isLower_keyword kind c inside)).trans
      (List.map_id _)).symm
  · exact fun spells => spells.map_toLower

/-- No kind is named like a statement or a directive of the preamble. -/
theorem exists_of_spells {kind : ObjectKind} {word : List Char} (spells : Spells kind.keyword.toList word) :
    ∃ c more, word = c :: more ∧ c.toLower ≠ '#' ∧ c.toLower ≠ 'n' ∧ c.toLower ≠ 'u' := by
  have shape : ∃ first rest, kind.keyword.toList = first :: rest ∧ first ≠ '#' ∧ first ≠ 'n' ∧ first ≠ 'u' := by
    cases kind <;> exact ⟨_, _, rfl, by decide, by decide, by decide⟩
  obtain ⟨first, rest, keyword, other⟩ := shape
  have lower := spells.map_toLower
  rw [keyword] at lower
  cases word with
  | nil => cases lower
  | cons c more =>
    obtain ⟨rfl, -⟩ := List.cons.inj lower
    exact ⟨c, more, rfl, other⟩

end SymbolCache.ObjectKind

namespace SymbolCache.Source
open Text (Stops Spells IsGap isNamePart)

/-- Every step of the preamble depends only on what stands behind the blanks. -/
theorem dropPreamble_eq (text : List Char) :
    dropPreamble text = match statementEnd? (Text.trimStart text) with
      | none => Text.trimStart text
      | some terminator => match Text.cutAt? terminator (Text.trimStart text) with
        | some (_, after) => dropPreamble after
        | none => [] := by
  rw [dropPreamble]
  cases statementEnd? (Text.trimStart text) with
  | none => rfl
  | some terminator =>
    dsimp only
    split
    · rename_i cut
      rw [cut]
    · rename_i cut
      rw [cut]

theorem dropPreamble_blank {c : Char} (blank : Text.isBlank c = true) (text : List Char) :
    dropPreamble (c :: text) = dropPreamble text := by
  have start : Text.trimStart (c :: text) = Text.trimStart text := List.dropWhile_cons_of_pos blank
  rw [dropPreamble_eq, start, ← dropPreamble_eq]

theorem dropPreamble_bare {text : List Char} (stops : Stops Text.isBlank text) (bare : statementEnd? text = none) :
    dropPreamble text = text := by
  rw [dropPreamble_eq, Text.trimStart, Text.dropWhile_stops stops, bare]

theorem dropPreamble_statement {text : List Char} {terminator : Char} (stops : Stops Text.isBlank text)
    (ends : statementEnd? text = some terminator) :
    dropPreamble text = match Text.cutAt? terminator text with
      | some (_, after) => dropPreamble after
      | none => [] := by
  rw [dropPreamble_eq, Text.trimStart, Text.dropWhile_stops stops, ends]

/-- A statement of the preamble, up to the character that ends it. -/
inductive Statement : Char → List Char → Prop where
  | directive (line : List Char) : Statement '\n' ('#' :: line)
  | keyword {word : List Char} {c : Char} (body : List Char)
      (spells : Spells "namespace".toList word ∨ Spells "using".toList word) (blank : Text.isBlank c = true) :
      Statement ';' (word ++ c :: body)

/-- What may stand before a declaration. -/
inductive Preamble : List Char → Prop where
  | nil : Preamble []
  | blank {c : Char} {rest : List Char} (blank : Text.isBlank c = true) (more : Preamble rest) : Preamble (c :: rest)
  | statement {terminator : Char} {text rest : List Char} (statement : Statement terminator text)
      (unended : terminator ∉ text) (more : Preamble rest) : Preamble (text ++ terminator :: rest)

/-- The words that statements begin with. -/
theorem letters_of_spells {word : List Char} (spells : Spells "namespace".toList word ∨ Spells "using".toList word) :
    word ≠ [] ∧ ∀ c ∈ word, c.isAlpha = true := by
  rcases spells with spells | spells
  · exact ⟨fun empty => by simpa [empty] using spells.map_toLower, spells.isAlpha⟩
  · exact ⟨fun empty => by simpa [empty] using spells.map_toLower, spells.isAlpha⟩

theorem startsWithKeyword_append {keyword word : List Char} (spells : Spells keyword word) {c : Char}
    (blank : Text.isBlank c = true) (rest : List Char) : startsWithKeyword keyword (word ++ c :: rest) = true := by
  rw [startsWithKeyword, Lexical.stripWord?_append spells.same]
  exact blank

private theorem exists_of_startsWithKeyword {keyword text : List Char} (lower : ∀ c ∈ keyword, c.isLower = true)
    (starts : startsWithKeyword keyword text = true) :
    ∃ word c body, Spells keyword word ∧ Text.isBlank c = true ∧ text = word ++ c :: body := by
  rw [startsWithKeyword] at starts
  split at starts
  · rename_i rest strips
    obtain ⟨word, split, -, same, -⟩ := Lexical.exists_of_stripWord? strips
    cases rest with
    | nil => cases starts
    | cons c body => exact ⟨word, c, body, ⟨beq_iff_eq.2 same, lower⟩, starts, split⟩
  · cases starts

/-- What begins with a word is no directive. -/
private theorem unmarked_of_letters {word : List Char} (letters : ∀ c ∈ word, c.isAlpha = true) {c : Char}
    (blank : Text.isBlank c = true) (body : List Char) : ((word ++ c :: body).head? == some '#') = false := by
  rw [beq_eq_false_iff_ne]
  intro marked
  cases word with
  | nil =>
    cases marked
    exact absurd blank (by decide)
  | cons first word =>
    cases marked
    exact absurd (letters '#' (List.mem_cons_self ..)) (by decide)

theorem statementEnd?_eq_some_iff {text : List Char} {terminator : Char} :
    statementEnd? text = some terminator ↔ Statement terminator text := by
  constructor
  · intro ends
    unfold statementEnd? at ends
    split at ends
    · rename_i marked
      cases ends
      obtain ⟨line, rfl⟩ := List.head?_eq_some_iff.1 (beq_iff_eq.1 marked)
      exact .directive line
    · split at ends
      · rename_i starts
        cases ends
        rw [Bool.or_eq_true] at starts
        rcases starts with starts | starts
        · obtain ⟨word, c, body, spells, blank, rfl⟩ := exists_of_startsWithKeyword (List.all_eq_true.1 rfl) starts
          exact .keyword body (.inl spells) blank
        · obtain ⟨word, c, body, spells, blank, rfl⟩ := exists_of_startsWithKeyword (List.all_eq_true.1 rfl) starts
          exact .keyword body (.inr spells) blank
      · cases ends
  · intro statement
    cases statement with
    | directive line => rfl
    | keyword body spells blank =>
      rw [statementEnd?, unmarked_of_letters (letters_of_spells spells).2 blank, if_neg Bool.false_ne_true, if_pos]
      rw [Bool.or_eq_true]
      exact spells.imp (fun spells => startsWithKeyword_append spells blank body)
        fun spells => startsWithKeyword_append spells blank body

theorem Statement.append {terminator : Char} {text : List Char} (statement : Statement terminator text)
    (more : List Char) : Statement terminator (text ++ more) := by
  cases statement with
  | directive line => exact .directive (line ++ more)
  | keyword body spells blank =>
    rw [List.append_assoc, List.cons_append]
    exact .keyword (body ++ more) spells blank

theorem Statement.stops {terminator : Char} {text : List Char} (statement : Statement terminator text) :
    Stops Text.isBlank text := by
  cases statement with
  | directive line => exact .cons (by decide) line
  | @keyword word c body spells blank =>
    obtain ⟨present, letters⟩ := letters_of_spells spells
    refine Stops.append (fun d head => ?_) present _
    exact Text.isBlank_of_isLetter (Text.isLetter_of_isAlpha (letters d (List.mem_of_mem_head? head)))

/-- A statement that goes on to its end or to a brace has begun before that. -/
theorem Statement.of_append {terminator d : Char} {before after : List Char} (later : d = terminator ∨ d = '{')
    (statement : Statement terminator (before ++ d :: after)) : Statement terminator before := by
  have split {front rest : List Char} (absent : d ∉ front) (same : front ++ rest = before ++ d :: after) :
      ∃ body, before = front ++ body := by
    rcases List.append_eq_append_iff.1 same with ⟨body, whole, -⟩ | ⟨more, whole, ends⟩
    · exact ⟨body, whole⟩
    · cases more with
      | nil => exact ⟨[], by rw [whole, List.append_nil, List.append_nil]⟩
      | cons c more =>
        obtain ⟨rfl, -⟩ := List.cons.inj ends
        exact absurd (by rw [whole]; simp) absent
  generalize whole : before ++ d :: after = text at statement
  cases statement with
  | directive line =>
    have absent : d ∉ ['#'] := by rcases later with rfl | rfl <;> decide
    obtain ⟨body, rfl⟩ := split absent whole.symm
    exact .directive body
  | @keyword word c body spells blank =>
    obtain ⟨-, letters⟩ := letters_of_spells spells
    have apart : d.isAlpha = false ∧ Text.isBlank d = false := by rcases later with rfl | rfl <;> decide
    have absent : d ∉ word ++ [c] := by
      rw [List.mem_append, not_or, List.mem_singleton]
      refine ⟨fun inside => ?_, ?_⟩
      · rw [letters d inside] at apart
        cases apart.1
      · rintro rfl
        rw [blank] at apart
        cases apart.2
    obtain ⟨more, rfl⟩ := split absent (by rw [List.append_assoc]; exact whole.symm)
    rw [List.append_assoc]
    exact .keyword more spells blank

theorem Preamble.dropPreamble {front : List Char} (preamble : Preamble front) (rest : List Char) :
    dropPreamble (front ++ rest) = Source.dropPreamble rest := by
  induction preamble with
  | nil => rfl
  | blank blank more ih => rw [List.cons_append, dropPreamble_blank blank, ih]
  | @statement terminator text later statement unended more ih =>
    have begun := statement.append (terminator :: (later ++ rest))
    rw [List.append_assoc, List.cons_append, dropPreamble_statement begun.stops (statementEnd?_eq_some_iff.2 begun),
      Text.cutAt?_append unended]
    exact ih

/-- No statement, directive or blank of a preamble begins the text. -/
def Bare (text : List Char) : Prop := ∀ front rest, text = front ++ rest → Preamble front → front = []

/-- A text is bare when it opens with no blank, and with no statement that ends. -/
theorem bare_iff {text : List Char} : Bare text ↔ Stops Text.isBlank text ∧
    ∀ terminator, statementEnd? text = some terminator → Text.cutAt? terminator text = none := by
  constructor
  · intro bare
    refine ⟨?_, ?_⟩
    · intro c first
      cases blank : Text.isBlank c with
      | false => rfl
      | true =>
        obtain ⟨rest, rfl⟩ := List.head?_eq_some_iff.1 first
        exact absurd (bare [c] rest rfl (.blank blank .nil)) (List.cons_ne_nil c [])
    · intro terminator ends
      rw [Option.eq_none_iff_forall_ne_some]
      rintro ⟨before, after⟩ cut
      have whole := Text.eq_of_cutAt? cut
      have statement : Statement terminator before := .of_append (.inl rfl) (whole ▸ statementEnd?_eq_some_iff.1 ends)
      have front := Preamble.statement statement (Text.not_mem_of_cutAt? cut) .nil
      exact absurd (bare _ after (by rw [whole, List.append_assoc]; rfl) front) (by simp)
  · rintro ⟨stops, uncut⟩ front rest rfl preamble
    cases preamble with
    | nil => rfl
    | blank blank more =>
      rw [stops _ rfl] at blank
      cases blank
    | @statement terminator text later statement unended more =>
      have begun := statement.append (terminator :: (later ++ rest))
      rw [List.append_assoc, List.cons_append] at uncut
      have none := uncut terminator (statementEnd?_eq_some_iff.2 begun)
      rw [Text.cutAt?_append unended] at none
      cases none

theorem Bare.dropPreamble {text : List Char} (bare : Bare text) :
    dropPreamble text = text ∨ dropPreamble text = [] := by
  obtain ⟨stops, uncut⟩ := bare_iff.1 bare
  cases ends : statementEnd? text with
  | none => exact .inl (dropPreamble_bare stops ends)
  | some terminator =>
    rw [dropPreamble_statement stops ends, uncut terminator ends]
    exact .inr rfl

/-- A declaration opens with the keyword of a kind, up to a blank. -/
theorem declaration?_of_other_word {text : List Char} (other : ∀ kind : ObjectKind,
    ¬ Spells kind.keyword.toList ((dropPreamble text).takeWhile fun c => !Text.isBlank c)) : declaration? text = none := by
  rw [Option.eq_none_iff_forall_ne_some]
  intro found reads
  simp only [declaration?, Option.bind_eq_bind, Option.bind_eq_some_iff] at reads
  obtain ⟨⟨keyword, rest⟩, letters, kind, parses, ⟨gap, behind⟩, spaces, -⟩ := reads
  obtain ⟨whole, -, all⟩ := Text.exists_of_run? letters
  obtain ⟨split, present, space⟩ := Text.exists_of_run? spaces
  have stops : Stops (fun c => !Text.isBlank c) rest := by
    rw [show rest = gap ++ behind from split]
    exact IsGap.stops ⟨present, space⟩ (by decide) (by decide) behind
  have word : (dropPreamble text).takeWhile (fun c => !Text.isBlank c) = keyword := by
    rw [whole]
    exact Text.takeWhile_run (fun c inside => by rw [Text.isBlank_of_isLetter (all c inside)]; rfl) stops
  exact other kind (word ▸ (ObjectKind.parse?_eq_some_iff all).1 parses)

/-- The object that an extension names, with the word before it. -/
structure WrittenTarget where
  before : List Char
  word : List Char
  after : List Char
  name : WrittenName

/-- A declaration as it stands in a text. -/
structure WrittenDeclaration where
  kind : ObjectKind
  keyword : List Char
  gap : List Char
  /-- Digits and what stands behind them. -/
  number? : Option (List Char × List Char)
  name : WrittenName
  target? : Option WrittenTarget

namespace WrittenTarget

def text (target : WrittenTarget) : List Char := target.before ++ (target.word ++ (target.after ++ target.name.text))

structure WellFormed (target : WrittenTarget) : Prop where
  before : IsGap target.before
  word : Spells "extends".toList target.word
  after : IsGap target.after
  name : target.name.WellFormed

end WrittenTarget

namespace WrittenDeclaration

def numberText (written : WrittenDeclaration) : List Char := match written.number? with
  | none => []
  | some (digits, gap) => digits ++ gap

def targetText (written : WrittenDeclaration) : List Char := match written.target? with
  | none => []
  | some target => target.text

def text (written : WrittenDeclaration) : List Char :=
  written.keyword ++ (written.gap ++ (written.numberText ++ (written.name.text ++ written.targetText)))

/-- The declaration behind a text of so many bytes. -/
def declaration (start : Nat) (written : WrittenDeclaration) : Declaration where
  kind := written.kind
  id := written.number?.map fun (digits, _) => (Nat.ofDigitChars 10 digits 0 : Int)
  name := String.ofList written.name.value
  extends? := written.target?.map fun target => String.ofList target.name.value
  endOffset := start + Text.byteLength written.text

structure WellFormed (written : WrittenDeclaration) : Prop where
  keyword : Spells written.kind.keyword.toList written.keyword
  gap : IsGap written.gap
  digits : ∀ digits gap, written.number? = some (digits, gap) → digits ≠ [] ∧ (∀ c ∈ digits, c.isDigit = true) ∧
    Nat.ofDigitChars 10 digits 0 < Nat.pow 2 63 ∧ IsGap gap
  name : written.name.WellFormed
  target : ∀ target, written.target? = some target → target.WellFormed

end WrittenDeclaration

/-- Nothing that could still belong to a declaration: blanks, then the end of the text, a line break or a brace. -/
inductive Closes : List Char → Prop where
  | nil : Closes []
  | newline (rest : List Char) : Closes ('\n' :: rest)
  | brace (rest : List Char) : Closes ('{' :: rest)
  | blank {c : Char} {rest : List Char} (blank : Text.isBlank c = true) (more : Closes rest) : Closes (c :: rest)

theorem Closes.stops {rest : List Char} (closes : Closes rest) : Stops isNamePart rest := by
  cases closes with
  | nil => exact .nil _
  | newline rest => exact .cons (by decide) rest
  | brace rest => exact .cons (by decide) rest
  | blank blank more => exact .cons (Text.isNamePart_of_isBlank blank) _

theorem Closes.extendsClause? {rest : List Char} (closes : Closes rest) : extendsClause? rest = none := by
  have behind : Stops (fun c => 'e' == Text.foldCase c) (rest.dropWhile Text.isSpaceOrTab) := by
    induction closes with
    | nil => exact .nil _
    | newline rest => exact .cons (by decide) rest
    | brace rest => exact .cons (by decide) rest
    | @blank c rest blank more ih =>
      by_cases space : Text.isSpaceOrTab c = true
      · rwa [List.dropWhile_cons_of_pos space]
      · rw [List.dropWhile_cons_of_neg space]
        have other := Text.all_of_isBlank (p := fun c => !('e' == Text.foldCase c)) (by decide +kernel) blank
        exact .cons (by simpa using other) rest
  rw [Option.eq_none_iff_forall_ne_some]
  intro found reads
  simp only [Source.extendsClause?, Option.bind_eq_bind, Option.bind_eq_some_iff] at reads
  obtain ⟨⟨gap, after⟩, spaces, later, strips, -⟩ := reads
  have left : after = rest.dropWhile Text.isSpaceOrTab := by
    simp only [Text.run?] at spaces
    split at spaces
    · cases spaces
    · cases spaces
      rfl
  dsimp only at strips
  rw [left] at strips
  cases shape : rest.dropWhile Text.isSpaceOrTab with
  | nil =>
    rw [shape] at strips
    cases strips
  | cons c more =>
    have other : ('e' == Text.foldCase c) = false := behind c (by rw [shape]; rfl)
    have literal : "extends".toList = 'e' :: ['x', 't', 'e', 'n', 'd', 's'] := rfl
    rw [shape, literal, Text.stripFolded?, other] at strips
    cases strips

theorem stops_space_of_spells {keyword word : List Char} (spells : Spells keyword word) (present : keyword ≠ [])
    (rest : List Char) : Stops Text.isSpaceOrTab (word ++ rest) := by
  have some : word ≠ [] := by
    rintro rfl
    exact present spells.map_toLower.symm
  refine Stops.append ?_ some rest
  intro c first
  have letter := Text.isLetter_of_isAlpha (spells.isAlpha c (List.mem_of_mem_head? first))
  exact Text.isSpaceOrTab_of_unblank (Text.isBlank_of_isLetter letter)

/-- What follows a gap begins with no space. -/
theorem stops_space_of_name {name : WrittenName} (written : name.WellFormed) (rest : List Char) :
    Stops Text.isSpaceOrTab (name.text ++ rest) ∧ Stops Text.isDigit (name.text ++ rest) := by
  obtain ⟨c, more, text, part, other⟩ := exists_of_name written
  rw [text]
  exact ⟨.cons (Text.isSpaceOrTab_of_unblank (Text.isBlank_of_isNamePart part)) _, .cons other _⟩

theorem WrittenTarget.WellFormed.extendsClause? {target : WrittenTarget} (written : target.WellFormed) {rest : List Char}
    (ends : Stops isNamePart rest) : extendsClause? (target.text ++ rest) = some (target.name.value, rest) := by
  have word := stops_space_of_spells written.word (by decide) (target.after ++ (target.name.text ++ rest))
  have name := (stops_space_of_name written.name rest).1
  simp only [Source.extendsClause?, WrittenTarget.text, List.append_assoc, Option.bind_eq_bind, written.before.run? word,
    Option.bind_some, written.word.stripFolded?, written.after.run? name, name?_text written.name ends]

namespace WrittenDeclaration.WellFormed

variable {written : WrittenDeclaration} (wellFormed : written.WellFormed)

include wellFormed

theorem stops_target {rest : List Char} (closes : Closes rest) : Stops isNamePart (written.targetText ++ rest) := by
  rw [targetText]
  split
  · exact closes.stops
  · rename_i target shape
    rw [WrittenTarget.text, List.append_assoc]
    exact (wellFormed.target target shape).before.stops (by decide) (by decide) _

theorem extendsClause? {rest : List Char} (closes : Closes rest) :
    Source.extendsClause? (written.targetText ++ rest) = written.target?.map fun target => (target.name.value, rest) := by
  rw [targetText]
  cases shape : written.target? with
  | none => exact closes.extendsClause?
  | some target => exact (wellFormed.target target shape).extendsClause? closes.stops

theorem stops_number (rest : List Char) : Stops Text.isSpaceOrTab (written.numberText ++ (written.name.text ++ rest)) := by
  rw [numberText]
  split
  · exact (stops_space_of_name wellFormed.name rest).1
  · rename_i digits gap shape
    obtain ⟨present, all, -⟩ := wellFormed.digits digits gap shape
    obtain ⟨c, more, rfl⟩ := List.exists_cons_of_ne_nil present
    refine .cons ?_ _
    have digit := all c (List.mem_cons_self ..)
    cases space : Text.isSpaceOrTab c with
    | false => rfl
    | true =>
      rw [Text.isSpaceOrTab, Bool.or_eq_true, beq_iff_eq, beq_iff_eq] at space
      rcases space with rfl | rfl
      · cases digit
      · cases digit

theorem leadingId? (rest : List Char) : Source.leadingId? (written.numberText ++ (written.name.text ++ rest)) =
    written.number?.map fun (digits, _) => (digits, written.name.text ++ rest) := by
  obtain ⟨space, digit⟩ := stops_space_of_name wellFormed.name rest
  rw [numberText]
  cases shape : written.number? with
  | none => simp only [List.nil_append, Source.leadingId?, Text.run?_of_stops digit, Option.bind_eq_bind, Option.bind_none, Option.map_none]
  | some number =>
    obtain ⟨digits, gap⟩ := number
    obtain ⟨present, all, -, isGap⟩ := wellFormed.digits digits gap shape
    have number := Text.run?_append present (fun c inside => Text.isDigit_of_ascii (all c inside))
      (isGap.stops (by decide) (by decide) (written.name.text ++ rest))
    simp only [List.append_assoc, Source.leadingId?, number, Option.bind_eq_bind, Option.bind_some, isGap.run? space]
    rfl

theorem bare (rest : List Char) : Source.dropPreamble (written.text ++ rest) = written.text ++ rest := by
  obtain ⟨c, more, keyword, unmarked, named, used⟩ := ObjectKind.exists_of_spells wellFormed.keyword
  have alpha := wellFormed.keyword.isAlpha c (by rw [keyword]; exact List.mem_cons_self ..)
  have stops : Stops Text.isBlank (written.text ++ rest) := by
    rw [text, keyword]
    exact .cons (Text.isBlank_of_isLetter (Text.isLetter_of_isAlpha alpha)) _
  refine dropPreamble_bare stops ?_
  rw [Option.eq_none_iff_forall_ne_some]
  intro terminator ends
  have statement := statementEnd?_eq_some_iff.1 ends
  rw [text, keyword] at statement
  generalize whole : c :: more ++ _ ++ rest = found at statement
  cases statement with
  | directive line =>
    obtain ⟨rfl, -⟩ := List.cons.inj whole
    exact unmarked rfl
  | @keyword word blank body spells isBlank =>
    have first {keyword : List Char} (spells : Spells keyword word) (present : keyword ≠ []) :
        keyword.head? = some c.toLower := by
      cases word with
      | nil => exact absurd spells.map_toLower.symm present
      | cons d word =>
        obtain ⟨rfl, -⟩ := List.cons.inj whole
        rw [← spells.map_toLower]
        rfl
    rcases spells with spells | spells
    · exact named (Option.some.inj (first spells (by decide))).symm
    · exact used (Option.some.inj (first spells (by decide))).symm

end WrittenDeclaration.WellFormed

theorem declaration?_text {preamble : List Char} (begins : Preamble preamble) {written : WrittenDeclaration}
    (wellFormed : written.WellFormed) {rest : List Char} (closes : Closes rest) :
    declaration? (preamble ++ (written.text ++ rest)) = some (written.declaration (Text.byteLength preamble)) := by
  have letters : ∀ c ∈ written.keyword, Text.isLetter c = true :=
    fun c inside => Text.isLetter_of_isAlpha (wellFormed.keyword.isAlpha c inside)
  have present : written.keyword ≠ [] := by
    obtain ⟨c, more, keyword, -⟩ := ObjectKind.exists_of_spells wellFormed.keyword
    rw [keyword]
    exact List.cons_ne_nil c more
  have start : dropPreamble (preamble ++ (written.text ++ rest)) = written.keyword ++ (written.gap ++
      (written.numberText ++ (written.name.text ++ (written.targetText ++ rest)))) := by
    rw [begins.dropPreamble, wellFormed.bare, WrittenDeclaration.text]
    simp only [List.append_assoc]
  have word := Text.run?_append present letters (wellFormed.gap.stops (p := Text.isLetter) (by decide) (by decide)
    (written.numberText ++ (written.name.text ++ (written.targetText ++ rest))))
  have gap := wellFormed.gap.run? (wellFormed.stops_number (written.targetText ++ rest))
  have name := name?_text wellFormed.name (wellFormed.stops_target closes)
  have target := wellFormed.extendsClause? closes
  have number := wellFormed.leadingId? (written.targetText ++ rest)
  have length : Text.byteLength (preamble ++ (written.text ++ rest)) - Text.byteLength rest =
      Text.byteLength preamble + Text.byteLength written.text := by
    rw [Text.byteLength_append, Text.byteLength_append, ← Nat.add_assoc, Nat.add_sub_cancel]
  rw [declaration?]
  simp only [start, word, Option.bind_eq_bind, Option.bind_some, (ObjectKind.parse?_eq_some_iff letters).2 wellFormed.keyword, gap,
    number]
  -- Without an extended object the text of none is left before the rest.
  have ends {behind : List Char} (left : behind = written.targetText ++ rest) (none : written.target? = none) :
      behind = rest := by
    rw [left, WrittenDeclaration.targetText, none]
    rfl
  cases digits : written.number? with
  | none =>
    have bare : written.numberText = [] := by rw [WrittenDeclaration.numberText, digits]
    simp only [Option.map_none, bare, List.nil_append, name, Option.bind_some, target]
    cases extended : written.target? with
    | none => simp only [Option.map_none, ends rfl extended, length, WrittenDeclaration.declaration, digits, extended]; rfl
    | some found => simp only [Option.map_some, length, WrittenDeclaration.declaration, digits, extended]; rfl
  | some found =>
    obtain ⟨found, behind⟩ := found
    obtain ⟨some, all, bound, -⟩ := wellFormed.digits found behind digits
    simp only [Option.map_some, name, Option.bind_some, target, Text.readInt64?_digits some all bound]
    cases extended : written.target? with
    | none => simp only [Option.map_none, ends rfl extended, length, WrittenDeclaration.declaration, digits, extended]; rfl
    | some found => simp only [Option.map_some, length, WrittenDeclaration.declaration, digits, extended]; rfl

/-- Declarations read back behind any preamble, and a unit that opens with another word has none. -/
theorem declaration?_reads_back {preamble : List Char} (begins : Preamble preamble) :
    (∀ (written : WrittenDeclaration) (rest : List Char), written.WellFormed → Closes rest →
      declaration? (preamble ++ (written.text ++ rest)) = some (written.declaration (Text.byteLength preamble))) ∧
    ∀ rest : List Char, Bare rest →
      (∀ kind : ObjectKind, Text.sameWord (rest.takeWhile fun c => !Text.isBlank c) kind.keyword.toList = false) →
      declaration? (preamble ++ rest) = none := by
  constructor
  · exact fun written rest wellFormed closes => declaration?_text begins wellFormed closes
  · intro rest bare other
    refine declaration?_of_other_word fun kind spells => ?_
    rw [begins.dropPreamble] at spells
    rcases bare.dropPreamble with whole | none
    · rw [whole] at spells
      have same := spells.same
      rw [other kind] at same
      cases same
    · rw [none] at spells
      have lower := spells.map_toLower
      cases kind <;> cases lower

/-- A number with a leading zero, a name with quotes in it, and the name of a statement for what is extended. -/
def sampleExtension : WrittenDeclaration where
  kind := .tableExtension
  keyword := "TableExtension".toList
  gap := " ".toList
  number? := some ("050100".toList, "\t".toList)
  name := .quoted "\"more\" extends".toList
  target? := some ⟨"  ".toList, "EXTENDS".toList, " ".toList, .plain "using".toList⟩

theorem wellFormed_sampleExtension : sampleExtension.WellFormed where
  keyword := ⟨rfl, List.all_eq_true.1 rfl⟩
  gap := ⟨by decide, List.all_eq_true.1 rfl⟩
  digits := by
    rintro digits gap ⟨⟩
    exact ⟨by decide, List.all_eq_true.1 rfl, by decide, by decide, List.all_eq_true.1 rfl⟩
  name := ⟨by decide, by decide⟩
  target := by
    rintro target ⟨⟩
    exact ⟨⟨by decide, List.all_eq_true.1 rfl⟩, ⟨rfl, List.all_eq_true.1 rfl⟩, ⟨by decide, List.all_eq_true.1 rfl⟩,
      'u', "sing".toList, rfl, by decide, List.all_eq_true.1 rfl⟩

theorem declaration?_of_sampleExtension :
    Preamble "#if A\nusing B;\n".toList ∧ sampleExtension.WellFormed ∧ Closes " \r\n".toList ∧
    declaration? "#if A\nusing B;\nTableExtension 050100\t\"\"\"more\"\" extends\"  EXTENDS using \r\n".toList =
      some ⟨.tableExtension, some 50100, "\"more\" extends", some "using", 70⟩ ∧
    Bare "profile Item\ntable 5 Item".toList ∧
    declaration? "#if A\nusing B;\nprofile Item\ntable 5 Item".toList = none := by
  have directive : Statement '\n' "#if A".toList := .directive "if A".toList
  have statement : Statement ';' "using B".toList :=
    @Statement.keyword "using".toList ' ' "B".toList (.inr ⟨rfl, List.all_eq_true.1 rfl⟩) (by decide)
  have begins : Preamble "#if A\nusing B;\n".toList :=
    .statement directive (by decide) (.statement statement (by decide) (@Preamble.blank '\n' [] (by decide) .nil))
  have closes : Closes " \r\n".toList := .blank (by decide) (.blank (by decide) (.newline []))
  have bare : Bare "profile Item\ntable 5 Item".toList :=
    bare_iff.2 ⟨.cons (by decide) _, fun terminator ends => by cases ends⟩
  obtain ⟨reads, declaresNothing⟩ := declaration?_reads_back begins
  have text : "#if A\nusing B;\nTableExtension 050100\t\"\"\"more\"\" extends\"  EXTENDS using \r\n".toList =
      "#if A\nusing B;\n".toList ++ (sampleExtension.text ++ " \r\n".toList) := by decide +kernel
  have declared : sampleExtension.declaration (Text.byteLength "#if A\nusing B;\n".toList) =
      ⟨.tableExtension, some 50100, "\"more\" extends", some "using", 70⟩ := by decide +kernel
  refine ⟨begins, wellFormed_sampleExtension, closes, ?_, bare, ?_⟩
  · rw [text, reads sampleExtension _ wellFormed_sampleExtension closes, declared]
  · exact declaresNothing _ bare fun kind => by cases kind <;> rfl

end SymbolCache.Source
