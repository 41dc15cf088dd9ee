import SymbolCache.Legacy.Reader
import SymbolCache.Proofs.Enclosure
import SymbolCache.Proofs.TextSplitting

/-! Code sections and the documentation at their end. The documentation is cut off at the start of
a word, where a scan is in normal phase, so it can be written back in its plainest form. -/

namespace SymbolCache.Lexical
open Text (byteLength)

variable {dialect : Dialect}

def phaseAfter (dialect : Dialect) (next : Option Char) : Phase → List Char → Phase
  | phase, [] => phase
  | phase, c :: rest => phaseAfter dialect next (step dialect phase c (rest.head?.or next)).2 rest

theorem phaseAfter_cons (phase : Phase) (c : Char) (rest : List Char) :
    phaseAfter dialect none phase (c :: rest) = phaseAfter dialect none (step dialect phase c rest.head?).2 rest := by
  rw [phaseAfter, Option.or_none]

theorem phaseAfter_plain {next : Option Char} (plain : Plain next) (phase : Phase) (text : List Char) :
    phaseAfter dialect next phase text = phaseAfter dialect none phase text := by
  induction text generalizing phase with
  | nil => rfl
  | cons c rest ih => rw [phaseAfter, phaseAfter_cons, step_ahead plain, ih]

theorem phase_of_advance {next : Option Char} {depth reached : Nat} {phase after : Phase} {text : List Char}
    (advances : advance dialect next depth phase text = some (reached, after)) :
    after = phaseAfter dialect next phase text := by
  induction text generalizing depth phase with
  | nil =>
    cases advances
    rfl
  | cons c rest ih =>
    simp only [advance] at advances
    split at advances
    · exact ih advances
    · split at advances
      · cases depth with
        | zero => cases advances
        | succ outer => exact ih advances
      · exact ih advances

/-- The words that one more character completes, and the word under way after it. -/
def wordStep (letter : Bool) (offset : Nat) (c : Char) :
    Option (Nat × List Char) → List (Nat × List Char) × Option (Nat × List Char)
  | none => ([], if letter then some (offset, [c]) else none)
  | some (start, word) => if letter then ([], some (start, c :: word)) else ([(start, word.reverse)], none)

theorem wordsIn_cons (current : Option (Nat × List Char)) (mark : Mark) (rest : List Mark) :
    wordsIn current (mark :: rest) =
      let (words, later) := wordStep (mark.isNormal && isWordChar mark.char) mark.offset mark.char current
      words ++ wordsIn later rest := by
  cases letter : mark.isNormal && isWordChar mark.char <;> cases current <;> simp [wordsIn, wordStep, letter]

theorem wordsIn_marksFrom_cons (current : Option (Nat × List Char)) (phase : Phase) (offset : Nat) (c : Char)
    (rest : List Char) :
    wordsIn current (marksFrom dialect phase offset (c :: rest)) =
      let (state, after) := step dialect phase c rest.head?
      let (words, later) := wordStep (state == .normal && isWordChar c) offset c current
      words ++ wordsIn later (marksFrom dialect after (offset + c.utf8Size) rest) :=
  wordsIn_cons ..

theorem under_way_of_mem_wordStep {letter : Bool} {offset : Nat} {c : Char} {current : Option (Nat × List Char)}
    {found : Nat × List Char} (member : found ∈ (wordStep letter offset c current).1) :
    ∃ letters, current = some (found.1, letters) := by
  cases current with
  | none => cases member
  | some word =>
    cases letter with
    | true => cases member
    | false =>
      obtain rfl := List.mem_singleton.1 member
      exact ⟨word.2, rfl⟩

/-- The word under way after a character was under way before it or starts with it. -/
theorem under_way_or_starts {letter : Bool} {offset start : Nat} {c : Char} {current : Option (Nat × List Char)}
    {letters : List Char} (later : (wordStep letter offset c current).2 = some (start, letters)) :
    (∃ letters, current = some (start, letters)) ∨ current = none ∧ letter = true ∧ start = offset := by
  cases letter with
  | true =>
    cases current with
    | none =>
      cases later
      exact .inr ⟨rfl, rfl, rfl⟩
    | some word =>
      cases later
      exact .inl ⟨word.2, rfl⟩
  | false => cases current <;> cases later

/-- The place where a word starts: the scan is in normal phase there, and whatever is written from
there on, its words come after the earlier ones. -/
structure WordStart (dialect : Dialect) (current : Option (Nat × List Char)) (phase : Phase) (offset : Nat)
    (before after : List Char) : Prop where
  plain : Plain after.head?
  normal : phaseAfter dialect after.head? phase before = .normal
  words : ∀ other, Plain other.head? → ∃ earlier,
    wordsIn current (marksFrom dialect phase offset (before ++ other)) =
      earlier ++ wordsIn none (marksFrom dialect .normal (offset + byteLength before) other)

private theorem plain_of_isWordChar {c : Char} (letter : isWordChar c = true) : Plain (some c) := by
  refine .of_ne ?_ ?_ <;> (rintro rfl; revert letter; decide)

/-- A start further on is a start here, as the step over a character looks no further than a start. -/
private theorem WordStart.cons {current : Option (Nat × List Char)} {phase : Phase} {offset : Nat} {c : Char}
    {before after : List Char}
    (start : WordStart dialect
      (wordStep ((step dialect phase c (before ++ after).head?).1 == .normal && isWordChar c) offset c current).2
      (step dialect phase c (before ++ after).head?).2 (offset + c.utf8Size) before after) :
    WordStart dialect current phase offset (c :: before) after := by
  refine ⟨start.plain, ?_, ?_⟩
  · rw [phaseAfter, ← List.head?_append]
    exact start.normal
  · intro other plain
    have ahead : step dialect phase c (before ++ after).head? = step dialect phase c (before ++ other).head? := by
      cases before with
      | nil => exact step_plain start.plain plain c
      | cons => rfl
    obtain ⟨between, words⟩ := start.words other plain
    refine ⟨(wordStep ((step dialect phase c (before ++ after).head?).1 == .normal && isWordChar c) offset c current).1 ++
      between, ?_⟩
    rw [List.cons_append, wordsIn_marksFrom_cons, ← ahead]
    simp only [words, byteLength, List.append_assoc, Nat.add_assoc]

/-- A word of a scan is the one that was under way, or it starts somewhere in the text. -/
theorem exists_of_mem_wordsIn {current : Option (Nat × List Char)} {phase : Phase} {offset : Nat} {text : List Char}
    {found : Nat × List Char} (member : found ∈ wordsIn current (marksFrom dialect phase offset text)) :
    (∃ letters, current = some (found.1, letters)) ∨
      ∃ before after, text = before ++ after ∧ found.1 = offset + byteLength before ∧
        WordStart dialect current phase offset before after := by
  induction text generalizing current phase offset with
  | nil =>
    cases current with
    | none => cases member
    | some word =>
      obtain rfl := List.mem_singleton.1 member
      exact .inl ⟨word.2, rfl⟩
  | cons c rest ih =>
    rw [wordsIn_marksFrom_cons] at member
    rcases List.mem_append.1 member with completed | later
    · exact .inl (under_way_of_mem_wordStep completed)
    rcases ih later with ⟨letters, same⟩ | ⟨before, after, rfl, position, start⟩
    · rcases under_way_or_starts same with earlier | ⟨rfl, letter, position⟩
      · exact .inl earlier
      · rw [Bool.and_eq_true, beq_iff_eq] at letter
        obtain ⟨rfl, -⟩ := phase_of_step_normal (Prod.ext letter.1 rfl)
        exact .inr ⟨[], c :: rest, rfl, position, plain_of_isWordChar letter.2, rfl, fun other _ => ⟨[], rfl⟩⟩
    · exact .inr ⟨c :: before, after, rfl, by rw [position, byteLength, Nat.add_assoc], start.cons⟩

end SymbolCache.Lexical

namespace SymbolCache.Legacy
open Lexical
open Text (byteLength)

/-- The documentation as it is written at the end of a code section. -/
def trailer (documentation : List Char) : List Char :=
  "BEGIN\n    \x7b".toList ++ documentation ++ "\x7d\n    END.\n  ".toList

private def gap : List Char := ['\n', ' ', ' ', ' ', ' ']

private def ending : List Char := ['\n', ' ', ' ', ' ', ' ', 'E', 'N', 'D', '.', '\n', ' ', ' ']

private theorem trailer_eq (documentation : List Char) :
    trailer documentation = ['B', 'E', 'G', 'I', 'N'] ++ (gap ++ '{' :: (documentation ++ '}' :: ending)) := by
  have flat : trailer documentation =
      ['B', 'E', 'G', 'I', 'N'] ++ gap ++ ['{'] ++ documentation ++ '}' :: ending := rfl
  rw [flat]
  simp only [List.append_assoc, List.cons_append, List.nil_append]

/-- Braces in code enclose comments, so none of them is ever open. -/
private theorem depth_of_advance_code {next : Option Char} {depth reached : Nat} {phase after : Phase} {text : List Char}
    (advances : advance .legacyCode next depth phase text = some (reached, after)) : reached ≤ depth := by
  induction text generalizing depth phase with
  | nil =>
    cases advances
    exact Nat.le_refl _
  | cons c rest ih =>
    simp only [advance] at advances
    split at advances
    · rename_i opens
      rw [Bool.and_eq_true, beq_iff_eq, beq_iff_eq] at opens
      obtain ⟨normal, rfl⟩ := opens
      obtain ⟨rfl, -⟩ := phase_of_step_normal (Prod.ext normal rfl)
      cases normal
    · split at advances
      · cases depth with
        | zero => cases advances
        | succ outer => exact Nat.le_succ_of_le (ih advances)
      · exact ih advances

private theorem advance_comment {documentation : List Char} (absent : '}' ∉ documentation) (next : Option Char) :
    advance .legacyCode next 0 .blockComment documentation = some (0, .blockComment) := by
  induction documentation with
  | nil => rfl
  | cons c rest ih =>
    rw [List.mem_cons, not_or] at absent
    have stays : step .legacyCode .blockComment c (rest.head?.or next) = (.blockComment, .blockComment) := by
      simp [step, Dialect.legacyCode, Ne.symm absent.1]
    simp only [advance, stays]
    exact ih absent.2

private theorem wordsIn_comment {documentation : List Char} (absent : '}' ∉ documentation) (offset : Nat)
    (rest : List Char) : ∃ position,
      wordsIn none (marksFrom .legacyCode .blockComment offset (documentation ++ '}' :: rest)) =
        wordsIn none (marksFrom .legacyCode .normal position rest) := by
  induction documentation generalizing offset with
  | nil => exact ⟨_, rfl⟩
  | cons c documentation ih =>
    rw [List.mem_cons, not_or] at absent
    have stays (next : Option Char) : step .legacyCode .blockComment c next = (.blockComment, .blockComment) := by
      simp [step, Dialect.legacyCode, Ne.symm absent.1]
    obtain ⟨position, words⟩ := ih absent.2 (offset + c.utf8Size)
    refine ⟨position, ?_⟩
    rw [List.cons_append, wordsIn_marksFrom_cons, stays]
    exact words

private theorem encloses_trailer {code documentation : List Char} (absent : '}' ∉ documentation)
    (advances : advance .legacyCode (some 'B') 0 .normal code = some (0, .normal)) :
    Encloses .legacyCode (code ++ trailer documentation) := by
  have begins (rest : List Char) : advance .legacyCode (some '}') 0 .normal (['B', 'E', 'G', 'I', 'N'] ++ (gap ++ '{' :: rest)) =
      advance .legacyCode (some '}') 0 .blockComment rest := rfl
  have ends : advance .legacyCode (some '}') 0 .blockComment ('}' :: ending) = some (0, .normal) := rfl
  have first : (trailer documentation).head?.or (some '}') = some 'B' := by
    rw [trailer_eq]
    rfl
  unfold Encloses
  rw [advance_append, first, advances, Option.bind_some, trailer_eq, begins, advance_append, advance_comment absent,
    Option.bind_some, ends]

private theorem wordsIn_trailer {documentation : List Char} (absent : '}' ∉ documentation) (offset : Nat) :
    ∃ position, wordsIn none (marksFrom .legacyCode .normal offset (trailer documentation)) =
      [(offset, ['B', 'E', 'G', 'I', 'N']), (position, ['E', 'N', 'D'])] := by
  have begins (rest : List Char) : ∃ position,
      wordsIn none (marksFrom .legacyCode .normal offset (['B', 'E', 'G', 'I', 'N'] ++ (gap ++ '{' :: rest))) =
        (offset, ['B', 'E', 'G', 'I', 'N']) :: wordsIn none (marksFrom .legacyCode .blockComment position rest) :=
    ⟨_, rfl⟩
  have ends (start : Nat) : ∃ position,
      wordsIn none (marksFrom .legacyCode .normal start ending) = [(position, ['E', 'N', 'D'])] := ⟨_, rfl⟩
  rw [trailer_eq]
  obtain ⟨inside, beginning⟩ := begins (documentation ++ '}' :: ending)
  obtain ⟨outside, comment⟩ := wordsIn_comment absent inside ending
  obtain ⟨position, ended⟩ := ends outside
  exact ⟨position, by rw [beginning, comment, ended]⟩

def CodeEnd (code : List Char) : Prop :=
  advance .legacyCode (some 'B') 0 .normal code = some (0, .normal) ∧
    ∀ other, Plain other.head? → ∃ earlier, wordsIn none (marks .legacyCode (code ++ other)) =
      earlier ++ wordsIn none (marksFrom .legacyCode .normal (byteLength code) other)

private theorem codeEnd_of_mem_keywordPositions {inner : List Char} {keyword : List Char} {position : Nat}
    (encloses : Encloses .legacyCode inner) (member : position ∈ keywordPositions .legacyCode keyword inner) :
    CodeEnd (Text.slice inner 0 position) := by
  obtain ⟨found, chosen, rfl⟩ := List.mem_map.1 member
  rcases exists_of_mem_wordsIn (List.mem_filter.1 chosen).1 with ⟨letters, none⟩ | ⟨before, after, rfl, place, start⟩
  · cases none
  · rw [Nat.zero_add] at place
    rw [place, Text.slice_start]
    constructor
    · unfold Encloses at encloses
      rw [advance_append] at encloses
      obtain ⟨⟨depth, phase⟩, advances, -⟩ := Option.bind_eq_some_iff.1 encloses
      have plain : Plain (after.head?.or (some '}')) := by
        cases after with
        | nil => exact .of_ne (by decide) (by decide)
        | cons => exact start.plain
      rw [advance_plain plain start.plain] at advances
      have normal : phase = .normal := (phase_of_advance advances).trans start.normal
      have closed : depth = 0 := Nat.le_zero.1 (depth_of_advance_code advances)
      rw [advance_plain (.of_ne (by decide) (by decide)) start.plain, advances, normal, closed]
    · intro other plain
      obtain ⟨earlier, words⟩ := start.words other plain
      rw [Nat.zero_add] at words
      exact ⟨earlier, words⟩

private theorem exists_of_splitCode {inner code documentation : List Char}
    (splits : splitCode inner = (code, some documentation)) :
    '}' ∉ documentation ∧ ∃ position ∈ keywordPositions .legacyCode "BEGIN".toList inner,
      code = Text.slice inner 0 position := by
  simp only [splitCode] at splits
  split at splits
  · rename_i found
    cases splits
    simp only [Option.bind_eq_bind, Option.bind_eq_some_iff] at found
    obtain ⟨position, last, rest, -, body, -, ⟨text, after⟩, cut, whole⟩ := found
    split at whole
    · cases whole
      exact ⟨Text.not_mem_of_cutAt? cut, position, List.mem_of_getLast? last, rfl⟩
    · cases whole
  · cases splits

private theorem code_of_splitCode {inner code : List Char} (splits : splitCode inner = (code, none)) : code = inner := by
  simp only [splitCode] at splits
  split at splits
  · cases splits
  · cases splits
    rfl

private theorem getLast?_keywordPositions_trailer {code documentation : List Char} (ends : CodeEnd code)
    (absent : '}' ∉ documentation) :
    (keywordPositions .legacyCode "BEGIN".toList (code ++ trailer documentation)).getLast? = some (byteLength code) := by
  have plain : Plain (trailer documentation).head? := by
    rw [trailer_eq]
    exact .of_ne (by decide) (by decide)
  obtain ⟨earlier, words⟩ := ends.2 (trailer documentation) plain
  obtain ⟨position, trailing⟩ := wordsIn_trailer absent (byteLength code)
  -- Of the two words behind the code only the first is the keyword, whatever stands before them.
  rw [keywordPositions, words, trailing, List.filter_append, List.map_append, List.getLast?_append]
  rfl

/-- Code with its documentation written after it is divided at the same place. -/
private theorem splitCode_trailer {code documentation : List Char} (ends : CodeEnd code) (absent : '}' ∉ documentation) :
    splitCode (code ++ trailer documentation) = (code, some documentation) := by
  have rest : Text.dropBytes (byteLength code + 5) (code ++ trailer documentation) =
      some (gap ++ '{' :: (documentation ++ '}' :: ending)) := by
    have dropped := Text.dropBytes_byteLength (code ++ ['B', 'E', 'G', 'I', 'N'])
      (gap ++ '{' :: (documentation ++ '}' :: ending))
    rw [Text.byteLength_append, List.append_assoc, ← trailer_eq] at dropped
    exact dropped
  have body : Text.trimStart (gap ++ '{' :: (documentation ++ '}' :: ending)) = '{' :: (documentation ++ '}' :: ending) :=
    Text.trimStart_run (List.all_eq_true.1 rfl) (.cons (by decide) _)
  have opens : Text.expect? '{' ('{' :: (documentation ++ '}' :: ending)) = some (documentation ++ '}' :: ending) := rfl
  have closes : startsWithWord "END".toList (Text.trimStart ending) = true := rfl
  simp only [splitCode, getLast?_keywordPositions_trailer ends absent, Option.bind_eq_bind, Option.bind_some, rest, body,
    opens, Text.cutAt?_append absent, closes, if_true, Text.slice_start]
  rfl

/-- The text of a code section as it is written. -/
def codeText (code : List Char) : Option (List Char) → List Char
  | some documentation => code ++ trailer documentation
  | none => code

/-- A code section that is written back is divided as before. -/
theorem splitCode_codeText {inner code : List Char} {documentation : Option (List Char)}
    (encloses : Encloses .legacyCode inner) (splits : splitCode inner = (code, documentation)) :
    Encloses .legacyCode (codeText code documentation) ∧
      splitCode (codeText code documentation) = (code, documentation) := by
  cases documentation with
  | none =>
    rw [codeText, code_of_splitCode splits]
    exact ⟨encloses, by rw [splits, code_of_splitCode splits]⟩
  | some documentation =>
    obtain ⟨absent, position, member, rfl⟩ := exists_of_splitCode splits
    have ends := codeEnd_of_mem_keywordPositions encloses member
    exact ⟨encloses_trailer absent ends.1, splitCode_trailer ends absent⟩

end SymbolCache.Legacy
