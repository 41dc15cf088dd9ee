import SymbolCache.Legacy.Printer
import SymbolCache.Proofs.Enclosure

/-! The sections of an object: what reading says about each of them and about the text it leaves
unread, and that sections written from such parts are read as they are. -/

namespace SymbolCache.Legacy
open Lexical
open Text (byteLength Stops)

/-- A text at which reading goes on: neither at its end nor at the closing brace of the object. -/
structure Continues (rest : List Char) : Prop where
  present : rest ≠ []
  stops : Stops Text.isBlank rest
  noBrace : rest.head? ≠ some '}'

/-- No keyword with a brace after it stands here. -/
def Unopened (rest : List Char) : Prop :=
  rest.takeWhile isKeywordChar = [] ∨ ∀ body, Text.trimStart (rest.dropWhile isKeywordChar) ≠ '{' :: body

theorem readSections_of_end {text : List Char} (ends : (Text.trimStart text).isEmpty || (Text.trimStart text).head? == some '}') :
    readSections text = ⟨[], [], none⟩ := by
  rw [readSections]
  exact if_pos ends

private theorem not_end {rest : List Char} (continues : Continues rest) :
    ¬ (rest.isEmpty || rest.head? == some '}') = true := by
  simp [continues.present, continues.noBrace]

theorem readSections_of_unopened {text rest : List Char} (start : Text.trimStart text = rest) (continues : Continues rest)
    (unopened : Unopened rest) : readSections text = ⟨[], [], some (String.ofList (Text.trimEnd rest))⟩ := by
  subst start
  rw [readSections]
  dsimp only
  rw [if_neg (not_end continues)]
  split
  · rename_i body opens
    rcases unopened with noKeyword | noBrace
    · rw [if_pos (by rw [noKeyword]; rfl)]
    · exact absurd opens (noBrace body)
  · rfl

theorem readSections_of_unclosed {text rest body : List Char} (start : Text.trimStart text = rest) (continues : Continues rest)
    (keyword : rest.takeWhile isKeywordChar ≠ []) (opens : Text.trimStart (rest.dropWhile isKeywordChar) = '{' :: body)
    (unclosed : closingBrace? 0 (marksFrom (sectionDialect (rest.takeWhile isKeywordChar)) .normal 0 body) = none) :
    readSections text =
      ⟨[], [String.ofList (rest.takeWhile isKeywordChar)], some (String.ofList (Text.trimEnd rest))⟩ := by
  subst start
  rw [readSections]
  dsimp only
  rw [if_neg (not_end continues)]
  split
  · rename_i other opens'
    rw [opens] at opens'
    cases opens'
    rw [if_neg (by simpa using keyword)]
    split
    · rename_i close closes
      rw [unclosed] at closes
      cases closes
    · rfl
  · rename_i none
    exact absurd opens (none body)

theorem readSections_of_closed {text rest body : List Char} {close : Mark} (start : Text.trimStart text = rest)
    (continues : Continues rest) (keyword : rest.takeWhile isKeywordChar ≠ [])
    (opens : Text.trimStart (rest.dropWhile isKeywordChar) = '{' :: body)
    (closes : closingBrace? 0 (marksFrom (sectionDialect (rest.takeWhile isKeywordChar)) .normal 0 body) = some close) :
    readSections text = { readSections close.rest with
      sections := ⟨String.ofList (rest.takeWhile isKeywordChar), String.ofList (Text.slice body 0 close.offset)⟩ ::
        (readSections close.rest).sections } := by
  subst start
  rw [readSections]
  dsimp only
  rw [if_neg (not_end continues)]
  split
  · rename_i other opens'
    rw [opens] at opens'
    cases opens'
    rw [if_neg (by simpa using keyword)]
    split
    · rename_i found closes'
      rw [closes] at closes'
      cases closes'
      rfl
    · rename_i unclosed
      rw [unclosed] at closes
      cases closes
  · rename_i none
    exact absurd opens (none body)

theorem isKeywordChar_of_isBlank {c : Char} (blank : Text.isBlank c = true) : isKeywordChar c = false := by
  have dash : c ≠ '-' := by
    intro same
    rw [same] at blank
    exact absurd blank (by decide)
  have underscore : c ≠ '_' := by
    intro same
    rw [same] at blank
    exact absurd blank (by decide)
  have noLetter : c.isAlphanum = false := by
    cases letter : c.isAlphanum with
    | false => rfl
    | true =>
      have ranges : ((decide (c.val ≥ 'A'.val ∧ c.val ≤ 'Z'.val) || (c.val ≥ 'a'.val && c.val ≤ 'z'.val)) ||
          (c.val ≥ '0'.val && c.val ≤ '9'.val)) = true := letter
      simp only [Bool.or_eq_true, Bool.and_eq_true, decide_eq_true_eq, ge_iff_le, UInt32.le_iff_toNat_le] at ranges
      simp only [Text.isBlank, Char.toNat, Bool.or_eq_true, Bool.and_eq_true, decide_eq_true_eq, beq_iff_eq] at blank
      have codes : 'A'.val.toNat = 65 ∧ 'Z'.val.toNat = 90 ∧ 'a'.val.toNat = 97 ∧ 'z'.val.toNat = 122 ∧
        '0'.val.toNat = 48 ∧ '9'.val.toNat = 57 := ⟨rfl, rfl, rfl, rfl, rfl, rfl⟩
      omega
  simp [isKeywordChar, noLetter, dash, underscore]

theorem blank_newline : ∀ c ∈ ['\n'], Text.isBlank c = true := List.all_eq_true.1 rfl

private theorem stops_of_blank {ending : List Char} (blank : ∀ c ∈ ending, Text.isBlank c = true) :
    Stops isKeywordChar ending := by
  intro c first
  exact isKeywordChar_of_isBlank (blank c (List.mem_of_head? first))

private theorem plain_of_blank {ending : List Char} (blank : ∀ c ∈ ending, Text.isBlank c = true) : Plain ending.head? := by
  cases ending with
  | nil => exact .none
  | cons c rest =>
    have first := blank c (List.mem_cons_self ..)
    refine .of_ne ?_ ?_
    · intro same
      rw [same] at first
      exact absurd first (by decide)
    · intro same
      rw [same] at first
      exact absurd first (by decide)

private theorem trimStart_append {text ending : List Char} {c : Char} {body : List Char}
    (trimmed : Text.trimStart text = c :: body) : Text.trimStart (text ++ ending) = c :: (body ++ ending) := by
  obtain ⟨run, whole, blank⟩ := Text.exists_trimStart text
  have stops : Stops Text.isBlank (c :: (body ++ ending)) := .cons (Stops.dropWhile Text.isBlank text c (by
    rw [show text.dropWhile Text.isBlank = c :: body from trimmed]
    rfl)) _
  rw [whole, trimmed, List.append_assoc]
  exact Text.trimStart_run blank stops

private theorem exists_of_trimStart_append {text ending : List Char} (blank : ∀ c ∈ ending, Text.isBlank c = true)
    {c : Char} {body : List Char} (trimmed : Text.trimStart (text ++ ending) = c :: body) :
    ∃ inner, Text.trimStart text = c :: inner ∧ body = inner ++ ending := by
  cases start : Text.trimStart text with
  | nil =>
    obtain ⟨run, whole, runBlank⟩ := Text.exists_trimStart text
    rw [start, List.append_nil] at whole
    have allBlank : ∀ c ∈ text ++ ending, Text.isBlank c = true := by
      intro c inside
      rcases List.mem_append.1 inside with inText | inEnding
      · exact runBlank c (whole ▸ inText)
      · exact blank c inEnding
    have none := Text.trimStart_run allBlank (.nil Text.isBlank)
    rw [List.append_nil, trimmed] at none
    cases none
  | cons first inner =>
    rw [trimStart_append start] at trimmed
    cases trimmed
    exact ⟨inner, rfl, rfl⟩

private theorem Unopened.congr {text first second : List Char} (unopened : Unopened (text ++ first))
    (blank : ∀ c ∈ first, Text.isBlank c = true) (blankSecond : ∀ c ∈ second, Text.isBlank c = true) :
    Unopened (text ++ second) := by
  unfold Unopened at unopened ⊢
  rw [Text.takeWhile_append_stops (stops_of_blank blank), Text.dropWhile_append_stops (stops_of_blank blank)] at unopened
  rw [Text.takeWhile_append_stops (stops_of_blank blankSecond), Text.dropWhile_append_stops (stops_of_blank blankSecond)]
  refine unopened.imp_right ?_
  intro noBrace body opens
  obtain ⟨inner, trimmed, -⟩ := exists_of_trimStart_append blankSecond opens
  exact noBrace _ (trimStart_append trimmed)

def tailText : Option String → List Char
  | some tail => tail.toList ++ ['\n']
  | none => "\x7d\n".toList

/-- The end of an object that reads the same wherever it is written. -/
def StableTail (malformed : List String) (unread : Option String) : Prop :=
  ∀ gap : List Char, (∀ c ∈ gap, Text.isBlank c = true) →
    readSections (gap ++ tailText unread) = ⟨[], malformed, unread⟩

theorem stableTail_none : StableTail [] none := by
  intro gap blank
  have brace : Text.trimStart (gap ++ '}' :: ['\n']) = '}' :: ['\n'] :=
    Text.trimStart_run blank (.cons (by decide) _)
  have literal : gap ++ tailText none = gap ++ '}' :: ['\n'] := rfl
  rw [literal]
  exact readSections_of_end (by rw [brace]; rfl)

/-- The visible part of a text that goes on, with the blanks after it. -/
private theorem exists_tail {rest : List Char} (continues : Continues rest) :
    ∃ ending, rest = Text.trimEnd rest ++ ending ∧ (∀ c ∈ ending, Text.isBlank c = true) ∧
      ∀ gap other, (∀ c ∈ gap, Text.isBlank c = true) →
        Text.trimStart (gap ++ (Text.trimEnd rest ++ other)) = Text.trimEnd rest ++ other ∧
        Continues (Text.trimEnd rest ++ other) := by
  obtain ⟨ending, whole, blank⟩ := Text.exists_dropEndWhile Text.isBlank rest
  have present := Text.trimEnd_ne_nil continues.stops continues.present
  have stops : Stops Text.isBlank (Text.trimEnd rest) := continues.stops.dropEndWhile
  refine ⟨ending, whole, blank, ?_⟩
  intro gap other gapBlank
  refine ⟨Text.trimStart_run gapBlank (stops.append present other), ?_, stops.append present other, ?_⟩
  · simp [present]
  · have first := continues.noBrace
    rw [whole] at first
    cases visible : Text.trimEnd rest with
    | nil => exact absurd visible present
    | cons c tail =>
      rw [show Text.dropEndWhile Text.isBlank rest = c :: tail from visible] at first
      exact first

private theorem trimEnd_newline (rest : List Char) : Text.trimEnd (Text.trimEnd rest ++ ['\n']) = Text.trimEnd rest := by
  rw [Text.trimEnd, Text.dropEndWhile_run blank_newline]
  exact Text.dropEndWhile_ends (Text.ends_dropEndWhile Text.isBlank rest)

private theorem stableTail_of_unopened {rest : List Char} (continues : Continues rest) (unopened : Unopened rest) :
    StableTail [] (some (String.ofList (Text.trimEnd rest))) := by
  obtain ⟨ending, whole, blank, printed⟩ := exists_tail continues
  intro gap gapBlank
  obtain ⟨start, goesOn⟩ := printed gap ['\n'] gapBlank
  have again : Unopened (Text.trimEnd rest ++ ['\n']) := (whole ▸ unopened : Unopened _).congr blank blank_newline
  have reads := readSections_of_unopened start goesOn again
  rw [trimEnd_newline] at reads
  rw [tailText, String.toList_ofList]
  exact reads

private theorem stableTail_of_unclosed {rest body : List Char} (continues : Continues rest)
    (keyword : rest.takeWhile isKeywordChar ≠ []) (opens : Text.trimStart (rest.dropWhile isKeywordChar) = '{' :: body)
    (unclosed : closingBrace? 0 (marksFrom (sectionDialect (rest.takeWhile isKeywordChar)) .normal 0 body) = none) :
    StableTail [String.ofList (rest.takeWhile isKeywordChar)] (some (String.ofList (Text.trimEnd rest))) := by
  obtain ⟨ending, whole, blank, printed⟩ := exists_tail continues
  intro gap gapBlank
  obtain ⟨start, goesOn⟩ := printed gap ['\n'] gapBlank
  have sameKeyword : (Text.trimEnd rest ++ ['\n']).takeWhile isKeywordChar = rest.takeWhile isKeywordChar := by
    rw [Text.takeWhile_append_stops (stops_of_blank blank_newline)]
    conv => rhs; rw [whole, Text.takeWhile_append_stops (stops_of_blank blank)]
  rw [whole, Text.dropWhile_append_stops (stops_of_blank blank)] at opens
  obtain ⟨inner, trimmed, rfl⟩ := exists_of_trimStart_append blank opens
  have opensAgain : Text.trimStart ((Text.trimEnd rest ++ ['\n']).dropWhile isKeywordChar) = '{' :: (inner ++ ['\n']) := by
    rw [Text.dropWhile_append_stops (stops_of_blank blank_newline), trimStart_append trimmed]
  have unclosedAgain := closingBrace?_eq_none_congr unclosed (by decide : '}' ∉ ['\n']) (plain_of_blank blank)
    (plain_of_blank blank_newline)
  rw [← sameKeyword] at keyword unclosedAgain
  have reads := readSections_of_unclosed start goesOn keyword opensAgain unclosedAgain
  rw [trimEnd_newline, sameKeyword] at reads
  rw [tailText, String.toList_ofList]
  exact reads

/-- A section that can be written: a keyword and a text that its braces enclose. -/
structure Section.Closed (part : Section) : Prop where
  present : part.keyword.toList ≠ []
  letters : ∀ c ∈ part.keyword.toList, isKeywordChar c = true
  encloses : Encloses (sectionDialect part.keyword.toList) part.inner.toList

private theorem continues_of_not_end {text : List Char}
    (more : ¬ ((Text.trimStart text).isEmpty || (Text.trimStart text).head? == some '}') = true) :
    Continues (Text.trimStart text) := by
  rw [Bool.or_eq_true, not_or, List.isEmpty_iff, beq_iff_eq] at more
  exact ⟨more.1, .dropWhile Text.isBlank text, more.2⟩

/-- Every section that was read can be written, and so can the rest. -/
theorem readSections_writable (text : List Char) : (∀ part ∈ (readSections text).sections, part.Closed) ∧
    StableTail (readSections text).malformed (readSections text).unread := by
  fun_induction readSections text with
  | case1 text rest ends => exact ⟨nofun, stableTail_none⟩
  | case2 text rest more unread keyword body opens empty =>
    have unopened : Unopened rest := .inl (List.isEmpty_iff.1 empty)
    exact ⟨nofun, stableTail_of_unopened (continues_of_not_end more) unopened⟩
  | case3 text rest more keyword body opens present close closes later ih =>
    obtain ⟨closed, tail⟩ := ih
    obtain ⟨inner, split, position, encloses⟩ := exists_of_closingBrace? closes
    have between : Text.slice body 0 close.offset = inner := by
      rw [split, position, Nat.zero_add, Text.slice_start]
    refine ⟨?_, tail⟩
    intro part member
    rcases List.mem_cons.1 member with rfl | inside
    · refine ⟨?_, ?_, ?_⟩
      · simpa using present
      · simpa using List.all_eq_true.1 (List.all_takeWhile (p := isKeywordChar) (l := rest))
      · rw [String.toList_ofList, String.toList_ofList, between]
        exact encloses
    · exact closed part inside
  | case4 text rest more unread keyword body opens present unclosed =>
    exact ⟨nofun, stableTail_of_unclosed (continues_of_not_end more) (fun empty => present (List.isEmpty_iff.2 empty)) opens unclosed⟩
  | case5 text rest more unread noBrace =>
    exact ⟨nofun, stableTail_of_unopened (continues_of_not_end more) (.inr noBrace)⟩

private theorem quotes_sectionDialect (keyword : List Char) : '}' ∉ (sectionDialect keyword).quotes := by
  unfold sectionDialect
  split <;> decide

private theorem continues_keyword {keyword : List Char} (present : keyword ≠ [])
    (letters : ∀ c ∈ keyword, isKeywordChar c = true) (rest : List Char) : Continues (keyword ++ rest) := by
  cases keyword with
  | nil => exact absurd rfl present
  | cons c keyword =>
    have letter := letters c (List.mem_cons_self ..)
    have visible : Text.isBlank c = false := by
      cases blank : Text.isBlank c with
      | false => rfl
      | true =>
        rw [isKeywordChar_of_isBlank blank] at letter
        cases letter
    refine ⟨by simp, .cons visible _, ?_⟩
    intro brace
    cases brace
    exact absurd letter (by decide)

def Section.text (part : Section) : List Char :=
  ' ' :: ' ' :: (part.keyword.toList ++ ('\n' :: ' ' :: ' ' :: '{' :: (part.inner.toList ++ '}' :: ['\n'])))

/-- Sections are read as they were written, up to the end of the object. -/
theorem readSections_text {parts : List Section} (closed : ∀ part ∈ parts, part.Closed) {malformed : List String}
    {unread : Option String} (tail : StableTail malformed unread) {gap : List Char}
    (blank : ∀ c ∈ gap, Text.isBlank c = true) :
    readSections (gap ++ (parts.flatMap Section.text ++ tailText unread)) = ⟨parts, malformed, unread⟩ := by
  induction parts generalizing gap with
  | nil => exact tail gap blank
  | cons part parts ih =>
    obtain ⟨present, letters, encloses⟩ := closed part (List.mem_cons_self ..)
    have later := ih (fun other inside => closed other (List.mem_cons_of_mem _ inside)) blank_newline
    generalize rest : parts.flatMap Section.text ++ tailText unread = following at later
    have shape : gap ++ ((part :: parts).flatMap Section.text ++ tailText unread) = (gap ++ [' ', ' ']) ++
        (part.keyword.toList ++ (['\n', ' ', ' '] ++ '{' :: (part.inner.toList ++ '}' :: (['\n'] ++ following)))) := by
      rw [List.flatMap_cons, List.append_assoc, rest]
      simp [Section.text]
    have spaces : ∀ c ∈ gap ++ [' ', ' '], Text.isBlank c = true := by
      intro c inside
      rcases List.mem_append.1 inside with inGap | inSpaces
      · exact blank c inGap
      · exact List.all_eq_true.1 (show [' ', ' '].all Text.isBlank = true from rfl) c inSpaces
    have continues := continues_keyword present letters
      (['\n', ' ', ' '] ++ '{' :: (part.inner.toList ++ '}' :: (['\n'] ++ following)))
    have ended : Stops isKeywordChar (['\n', ' ', ' '] ++ '{' :: (part.inner.toList ++ '}' :: (['\n'] ++ following))) :=
      .cons (by decide) _
    have keyword := Text.takeWhile_run letters ended
    have opens : Text.trimStart ((part.keyword.toList ++ (['\n', ' ', ' '] ++ '{' :: (part.inner.toList ++ '}' ::
        (['\n'] ++ following)))).dropWhile isKeywordChar) = '{' :: (part.inner.toList ++ '}' :: (['\n'] ++ following)) := by
      rw [Text.dropWhile_run letters ended]
      exact Text.trimStart_run (List.all_eq_true.1 rfl) (.cons (by decide) _)
    have closes := closingBrace?_of_encloses (quotes_sectionDialect _) encloses 0 (['\n'] ++ following)
    rw [← keyword] at closes
    have reads := readSections_of_closed (Text.trimStart_run spaces continues.stops) continues
      (by rw [keyword]; exact present) opens closes
    rw [shape, reads, keyword, later, Nat.zero_add, Text.slice_start, String.ofList_toList, String.ofList_toList]

end SymbolCache.Legacy
