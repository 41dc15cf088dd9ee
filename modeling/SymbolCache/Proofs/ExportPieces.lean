import SymbolCache.Proofs.ExcludedDirectories
import SymbolCache.Proofs.LegacyHeader

/-! An export and the objects in it. A header takes up a line of its own, so no header appears or disappears where texts
that end with a line are written one after the other. The pieces of an export begin with its headers, and nothing from
the first header on is lost. -/

namespace SymbolCache.Legacy

open Text (Stops splitAt splitAt_append splitAt_ne_nil not_mem_of_mem_splitAt)

section Spelling

/-- At least one character, and all of a class. -/
structure IsRun (p : Char → Bool) (text : List Char) : Prop where
  present : text ≠ []
  all : ∀ c ∈ text, p c = true

/-- The text of a header: its word, a type, a number and a name that goes on to the end of the line, with blanks
between them. -/
inductive SpellsHeader : List Char → Prop where
  | intro {indent first type second digits third name trail : List Char}
      (indented : ∀ c ∈ indent, Text.isSpaceOrTab c = true) (firstGap : IsRun Text.isSpaceOrTab first)
      (letters : IsRun Char.isAlpha type) (secondGap : IsRun Text.isSpaceOrTab second)
      (number : IsRun Text.isDigit digits) (thirdGap : IsRun Text.isSpaceOrTab third)
      (named : name ≠ []) (unbroken : '\n' ∉ name) (trailing : ∀ c ∈ trail, isTrailing c = true) :
      SpellsHeader (indent ++ ("OBJECT".toList ++
        (first ++ (type ++ (second ++ (digits ++ (third ++ (name ++ trail))))))))

private theorem isRun_of_run? {p : Char → Bool} {text taken rest : List Char}
    (runs : Text.run? p text = some (taken, rest)) : text = taken ++ rest ∧ IsRun p taken :=
  (Text.exists_of_run? runs).imp_right fun found => ⟨found.1, found.2⟩

private theorem IsRun.run? {p q : Char → Bool} {taken next : List Char} (run : IsRun p taken) (following : IsRun q next)
    (other : ∀ c, q c = true → p c = false) (rest : List Char) :
    Text.run? p (taken ++ (next ++ rest)) = some (taken, next ++ rest) :=
  Text.run?_append run.present run.all (stops_append following.present following.all other rest)

/-- A blank and at least one more character are the rest of a header line. -/
theorem isSome_headerName?_iff {text : List Char} :
    (headerName? text).isSome = true ↔ ∃ c d rest, text = c :: d :: rest ∧ Text.isSpaceOrTab c = true := by
  rcases text with _ | ⟨c, _ | ⟨d, rest⟩⟩
  · simp [headerName?]
  · cases blank : Text.isSpaceOrTab c <;> simp [headerName?, blank]
  · cases blank : Text.isSpaceOrTab c with
    | false => simp [headerName?, blank]
    | true =>
      refine iff_of_true ?_ ⟨c, d, rest, rfl, blank⟩
      have gap : (c :: d :: rest).takeWhile Text.isSpaceOrTab = c :: (d :: rest).takeWhile Text.isSpaceOrTab :=
        List.takeWhile_cons_of_pos blank
      cases content : (c :: d :: rest).dropWhile Text.isSpaceOrTab with
      | cons first others => simp [headerName?, content, gap]
      | nil =>
        have whole : (c :: d :: rest).takeWhile Text.isSpaceOrTab = c :: d :: rest := by
          simpa [content] using List.takeWhile_append_dropWhile (p := Text.isSpaceOrTab) (l := c :: d :: rest)
        obtain ⟨last, other, more, reversed⟩ : ∃ last other more, (c :: d :: rest).reverse = last :: other :: more := by
          rcases found : (c :: d :: rest).reverse with _ | ⟨last, _ | ⟨other, more⟩⟩
          · simpa using congrArg List.length found
          · simpa using congrArg List.length found
          · exact ⟨last, other, more, rfl⟩
        simp only [headerName?, content, whole, reversed]
        rfl

theorem spellsHeader_of_isHeader {line : List Char} (unbroken : '\n' ∉ line) (heads : isHeader line = true) :
    SpellsHeader line := by
  obtain ⟨header, reads⟩ := Option.isSome_iff_exists.1 heads
  simp only [header?, Option.bind_eq_bind, Option.bind_eq_some_iff] at reads
  obtain ⟨afterWord, stripped, ⟨first, afterGap⟩, gap, ⟨type, afterType⟩, letters, ⟨second, afterSecond⟩, blanks,
    ⟨digits, afterDigits⟩, number, name, named, -⟩ := reads
  dsimp only at letters blanks number named
  obtain ⟨c, d, rest, tail, blank⟩ := isSome_headerName?_iff.1 (Option.isSome_iff_exists.2 ⟨name, named⟩)
  obtain ⟨firstSplit, firstGap⟩ := isRun_of_run? gap
  obtain ⟨typeSplit, typed⟩ := isRun_of_run? letters
  obtain ⟨secondSplit, secondGap⟩ := isRun_of_run? blanks
  obtain ⟨digitSplit, numbered⟩ := isRun_of_run? number
  have whole : line = line.takeWhile Text.isSpaceOrTab ++ ("OBJECT".toList ++
      (first ++ (type ++ (second ++ (digits ++ ([c] ++ (d :: rest ++ []))))))) := by
    rw [List.append_nil, List.singleton_append, ← tail, ← digitSplit, ← secondSplit, ← typeSplit, ← firstSplit,
      ← Text.stripStart?_eq_some_iff.1 stripped, List.takeWhile_append_dropWhile]
  have inside : d :: rest ⊆ line := by
    rw [whole]
    intro other member
    simp [List.mem_cons.1 member]
  rw [whole]
  exact .intro (List.all_eq_true.1 List.all_takeWhile) firstGap typed secondGap numbered
    ⟨by simp, List.forall_mem_singleton.2 blank⟩ (by simp) (fun member => unbroken (inside member))
    (List.forall_mem_nil _)

theorem isHeader_of_spellsHeader {line : List Char} (spelled : SpellsHeader line) : isHeader line = true := by
  cases spelled with
  | @intro indent first type second digits third name trail indented firstGap letters secondGap number thirdGap named _ _ =>
    have letterStops (c : Char) (letter : c.isAlpha = true) : Text.isSpaceOrTab c = false :=
      isSpaceOrTab_of (by decide) (by decide) letter
    have digitStops (c : Char) (digit : Text.isDigit c = true) : Text.isSpaceOrTab c = false :=
      isSpaceOrTab_of (by decide) (by decide) digit
    have blankStops {p : Char → Bool} (space : p ' ' = false) (tab : p '\t' = false) (c : Char)
        (blank : Text.isSpaceOrTab c = true) : p c = false := by
      rw [Text.isSpaceOrTab, Bool.or_eq_true, beq_iff_eq, beq_iff_eq] at blank
      rcases blank with rfl | rfl
      · exact space
      · exact tab
    have word : Stops Text.isSpaceOrTab ("OBJECT".toList ++
        (first ++ (type ++ (second ++ (digits ++ (third ++ (name ++ trail))))))) := .cons (by decide) _
    have gap := firstGap.run? letters letterStops (second ++ (digits ++ (third ++ (name ++ trail))))
    have typed := letters.run? secondGap (blankStops (by decide) (by decide)) (digits ++ (third ++ (name ++ trail)))
    have blanks := secondGap.run? number digitStops (third ++ (name ++ trail))
    have numbered := number.run? thirdGap (blankStops (by decide) (by decide)) (name ++ trail)
    have rest : (headerName? (third ++ (name ++ trail))).isSome = true := by
      obtain ⟨c, third, rfl⟩ := List.exists_cons_of_ne_nil thirdGap.present
      obtain ⟨d, rest, more⟩ := List.exists_cons_of_ne_nil (l := third ++ (name ++ trail)) (by simp [named])
      exact isSome_headerName?_iff.2 ⟨c, d, rest, by rw [List.cons_append, more], thirdGap.all c (List.mem_cons_self ..)⟩
    obtain ⟨found, named⟩ := Option.isSome_iff_exists.1 rest
    have stripped := Text.stripStart?_eq_some_iff.2
      (rfl : "OBJECT".toList ++ (first ++ (type ++ (second ++ (digits ++ (third ++ (name ++ trail)))))) = _)
    simp only [isHeader, header?, Text.dropWhile_run indented word, stripped, gap, typed, blanks, numbered, named,
      Option.bind_eq_bind, Option.bind_some, Option.pure_def, Option.isSome_some]

end Spelling

section Lines

/-- A header stands in a text right behind `before`, between line ends or the ends of the text. -/
def HeaderBehind (text before : List Char) : Prop :=
  ∃ found after, text = before ++ (found ++ after) ∧ (before = [] ∨ before.getLast? = some '\n') ∧
    SpellsHeader found ∧ (after = [] ∨ after.head? = some '\n')

/-- Lines with their line ends. -/
def endLines (lines : List (List Char)) : List Char := lines.flatMap (· ++ ['\n'])

theorem joinLines_append (front : List (List Char)) {back : List (List Char)} (present : back ≠ []) :
    joinLines (front ++ back) = endLines front ++ joinLines back := by
  induction front with
  | nil => rfl
  | cons line front ih =>
    obtain ⟨next, rest, shape⟩ := List.exists_cons_of_ne_nil (l := front ++ back) (by simp [present])
    rw [List.cons_append, joinLines, shape, List.intercalate_cons_cons, ← shape, ← joinLines, ih]
    simp [endLines]

theorem endLines_eq {lines : List (List Char)} (present : lines ≠ []) : endLines lines = joinLines lines ++ ['\n'] := by
  obtain ⟨front, last, rfl⟩ := (List.eq_nil_or_concat lines).resolve_left present
  rw [List.concat_eq_append, joinLines_append front (List.cons_ne_nil last [])]
  simp [endLines, joinLines]

theorem endLines_splitAt (text : List Char) : endLines (splitAt '\n' text) = text ++ ['\n'] := by
  rw [endLines_eq (splitAt_ne_nil '\n' text), joinLines, Text.intercalate_splitAt]

private theorem newline_not_mem {p : Char → Bool} {text : List Char} (other : p '\n' = false)
    (all : ∀ c ∈ text, p c = true) : '\n' ∉ text := by
  intro member
  rw [all _ member] at other
  cases other

theorem SpellsHeader.unbroken {found : List Char} (spelled : SpellsHeader found) : '\n' ∉ found := by
  cases spelled with
  | intro indented firstGap letters secondGap number thirdGap named unbroken trailing =>
    simp only [List.mem_append, not_or]
    exact ⟨newline_not_mem (by decide) indented, by decide, newline_not_mem (by decide) firstGap.all,
      newline_not_mem (by decide) letters.all, newline_not_mem (by decide) secondGap.all,
      newline_not_mem (by decide) number.all, newline_not_mem (by decide) thirdGap.all, unbroken,
      newline_not_mem (by decide) trailing⟩

/-- Headers are whole lines. -/
theorem headerBehind_iff {text before : List Char} : HeaderBehind text before ↔
    ∃ front line back, splitAt '\n' text = front ++ line :: back ∧ isHeader line = true ∧ endLines front = before := by
  constructor
  · rintro ⟨found, after, rfl, opens, spelled, closes⟩
    obtain ⟨back, first⟩ : ∃ back, splitAt '\n' (found ++ after) = found :: back := by
      rcases closes with rfl | next
      · exact ⟨[], by rw [List.append_nil, Text.splitAt_of_not_mem spelled.unbroken]⟩
      · obtain ⟨rest, rfl⟩ := List.head?_eq_some_iff.1 next
        exact ⟨_, by rw [splitAt_append, Text.splitAt_of_not_mem spelled.unbroken, List.singleton_append]⟩
    rcases opens with rfl | last
    · exact ⟨[], found, back, first, isHeader_of_spellsHeader spelled, rfl⟩
    · obtain ⟨lines, rfl⟩ := List.getLast?_eq_some_iff.1 last
      refine ⟨splitAt '\n' lines, found, back, ?_, isHeader_of_spellsHeader spelled, endLines_splitAt lines⟩
      rw [List.append_assoc, List.singleton_append, splitAt_append, first]
  · rintro ⟨front, line, back, split, heads, rfl⟩
    have member : line ∈ splitAt '\n' text := by simp [split]
    have whole : text = endLines front ++ joinLines (line :: back) := by
      rw [← joinLines_append front (List.cons_ne_nil line back), ← split, joinLines, Text.intercalate_splitAt]
    refine ⟨line, joinLines ([] :: back), ?_, ?_, spellsHeader_of_isHeader (not_mem_of_mem_splitAt member) heads, ?_⟩
    · rw [whole]
      cases back with
      | nil => simp [joinLines]
      | cons next back => simp [joinLines, List.intercalate_cons_cons]
    · rcases List.eq_nil_or_concat front with rfl | ⟨lines, last, rfl⟩
      · exact .inl rfl
      · exact .inr (by simp [endLines])
    · cases back with
      | nil => exact .inl rfl
      | cons next back => exact .inr (by simp [joinLines, List.intercalate_cons_cons])

/-- A text that begins with a header and has no other. -/
def HasOneHeader (text : List Char) : Prop := ∀ before, HeaderBehind text before ↔ before = []

/-- Lines that begin with a header and have no other. -/
structure IsGroup (group : List (List Char)) : Prop where
  begins : group.head?.any isHeader = true
  only : ∀ line ∈ group.tail, isHeader line = false

instance : DecidablePred IsGroup := fun group =>
  decidable_of_iff ((group.head?.any isHeader && group.tail.all fun line => !isHeader line) = true) (by
    rw [Bool.and_eq_true, List.all_eq_true]
    simp only [Bool.not_eq_true']
    exact ⟨fun group => ⟨group.1, group.2⟩, fun group => ⟨group.begins, group.only⟩⟩)

theorem IsGroup.exists_cons {group : List (List Char)} (one : IsGroup group) :
    ∃ line rest, group = line :: rest ∧ isHeader line = true ∧ ∀ other ∈ rest, isHeader other = false := by
  cases group with
  | nil => cases one.begins
  | cons line rest => exact ⟨line, rest, rfl, by simpa using one.begins, one.only⟩

theorem hasOneHeader_iff {text : List Char} : HasOneHeader text ↔ IsGroup (splitAt '\n' text) := by
  constructor
  · intro one
    obtain ⟨front, line, back, split, heads, start⟩ := headerBehind_iff.1 ((one []).2 rfl)
    obtain rfl : front = [] := by
      cases front with
      | nil => rfl
      | cons first front => simp [endLines] at start
    refine ⟨by simpa [split] using heads, fun other member => ?_⟩
    rw [split] at member
    obtain ⟨middle, rest, rfl⟩ := List.append_of_mem member
    rw [← Bool.not_eq_true]
    intro header
    have behind := headerBehind_iff.2 ⟨line :: middle, other, rest, split, header, rfl⟩
    have empty := (one _).1 behind
    simp [endLines] at empty
  · intro group before
    obtain ⟨line, rest, split, heads, only⟩ := group.exists_cons
    rw [headerBehind_iff]
    constructor
    · rintro ⟨front, other, back, again, header, rfl⟩
      cases front with
      | nil => rfl
      | cons first front =>
        rw [split] at again
        have member : other ∈ rest := by
          rw [(List.cons.inj again).2]
          simp
        rw [only other member] at header
        cases header
    · rintro rfl
      exact ⟨[], line, rest, split, heads, rfl⟩

end Lines

section Grouping

theorem groupByHeader_spec (lines : List (List Char)) :
    (groupByHeader lines).1 ++ (groupByHeader lines).2.flatten = lines ∧
      (∀ line ∈ (groupByHeader lines).1, isHeader line = false) ∧ ∀ group ∈ (groupByHeader lines).2, IsGroup group := by
  induction lines with
  | nil => exact ⟨rfl, nofun, nofun⟩
  | cons line lines ih =>
    obtain ⟨whole, plain, groups⟩ := ih
    cases header : isHeader line with
    | true =>
      simp only [groupByHeader, header, if_true]
      refine ⟨by simp [whole], nofun, List.forall_mem_cons.2 ⟨⟨by simpa using header, plain⟩, groups⟩⟩
    | false =>
      simp only [groupByHeader, header, Bool.false_eq_true, if_false]
      exact ⟨by rw [List.cons_append, whole], List.forall_mem_cons.2 ⟨header, plain⟩, groups⟩

private theorem groupByHeader_plain {plain : List (List Char)} (headerless : ∀ line ∈ plain, isHeader line = false)
    (lines : List (List Char)) :
    groupByHeader (plain ++ lines) = (plain ++ (groupByHeader lines).1, (groupByHeader lines).2) := by
  induction plain with
  | nil => rfl
  | cons line plain ih =>
    obtain ⟨first, others⟩ := List.forall_mem_cons.1 headerless
    simp [groupByHeader, ih others, first]

theorem groupByHeader_group {group : List (List Char)} (one : IsGroup group) {lines : List (List Char)}
    (opened : (groupByHeader lines).1 = []) : groupByHeader (group ++ lines) = ([], group :: (groupByHeader lines).2) := by
  obtain ⟨line, rest, rfl, heads, only⟩ := one.exists_cons
  simp [groupByHeader, groupByHeader_plain only, heads, opened]

/-- The texts of groups of lines; all but the last one end with a line. -/
def piecesOf (groups : List (List (List Char))) : List (List Char) :=
  groups.dropLast.map (fun group => joinLines group ++ ['\n']) ++ groups.getLast?.toList.map joinLines

theorem splitObjects_eq (text : List Char) : splitObjects text = piecesOf (groupByHeader (splitAt '\n' text)).2 := rfl

theorem piecesOf_cons (group : List (List Char)) {groups : List (List (List Char))} (present : groups ≠ []) :
    piecesOf (group :: groups) = (joinLines group ++ ['\n']) :: piecesOf groups := by
  obtain ⟨next, rest, rfl⟩ := List.exists_cons_of_ne_nil present
  rfl

theorem exists_of_mem_piecesOf {groups : List (List (List Char))} {piece : List Char} (member : piece ∈ piecesOf groups) :
    ∃ group ∈ groups, piece = joinLines group ∨ piece = joinLines group ++ ['\n'] := by
  rcases List.mem_append.1 member with early | last
  · obtain ⟨group, inside, rfl⟩ := List.mem_map.1 early
    exact ⟨group, List.dropLast_subset _ inside, .inr rfl⟩
  · obtain ⟨group, inside, rfl⟩ := List.mem_map.1 last
    exact ⟨group, List.mem_of_getLast? (Option.mem_toList.1 inside), .inl rfl⟩

theorem flatten_piecesOf {groups : List (List (List Char))} (present : groups ≠ []) (filled : ∀ group ∈ groups, group ≠ []) :
    (piecesOf groups).flatten = joinLines groups.flatten := by
  induction groups with
  | nil => exact absurd rfl present
  | cons group groups ih =>
    cases groups with
    | nil => simp [piecesOf]
    | cons next groups =>
      obtain ⟨first, others⟩ := List.forall_mem_cons.1 filled
      have rest : (next :: groups).flatten ≠ [] := by simp [others next (List.mem_cons_self ..)]
      calc (piecesOf (group :: next :: groups)).flatten
        _ = joinLines group ++ ['\n'] ++ joinLines (next :: groups).flatten := by
          rw [piecesOf_cons group (List.cons_ne_nil next groups), List.flatten_cons, ih (List.cons_ne_nil next groups) others]
        _ = joinLines (group ++ (next :: groups).flatten) := by rw [joinLines_append group rest, endLines_eq first]

end Grouping

section Splitting

theorem hasOneHeader_of_mem_splitObjects {text piece : List Char} (member : piece ∈ splitObjects text) :
    HasOneHeader piece := by
  obtain ⟨group, inside, written⟩ := exists_of_mem_piecesOf member
  obtain ⟨whole, -, groups⟩ := groupByHeader_spec (splitAt '\n' text)
  have one := groups group inside
  obtain ⟨line, rest, rfl, heads, only⟩ := one.exists_cons
  have unbroken : ∀ other ∈ line :: rest, '\n' ∉ other := by
    intro other found
    have listed : other ∈ splitAt '\n' text := by
      rw [← whole]
      exact List.mem_append_right _ (List.mem_flatten_of_mem inside found)
    exact not_mem_of_mem_splitAt listed
  have split : splitAt '\n' (joinLines (line :: rest)) = line :: rest :=
    Text.splitAt_intercalate (List.cons_ne_nil line rest) unbroken
  rw [hasOneHeader_iff]
  rcases written with rfl | rfl
  · rwa [split]
  · rw [splitAt_append, split]
    have headerless : ∀ other ∈ rest ++ [[]], isHeader other = false :=
      List.forall_mem_append.2 ⟨only, List.forall_mem_singleton.2 (by decide)⟩
    exact ⟨by simpa using heads, headerless⟩

theorem isGroup_splitAt_of_ended {lines : List Char} (one : HasOneHeader (lines ++ ['\n'])) : IsGroup (splitAt '\n' lines) := by
  have group := hasOneHeader_iff.1 one
  obtain ⟨line, rest, split⟩ := List.exists_cons_of_ne_nil (splitAt_ne_nil '\n' lines)
  rw [splitAt_append, split] at group
  rw [split]
  exact ⟨group.begins, fun other inside => group.only other (List.mem_append_left _ inside)⟩

/-- A piece that ends with a line comes off the front of an export. -/
theorem splitObjects_append {piece rest : List Char} (ends : piece.getLast? = some '\n') (one : HasOneHeader piece)
    (opened : rest = [] ∨ HeaderBehind rest []) : splitObjects (piece ++ rest) = piece :: splitObjects rest := by
  rcases opened with rfl | behind
  · have group : groupByHeader (splitAt '\n' piece ++ []) = ([], [splitAt '\n' piece]) :=
      groupByHeader_group (hasOneHeader_iff.1 one) rfl
    rw [List.append_nil] at group
    rw [List.append_nil, splitObjects_eq, group, show splitObjects [] = [] from rfl]
    simp [piecesOf, joinLines, Text.intercalate_splitAt]
  · obtain ⟨lines, rfl⟩ := List.getLast?_eq_some_iff.1 ends
    obtain ⟨front, line, back, split, heads, start⟩ := headerBehind_iff.1 behind
    obtain rfl : front = [] := by
      cases front with
      | nil => rfl
      | cons first front => simp [endLines] at start
    have opened : (groupByHeader (splitAt '\n' rest)).1 = [] := by simp [split, groupByHeader, heads]
    have present : (groupByHeader (splitAt '\n' rest)).2 ≠ [] := by simp [split, groupByHeader, heads]
    rw [List.append_assoc, List.singleton_append, splitObjects_eq, splitAt_append,
      groupByHeader_group (isGroup_splitAt_of_ended one) opened, piecesOf_cons _ present, joinLines, Text.intercalate_splitAt,
      splitObjects_eq]

/-- A header at the beginning of a text that ends with a line stays one whatever follows. -/
theorem HeaderBehind.append {text : List Char} (behind : HeaderBehind text []) (ends : text.getLast? = some '\n')
    (more : List Char) : HeaderBehind (text ++ more) [] := by
  obtain ⟨found, after, rfl, opens, spelled, closes⟩ := behind
  rw [List.nil_append] at ends ⊢
  refine ⟨found, after ++ more, List.append_assoc .., opens, spelled, .inr ?_⟩
  rcases closes with rfl | next
  · rw [List.append_nil] at ends
    exact absurd (List.mem_of_getLast? ends) spelled.unbroken
  · obtain ⟨rest, rfl⟩ := List.head?_eq_some_iff.1 next
    rfl

/-- The part of a text from its first header on, which is empty when it has none. -/
inductive FromFirstHeader (text : List Char) : List Char → Prop where
  | none (absent : ∀ before, ¬ HeaderBehind text before) : FromFirstHeader text []
  | some {before rest : List Char} (whole : text = before ++ rest) (here : HeaderBehind text before)
      (first : ∀ other, HeaderBehind text other → before.length ≤ other.length) : FromFirstHeader text rest

theorem fromFirstHeader_splitObjects (text : List Char) : FromFirstHeader text (splitObjects text).flatten := by
  obtain ⟨whole, plain, groups⟩ := groupByHeader_spec (splitAt '\n' text)
  rw [splitObjects_eq]
  cases found : (groupByHeader (splitAt '\n' text)).2 with
  | nil =>
    refine .none fun before behind => ?_
    obtain ⟨front, line, back, split, heads, -⟩ := headerBehind_iff.1 behind
    rw [found, List.flatten_nil, List.append_nil] at whole
    rw [plain line (by rw [whole, split]; simp)] at heads
    cases heads
  | cons group others =>
    rw [found] at whole groups
    obtain ⟨line, rest, rfl, heads, -⟩ := (groups group (List.mem_cons_self ..)).exists_cons
    have filled : ∀ group ∈ (line :: rest) :: others, group ≠ [] := by
      intro group inside
      obtain ⟨first, more, rfl, -⟩ := (groups group inside).exists_cons
      exact List.cons_ne_nil first more
    have split : splitAt '\n' text = (groupByHeader (splitAt '\n' text)).1 ++ line :: (rest ++ others.flatten) := by
      rw [List.flatten_cons, List.cons_append] at whole
      exact whole.symm
    have cut : text = endLines (groupByHeader (splitAt '\n' text)).1 ++ joinLines ((line :: rest) :: others).flatten := by
      rw [← joinLines_append _ (by simp), whole, joinLines, Text.intercalate_splitAt]
    rw [flatten_piecesOf (List.cons_ne_nil _ others) filled]
    refine .some cut (headerBehind_iff.2 ⟨_, line, _, split, heads, rfl⟩) fun other behind => ?_
    obtain ⟨front, second, back, again, header, rfl⟩ := headerBehind_iff.1 behind
    rcases List.append_eq_append_iff.1 (split.symm.trans again) with ⟨between, later, -⟩ | ⟨between, earlier, tail⟩
    · rw [later]
      simp [endLines]
    · cases between with
      | nil => simp [earlier]
      | cons first between =>
        have member : second ∈ (groupByHeader (splitAt '\n' text)).1 := by
          rw [earlier, (List.cons.inj tail).1]
          simp
        rw [plain second member] at header
        cases header

/-- Exports that each end with a line and have one header, at their beginning, are the pieces of the text that they make
up together. Of any text, the pieces have one header each and begin with it, and they make up the text from its first
header on. -/
theorem splitObjects_undoes_concatenation :
    (∀ pieces : List (List Char), (∀ piece ∈ pieces, piece.getLast? = some '\n' ∧ HasOneHeader piece) →
      splitObjects pieces.flatten = pieces) ∧
    ∀ text, (∀ piece ∈ splitObjects text, HasOneHeader piece) ∧ FromFirstHeader text (splitObjects text).flatten := by
  refine ⟨?_, fun text => ⟨fun _ => hasOneHeader_of_mem_splitObjects, fromFirstHeader_splitObjects text⟩⟩
  intro pieces each
  induction pieces with
  | nil => rfl
  | cons piece pieces ih =>
    obtain ⟨⟨ends, one⟩, others⟩ := List.forall_mem_cons.1 each
    have opened : pieces.flatten = [] ∨ HeaderBehind pieces.flatten [] := by
      cases pieces with
      | nil => exact .inl rfl
      | cons next pieces =>
        obtain ⟨nextEnds, nextOne⟩ := others next (List.mem_cons_self ..)
        exact .inr (((nextOne []).2 rfl).append nextEnds pieces.flatten)
    rw [List.flatten_cons, splitObjects_append ends one opened, ih others]

/-- Two exports with blanks around them; the name in the second one reads like a header. -/
def twoExports : List (List Char) :=
  ["OBJECT Table 7 Item\r\n\x7b\r\n\x7d\r\n".toList, "\tOBJECT Page 9 OBJECT Page 8 \r\n\n".toList]

theorem splitObjects_of_twoExports : (∀ piece ∈ twoExports, piece.getLast? = some '\n' ∧ HasOneHeader piece) ∧
    splitObjects twoExports.flatten = twoExports := by
  have groups : ∀ piece ∈ twoExports, piece.getLast? = some '\n' ∧ IsGroup (splitAt '\n' piece) :=
    List.forall_mem_cons.2 ⟨by decide +kernel, List.forall_mem_singleton.2 (by decide +kernel)⟩
  have each : ∀ piece ∈ twoExports, piece.getLast? = some '\n' ∧ HasOneHeader piece :=
    fun piece inside => (groups piece inside).imp_right hasOneHeader_iff.2
  exact ⟨each, splitObjects_undoes_concatenation.1 twoExports each⟩

end Splitting

end SymbolCache.Legacy
