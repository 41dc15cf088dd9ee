import SymbolCache.Proofs.LegacyRecords

/-! The block of actions in a property section. Where the block starts is decided by the text up to
its opening brace, so that actions can be written anew between the same braces. -/

namespace SymbolCache.Lexical
open Text (byteLength)

theorem utf8Size_toLower (c : Char) : c.toLower.utf8Size = c.utf8Size := by
  unfold Char.toLower
  split
  · rename_i capital
    have bound : c.val.toNat ≤ 90 := capital.2
    have sum : (c.val + ('a'.val - 'A'.val)).toNat = c.val.toNat + 32 := by
      rw [UInt32.toNat_add, show ('a'.val - 'A'.val).toNat = 32 from rfl, Nat.mod_eq_of_lt (by omega)]
    have before : c.val ≤ 127 := by
      rw [UInt32.le_iff_toNat_le]
      exact Nat.le_trans bound (by decide)
    have after : c.val + ('a'.val - 'A'.val) ≤ 127 := by
      rw [UInt32.le_iff_toNat_le, sum]
      exact Nat.le_trans (Nat.add_le_add_right bound 32) (by decide)
    exact (if_pos after).trans (if_pos before).symm
  · rfl

theorem exists_of_stripWord? {keyword text rest : List Char} (strips : Text.stripWord? keyword text = some rest) :
    ∃ word, text = word ++ rest ∧ byteLength word = byteLength keyword ∧
      word.map Char.toLower = keyword.map Char.toLower ∧ ∀ other, Text.stripWord? keyword (word ++ other) = some other := by
  induction keyword generalizing text with
  | nil =>
    cases strips
    exact ⟨[], rfl, rfl, rfl, fun _ => rfl⟩
  | cons p keyword ih =>
    cases text with
    | nil => cases strips
    | cons c text =>
      unfold Text.stripWord? at strips
      split at strips
      · rename_i same
        obtain ⟨word, split, length, lower, strips⟩ := ih strips
        rw [beq_iff_eq] at same
        have size : c.utf8Size = p.utf8Size := by rw [← utf8Size_toLower, ← same, utf8Size_toLower]
        refine ⟨c :: word, by rw [split, List.cons_append], by rw [byteLength, byteLength, length, size],
          by rw [List.map_cons, List.map_cons, same, lower], ?_⟩
        intro other
        rw [List.cons_append, Text.stripWord?, if_pos (beq_iff_eq.2 same), strips]
      · cases strips

/-- The text from a keyword to its opening brace, whatever follows the brace. -/
theorem exists_of_openingAfter? {keyword text body : List Char} {distance : Nat}
    (bare : '{' ∉ keyword.map Char.toLower) (opens : openingAfter? keyword text = some (distance, body)) :
    ∃ lead, text = lead ++ '{' :: body ∧ distance = byteLength lead ∧ '{' ∉ lead ∧
      ∀ other, openingAfter? keyword (lead ++ '{' :: other) = some (distance, other) := by
  unfold openingAfter? at opens
  split at opens
  · cases opens
  · rename_i rest strips
    split at opens
    · cases opens
    · rename_i whole
      split at opens
      · rename_i body' trimmed
        cases opens
        obtain ⟨word, split, length, lower, strips⟩ := exists_of_stripWord? strips
        have gap : rest = rest.takeWhile Text.isBlank ++ '{' :: body := by
          rw [← trimmed, Text.trimStart, List.takeWhile_append_dropWhile]
        have blank : ∀ c ∈ rest.takeWhile Text.isBlank, Text.isBlank c = true :=
          List.all_eq_true.1 List.all_takeWhile
        generalize rest.takeWhile Text.isBlank = blanks at gap blank
        refine ⟨word ++ blanks, by rw [split, gap, List.append_assoc], by rw [Text.byteLength_append, length], ?_, ?_⟩
        · intro inside
          rcases List.mem_append.1 inside with inWord | inBlanks
          · exact bare (lower ▸ List.mem_map.2 ⟨'{', inWord, rfl⟩)
          · exact Text.not_mem_of_blank blank (by decide) inBlanks
        · intro other
          have stops : Text.Stops Text.isBlank ('{' :: other) := .cons (by decide) other
          have first : (blanks ++ '{' :: other).head? = rest.head? := by
            rw [gap, List.head?_append, List.head?_append]
            rfl
          simp only [openingAfter?, List.append_assoc, strips, first, if_neg whole, Text.trimStart_run blank stops,
            Text.takeWhile_run blank stops]
      · cases opens

/-- Whether a keyword opens a block is decided by the text up to any opening brace after it. -/
theorem openingAfter?_eq_none_congr {keyword lead body : List Char} (bare : '{' ∉ keyword.map Char.toLower)
    (none : openingAfter? keyword (lead ++ '{' :: body) = none) (other : List Char) :
    openingAfter? keyword (lead ++ '{' :: other) = .none := by
  cases opens : openingAfter? keyword (lead ++ '{' :: other) with
  | none => rfl
  | some found =>
    obtain ⟨distance, inside⟩ := found
    obtain ⟨start, split, -, absent, again⟩ := exists_of_openingAfter? bare opens
    -- The brace that was found is the given one or stands before it.
    rcases List.append_eq_append_iff.1 split with ⟨between, later, front⟩ | ⟨between, earlier, front⟩
    · cases between with
      | nil =>
        rw [List.append_nil] at later
        rw [← later, again] at none
        cases none
      | cons c between =>
        cases front
        exact absurd (by simp [later]) absent
    · cases between with
      | nil =>
        rw [List.append_nil] at earlier
        rw [earlier, again] at none
        cases none
      | cons c between =>
        cases front
        rw [earlier, List.append_assoc, List.cons_append, again] at none
        cases none

theorem locateIn_marksFrom_cons (keyword : List Char) (previous : Option Char) (offset : Nat) (c : Char) (rest : List Char) :
    locateIn .outline keyword previous (marksFrom .outline .normal offset (c :: rest)) =
      match if !previous.any isWordChar then openingAfter? keyword (c :: rest) else none with
      | none => locateIn .outline keyword (some c) (marksFrom .outline .normal (offset + c.utf8Size) rest)
      | some (distance, inside) =>
        match closingBrace? 0 (marksFrom .outline .normal (offset + distance + 1) inside) with
        | some close => .found ⟨offset, offset + distance, close.offset⟩
        | none => .malformed offset := by
  simp only [marksFrom, step_outline, locateIn, Mark.isNormal, Mark.text]
  rfl

private theorem locateIn_of_opening {keyword text inside : List Char} {previous : Option Char} {offset distance : Nat}
    {close : Mark} (bare : '{' ∉ keyword.map Char.toLower) (free : (!previous.any isWordChar) = true)
    (opens : openingAfter? keyword text = some (distance, inside))
    (closes : closingBrace? 0 (marksFrom .outline .normal (offset + distance + 1) inside) = some close) :
    locateIn .outline keyword previous (marksFrom .outline .normal offset text) =
      .found ⟨offset, offset + distance, close.offset⟩ := by
  cases text with
  | nil =>
    obtain ⟨lead, split, -⟩ := exists_of_openingAfter? bare opens
    simp at split
  | cons c rest =>
    rw [locateIn_marksFrom_cons, if_pos free, opens]
    simp only [closes]

/-- A block that was found, and that it is found with any other balanced text between its braces. -/
theorem exists_of_locateIn {keyword text : List Char} {previous : Option Char} {offset : Nat} {block : Block}
    (bare : '{' ∉ keyword.map Char.toLower)
    (found : locateIn .outline keyword previous (marksFrom .outline .normal offset text) = .found block) :
    ∃ lead inner rest, text = lead ++ '{' :: inner ++ '}' :: rest ∧ Balanced inner ∧
      block.opening = offset + byteLength lead ∧ block.closing = block.opening + 1 + byteLength inner ∧
      ∀ other, Balanced other →
        locateIn .outline keyword previous (marksFrom .outline .normal offset (lead ++ '{' :: other ++ '}' :: rest)) =
          .found ⟨block.keyword, block.opening, block.opening + 1 + byteLength other⟩ := by
  induction text generalizing previous offset with
  | nil => cases found
  | cons c text ih =>
    rw [locateIn_marksFrom_cons] at found
    split at found
    · rename_i notHere
      obtain ⟨lead, inner, rest, split, balanced, opening, closing, again⟩ := ih found
      refine ⟨c :: lead, inner, rest, by rw [split]; simp, balanced, ?_, closing, ?_⟩
      · rw [opening, byteLength, Nat.add_assoc]
      · intro other balancedOther
        have stillNot : (if !previous.any isWordChar then
            openingAfter? keyword (c :: (lead ++ '{' :: other ++ '}' :: rest)) else none) = none := by
          split at notHere
          · rename_i free
            rw [if_pos free]
            rw [split, List.append_assoc, List.cons_append, ← List.cons_append] at notHere
            rw [List.append_assoc, List.cons_append, ← List.cons_append]
            exact openingAfter?_eq_none_congr bare notHere _
          · rename_i joined
            rw [if_neg joined]
        rw [List.cons_append, List.cons_append, locateIn_marksFrom_cons, stillNot]
        exact again other balancedOther
    · rename_i distance inside here
      split at here
      · rename_i free
        split at found
        · rename_i close closes
          cases found
          obtain ⟨lead, split, length, -, again⟩ := exists_of_openingAfter? bare here
          obtain ⟨inner, within, position, balanced⟩ := exists_of_closingBrace? closes
          refine ⟨lead, inner, close.rest, by rw [split, within]; simp, balanced, by rw [length], position, ?_⟩
          intro other balancedOther
          have shape : lead ++ '{' :: other ++ '}' :: close.rest = lead ++ '{' :: (other ++ '}' :: close.rest) := by simp
          have finds := closingBrace?_of_encloses (by simp [Dialect.outline]) balancedOther (offset + distance + 1) close.rest
          rw [shape, locateIn_of_opening bare free (again _) finds]
        · cases found
      · cases here

theorem locate_outline (keyword text : List Char) :
    locate .outline keyword text = locateIn .outline keyword none (marksFrom .outline .normal 0 text) := by
  simp [locate, locateWith, marksAt, Text.dropBytes]

end SymbolCache.Lexical

namespace SymbolCache.Legacy
open Lexical
open Text (byteLength)

/-- A property section with the place of its actions, which stays the same for all balanced texts
between the braces. -/
structure ActionBlock (inner lead body rest : List Char) : Prop where
  split : inner = lead ++ '{' :: body ++ '}' :: rest
  balanced : Balanced body
  located : ∀ other, Balanced other →
    ∃ keyword, locate .outline "ACTIONS".toList (lead ++ '{' :: other ++ '}' :: rest) =
      .found ⟨keyword, byteLength lead, byteLength lead + 1 + byteLength other⟩

theorem actionBlock_of_found {inner : List Char} {block : Block}
    (found : locate .outline "ACTIONS".toList inner = .found block) : ∃ lead body rest, ActionBlock inner lead body rest := by
  rw [locate_outline] at found
  obtain ⟨lead, body, rest, split, balanced, opening, -, again⟩ := exists_of_locateIn (by decide) found
  rw [Nat.zero_add] at opening
  refine ⟨lead, body, rest, split, balanced, ?_⟩
  intro other balancedOther
  refine ⟨block.keyword, ?_⟩
  rw [locate_outline, again other balancedOther, opening]

/-- Without a block there are no actions to read and none to write. -/
theorem actionBlock_or_none (inner : List Char) : (∃ lead body rest, ActionBlock inner lead body rest) ∨
    (readActions inner = [] ∧ ∀ object : Object, object.spliceActions inner = inner) := by
  cases found : locate .outline "ACTIONS".toList inner with
  | found block => exact .inl (actionBlock_of_found found)
  | missing | malformed keyword =>
    refine .inr ⟨by rw [readActions, found], ?_⟩
    intro object
    rw [Object.spliceActions, found]
    rfl

namespace ActionBlock

variable {inner lead body rest : List Char}

theorem replace (block : ActionBlock inner lead body rest) {other : List Char} (balanced : Balanced other) :
    ActionBlock (lead ++ '{' :: other ++ '}' :: rest) lead other rest :=
  ⟨rfl, balanced, block.located⟩

private theorem byteLength_lead (lead : List Char) : byteLength lead + 1 = byteLength (lead ++ ['{']) := by
  rw [Text.byteLength_append]
  rfl

theorem exists_found (block : ActionBlock inner lead body rest) :
    ∃ found : Block, locate .outline "ACTIONS".toList inner = .found found ∧ found.inner inner = body := by
  obtain ⟨keyword, found⟩ := block.located body block.balanced
  rw [← block.split] at found
  refine ⟨_, found, ?_⟩
  have between := Text.slice_between (lead ++ ['{']) body ('}' :: rest)
  rw [← byteLength_lead] at between
  rw [Block.inner, block.split, List.append_cons lead '{' body]
  exact between

theorem readActions (block : ActionBlock inner lead body rest) : readActions inner = actionKind.read body := by
  obtain ⟨found, located, within⟩ := block.exists_found
  rw [Legacy.readActions, located]
  simp only [within]
  rfl

theorem spliceActions (block : ActionBlock inner lead body rest) (object : Object) :
    object.spliceActions inner =
      lead ++ '{' :: renderEntries (object.actions.map actionKind.entryOf) (lineIndent (lead ++ '{' :: body)) ++ '}' :: rest := by
  obtain ⟨keyword, found⟩ := block.located body block.balanced
  rw [← block.split] at found
  have opened : Text.slice inner 0 (byteLength lead + 1) = lead ++ ['{'] := by
    have start := Text.slice_start (lead ++ ['{']) (body ++ '}' :: rest)
    rw [byteLength_lead, block.split]
    simpa using start
  have length : byteLength lead + 1 + byteLength body = byteLength (lead ++ '{' :: body) := by
    rw [byteLength_lead, ← Text.byteLength_append, List.append_assoc, List.singleton_append]
  have before : Text.slice inner 0 (byteLength (lead ++ '{' :: body)) = lead ++ '{' :: body := by
    rw [block.split]
    exact Text.slice_start (lead ++ '{' :: body) ('}' :: rest)
  have after : Text.slice inner (byteLength (lead ++ '{' :: body)) (byteLength inner) = '}' :: rest := by
    rw [block.split]
    exact Text.slice_end (lead ++ '{' :: body) ('}' :: rest)
  rw [Object.spliceActions, found]
  simp only [Lookup.block?, opened, length, before, after, List.append_assoc, List.cons_append, List.nil_append]
  rfl

end ActionBlock

namespace Object

variable {object : Object} {inner : List Char}

theorem balanced_spliceActions (regular : ∀ action ∈ object.actions, actionKind.Regular action)
    (balanced : Balanced inner) : Balanced (object.spliceActions inner) := by
  rcases actionBlock_or_none inner with ⟨lead, body, rest, block⟩ | ⟨-, unchanged⟩
  · rw [block.spliceActions]
    rw [block.split] at balanced
    exact balanced.replace block.balanced (balanced_renderEntries (RecordKind.wellFormed_entries regular) (indent_lineIndent _))
  · rw [unchanged]
    exact balanced

theorem spliceActions_idem (regular : ∀ action ∈ object.actions, actionKind.Regular action) {again : Object}
    (same : again.actions.map actionKind.view = object.actions.map actionKind.view) :
    again.spliceActions (object.spliceActions inner) = object.spliceActions inner := by
  rcases actionBlock_or_none inner with ⟨lead, body, rest, block⟩ | ⟨-, unchanged⟩
  · have blank := indent_lineIndent (lead ++ '{' :: body)
    have written := block.replace (balanced_renderEntries (RecordKind.wellFormed_entries regular) blank)
    have indent := lineIndent_renderEntries blank (lead ++ ['{']) (object.actions.map actionKind.entryOf)
    rw [List.append_assoc, List.singleton_append] at indent
    have entries := actionKind.renderEntries_congr_view same (lineIndent (lead ++ '{' :: body))
    rw [block.spliceActions, written.spliceActions, indent, entries]
  · rw [unchanged, unchanged]

/-- Actions read from a section are read again after they were written into it. -/
theorem view_readActions_spliceActions (among : ∀ action ∈ object.actions, action ∈ readActions inner) :
    (readActions (object.spliceActions inner)).map actionKind.view = object.actions.map actionKind.view := by
  rcases actionBlock_or_none inner with ⟨lead, body, rest, block⟩ | ⟨none, unchanged⟩
  · rw [block.readActions] at among
    have regular : ∀ action ∈ object.actions, actionKind.Regular action := fun action member =>
      actionKind.regular_of_mem_read (among action member)
    have blank := indent_lineIndent (lead ++ '{' :: body)
    have written := block.replace (balanced_renderEntries (RecordKind.wellFormed_entries regular) blank)
    rw [block.spliceActions, written.readActions]
    exact actionKind.view_read_renderEntries regular blank
  · rw [none] at among
    have empty : object.actions = [] := List.eq_nil_iff_forall_not_mem.2 fun action member => nomatch among action member
    rw [unchanged, none, empty]

end Object

end SymbolCache.Legacy
