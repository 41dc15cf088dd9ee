import SymbolCache.Proofs.DeclarationReadback
import SymbolCache.Proofs.LegacyHeader
import SymbolCache.Proofs.LookupAgreement
import SymbolCache.Proofs.NestedBlocks

/-! What a unit opens with. Its declaration is read alike however the body goes on: readers stop before a brace, and a
quote behind a name that the body closes again is no part of the name. -/

namespace SymbolCache.Source
open Text (Stops)
open Lexical (Phase phaseAfter)

section Suffixes

theorem run?_suffix {p : Char → Bool} {text taken rest : List Char} (runs : Text.run? p text = some (taken, rest)) :
    rest <:+ text := ⟨taken, (Text.exists_of_run? runs).1.symm⟩

theorem quotedText?_suffix {quote : Char} {text content rest : List Char} (reads : quotedText? quote text = some (content, rest)) :
    rest <:+ text := by
  fun_induction quotedText? quote text generalizing content rest with
  | case1 => cases reads
  | case2 c same =>
    cases reads
    exact List.suffix_cons ..
  | case3 c other => cases reads
  | case4 c d text closes doubled inner after found ih =>
    cases reads
    exact (ih found).trans ((List.suffix_cons ..).trans (List.suffix_cons ..))
  | case5 c d text closes doubled unclosed ih =>
    cases reads
    exact List.suffix_cons ..
  | case6 c d text closes single =>
    cases reads
    exact List.suffix_cons ..
  | case7 c d text other newline => cases reads
  | case8 c d text other onLine ih =>
    obtain ⟨⟨inner, after⟩, found, same⟩ := Option.map_eq_some_iff.1 reads
    cases same
    exact (ih found).trans (List.suffix_cons ..)

theorem name?_suffix {text name rest : List Char} (reads : name? text = some (name, rest)) : rest <:+ text := by
  cases text with
  | nil => cases reads
  | cons c text =>
    rw [name?] at reads
    split at reads
    · split at reads
      · rename_i content after found
        split at reads
        · cases reads
        · cases reads
          exact (quotedText?_suffix found).trans (List.suffix_cons ..)
      · cases reads
    · split at reads
      · cases reads
        exact (List.dropWhile_suffix _).trans (List.suffix_cons ..)
      · cases reads

theorem extendsClause?_suffix {text target rest : List Char} (reads : extendsClause? text = some (target, rest)) :
    rest <:+ text := by
  simp only [extendsClause?, Option.bind_eq_bind, Option.bind_eq_some_iff] at reads
  obtain ⟨⟨gap, afterGap⟩, gaps, afterWord, strips, ⟨space, afterSpace⟩, spaces, named⟩ := reads
  obtain ⟨word, split, -⟩ := Text.exists_of_stripFolded?_eq_some strips
  exact (name?_suffix named).trans ((run?_suffix spaces).trans (.trans ⟨word, split.symm⟩ (run?_suffix gaps)))

end Suffixes

section Growth

variable {more : List Char}

/-- If the text is a quote that nothing closes, more text closes it no more. -/
def StaysOpen (more text : List Char) : Prop :=
  ∀ behind, text = '"' :: behind → quotedText? '"' behind = none → quotedText? '"' (behind ++ more) = none

/-- A doubled quote that nothing closes ends a text with its first half, so what is left may not be closed later. -/
theorem quotedText?_append {text content rest : List Char} (reads : quotedText? '"' text = some (content, rest))
    (present : rest ≠ []) (unclosed : StaysOpen more rest) : quotedText? '"' (text ++ more) = some (content, rest ++ more) := by
  fun_induction quotedText? '"' text generalizing content rest with
  | case1 => cases reads
  | case2 c same =>
    cases reads
    exact absurd rfl present
  | case3 c other => cases reads
  | case4 c d text closes doubled inner after found ih =>
    cases reads
    rw [List.cons_append, List.cons_append, quotedText?, if_pos closes, if_pos doubled, ih found present unclosed]
  | case5 c d text closes doubled unended ih =>
    cases reads
    have still := unclosed text (by rw [beq_iff_eq.1 doubled]) unended
    rw [List.cons_append, List.cons_append, quotedText?, if_pos closes, if_pos doubled, still]
  | case6 c d text closes single =>
    cases reads
    rw [List.cons_append, List.cons_append, quotedText?, if_pos closes, if_neg single]
  | case7 c d text other newline => cases reads
  | case8 c d text other onLine ih =>
    obtain ⟨⟨inner, after⟩, found, same⟩ := Option.map_eq_some_iff.1 reads
    cases same
    rw [List.cons_append, List.cons_append, quotedText?, if_neg other, if_neg onLine, ← List.cons_append,
      ih found present unclosed]
    rfl

theorem name?_append {text name rest : List Char} (reads : name? text = some (name, rest)) (present : rest ≠ [])
    (stops : Stops Text.isIdentifierPart more) (unclosed : StaysOpen more rest) :
    name? (text ++ more) = some (name, rest ++ more) := by
  cases text with
  | nil => cases reads
  | cons c text =>
    rw [name?] at reads
    rw [List.cons_append, name?]
    split at reads
    · rename_i quote
      rw [if_pos quote]
      split at reads
      · rename_i content after found
        split at reads
        · cases reads
        · rename_i some
          cases reads
          rw [quotedText?_append found present unclosed]
          dsimp only
          rw [if_neg some]
      · cases reads
    · rename_i plain
      rw [if_neg plain]
      split at reads
      · rename_i start
        cases reads
        rw [if_pos start, Text.takeWhile_append_stops stops, Text.dropWhile_append_stops stops]
      · cases reads

variable {tail : List Char}

/-- A quoted text that a scan closes is read alike before a brace. -/
theorem quotedText?_brace {text : List Char} (closes : phaseAfter .modern none (.string '"') text = .normal) :
    quotedText? '"' (text ++ '{' :: tail) = (quotedText? '"' text).map fun found => (found.1, found.2 ++ '{' :: tail) := by
  have quoted (c : Char) (next : Option Char) :
      (Lexical.step .modern (.string '"') c next).2 = if c == '"' then Phase.normal else .string '"' := rfl
  fun_induction quotedText? '"' text with
  | case1 => cases closes
  | case2 c same =>
    rw [List.singleton_append, quotedText?, if_pos same]
    rfl
  | case3 c other =>
    rw [Lexical.phaseAfter_cons, quoted, if_neg other] at closes
    cases closes
  | case4 c d text same doubled inner after found ih =>
    rw [Lexical.phaseAfter_cons, quoted, if_pos same, Lexical.phaseAfter_cons, beq_iff_eq.1 doubled] at closes
    rw [List.cons_append, List.cons_append, quotedText?, if_pos same, if_pos doubled, ih closes, found]
    rfl
  | case5 c d text same doubled unclosed ih =>
    rw [Lexical.phaseAfter_cons, quoted, if_pos same, Lexical.phaseAfter_cons, beq_iff_eq.1 doubled] at closes
    rw [List.cons_append, List.cons_append, quotedText?, if_pos same, if_pos doubled, ih closes, unclosed]
    rfl
  | case6 c d text same single =>
    rw [List.cons_append, List.cons_append, quotedText?, if_pos same, if_neg single]
    rfl
  | case7 c d text other newline =>
    rw [List.cons_append, List.cons_append, quotedText?, if_neg other, if_pos newline]
    rfl
  | case8 c d text other onLine ih =>
    rw [Lexical.phaseAfter_cons, quoted, if_neg other] at closes
    rw [List.cons_append, List.cons_append, quotedText?, if_neg other, if_neg onLine, ← List.cons_append, ih closes]
    cases quotedText? '"' (d :: text) <;> rfl

/-- Characters that open neither a comment nor a string leave a scan where it is. -/
theorem phaseAfter_append_plain {word : List Char} (plain : ∀ c ∈ word, c ≠ '/' ∧ c ≠ '\'' ∧ c ≠ '"') (rest : List Char) :
    phaseAfter .modern none .normal (word ++ rest) = phaseAfter .modern none .normal rest := by
  induction word with
  | nil => rfl
  | cons c word ih =>
    obtain ⟨⟨slash, single, double⟩, others⟩ := List.forall_mem_cons.1 plain
    have unquoted : ['\'', '"'].contains c = false := by simp [single, double]
    rw [List.cons_append, Lexical.phaseAfter_cons, Lexical.step_modern slash, unquoted]
    exact ih others

theorem name?_brace {text : List Char} (normal : phaseAfter .modern none .normal text = .normal) :
    name? (text ++ '{' :: tail) = (name? text).map fun found => (found.1, found.2 ++ '{' :: tail) := by
  have stops : Stops Text.isIdentifierPart ('{' :: tail) := .cons (by decide) tail
  cases text with
  | nil => rfl
  | cons c text =>
    rw [List.cons_append, name?, name?]
    split
    · rename_i quote
      rw [beq_iff_eq.1 quote, Lexical.phaseAfter_cons] at normal
      rw [quotedText?_brace normal]
      cases quotedText? '"' text with
      | none => rfl
      | some found =>
        dsimp only [Option.map_some]
        split <;> rfl
    · split
      · rw [Text.takeWhile_append_stops stops, Text.dropWhile_append_stops stops]
        rfl
      · rfl

theorem extendsClause?_brace {text : List Char} (normal : phaseAfter .modern none .normal text = .normal) :
    extendsClause? (text ++ '{' :: tail) =
      (extendsClause? text).map fun found => (found.1, found.2 ++ '{' :: tail) := by
  have space : Stops Text.isSpaceOrTab ('{' :: tail) := .cons (by decide) tail
  have blocked : Stops (fun c => "extends".toList.contains (Text.foldCase c)) ('{' :: tail) := .cons (by decide) tail
  have spaces {text gap rest : List Char} (normal : phaseAfter .modern none .normal text = .normal)
      (runs : Text.run? Text.isSpaceOrTab text = some (gap, rest)) : phaseAfter .modern none .normal rest = .normal := by
    obtain ⟨split, -, all⟩ := Text.exists_of_run? runs
    rw [split, phaseAfter_append_plain] at normal
    · exact normal
    · intro c inside
      have blank := all c inside
      rw [Text.isSpaceOrTab, Bool.or_eq_true, beq_iff_eq, beq_iff_eq] at blank
      rcases blank with rfl | rfl <;> decide
  have letters {text rest : List Char} (normal : phaseAfter .modern none .normal text = .normal)
      (strips : Text.stripFolded? "extends".toList text = some rest) : phaseAfter .modern none .normal rest = .normal := by
    obtain ⟨word, rfl, folded⟩ := Text.exists_of_stripFolded?_eq_some strips
    rw [phaseAfter_append_plain] at normal
    · exact normal
    · intro c inside
      have listed := folded c inside
      refine ⟨?_, ?_, ?_⟩ <;> rintro rfl <;> exact absurd listed (by decide)
  simp only [extendsClause?, Text.run?_append_stops space, Option.bind_eq_bind]
  cases gaps : Text.run? Text.isSpaceOrTab text with
  | none => rfl
  | some gap =>
    simp only [Option.map_some, Option.bind_some, Text.stripFolded?_append blocked]
    cases strips : Text.stripFolded? "extends".toList gap.2 with
    | none => rfl
    | some behind =>
      simp only [Option.map_some, Option.bind_some, Text.run?_append_stops space]
      cases more : Text.run? Text.isSpaceOrTab behind with
      | none => rfl
      | some start =>
        simp only [Option.map_some, Option.bind_some]
        exact name?_brace (spaces (letters (spaces normal gaps) strips) more)

theorem extendsClause?_append {text target rest : List Char} (reads : extendsClause? text = some (target, rest))
    (present : rest ≠ []) (unclosed : StaysOpen ('{' :: tail) rest) :
    extendsClause? (text ++ '{' :: tail) = some (target, rest ++ '{' :: tail) := by
  have space : Stops Text.isSpaceOrTab ('{' :: tail) := .cons (by decide) tail
  have blocked : Stops (fun c => "extends".toList.contains (Text.foldCase c)) ('{' :: tail) := .cons (by decide) tail
  simp only [extendsClause?, Option.bind_eq_bind, Option.bind_eq_some_iff] at reads
  obtain ⟨⟨gap, afterGap⟩, gaps, afterWord, strips, ⟨spaces, afterSpaces⟩, runs, named⟩ := reads
  simp only [extendsClause?, Option.bind_eq_bind, Text.run?_append_stops space, gaps, Option.map_some, Option.bind_some,
    Text.stripFolded?_append blocked, strips, runs]
  exact name?_append named present (.cons (by decide) tail) unclosed

theorem length_lt_of_cut {terminator : Char} {text before after : List Char}
    (cut : Text.cutAt? terminator (Text.trimStart text) = some (before, after)) : after.length < text.length :=
  Nat.lt_of_lt_of_le (Text.length_lt_of_cutAt? cut) (List.dropWhile_suffix _).length_le

theorem dropPreamble_suffix (text : List Char) : dropPreamble text <:+ text := by
  rw [dropPreamble_eq]
  split
  · exact List.dropWhile_suffix _
  · split
    · rename_i before after cut
      have inside : after <:+ Text.trimStart text := by
        rw [Text.eq_of_cutAt? cut, List.append_cons]
        exact List.suffix_append ..
      have shorter := length_lt_of_cut cut
      exact (dropPreamble_suffix after).trans (inside.trans (List.dropWhile_suffix _))
    · exact List.nil_suffix
termination_by text.length

theorem dropPreamble_brace {text : List Char} (present : dropPreamble text ≠ []) :
    dropPreamble (text ++ '{' :: tail) = dropPreamble text ++ '{' :: tail := by
  have start : Text.trimStart (text ++ '{' :: tail) = Text.trimStart text ++ '{' :: tail :=
    Text.dropWhile_append_stops (.cons (by decide) tail) text
  rw [dropPreamble_eq] at present
  rw [dropPreamble_eq, dropPreamble_eq text, start]
  cases ends : statementEnd? (Text.trimStart text) with
  | none =>
    have bare : statementEnd? (Text.trimStart text ++ '{' :: tail) = none := by
      rw [Option.eq_none_iff_forall_ne_some]
      intro terminator later
      rw [statementEnd?_eq_some_iff.2 ((statementEnd?_eq_some_iff.1 later).of_append (.inr rfl))] at ends
      cases ends
    rw [bare]
  | some terminator =>
    have begun : statementEnd? (Text.trimStart text ++ '{' :: tail) = some terminator :=
      statementEnd?_eq_some_iff.2 ((statementEnd?_eq_some_iff.1 ends).append _)
    rw [begun]
    rw [ends] at present
    dsimp only at present ⊢
    cases cut : Text.cutAt? terminator (Text.trimStart text) with
    | none =>
      rw [cut] at present
      exact absurd rfl present
    | some parts =>
      rw [cut] at present
      have shorter := length_lt_of_cut cut
      rw [Text.cutAt?_append_of_eq_some cut]
      exact dropPreamble_brace present
termination_by text.length

/-- The number before a name, and what is left. -/
def numbered (text : List Char) : Option Int × List Char :=
  match leadingId? text with
  | some (digits, rest) => (Text.readInt64? digits, rest)
  | none => (none, text)

/-- The extended object behind a name, and what is left. -/
def extended (text : List Char) : Option String × List Char :=
  match extendsClause? text with
  | some (target, rest) => (some (String.ofList target), rest)
  | none => (none, text)

theorem declaration?_eq (text : List Char) :
    declaration? text = (Text.run? Text.isLetter (dropPreamble text)).bind fun word =>
      (ObjectKind.parse? word.1).bind fun kind =>
        (Text.run? Text.isSpaceOrTab word.2).bind fun gap =>
          (name? (numbered gap.2).2).map fun named =>
            ⟨kind, (numbered gap.2).1, String.ofList named.1, (extended named.2).1,
              Text.byteLength text - Text.byteLength (extended named.2).2⟩ := by
  rw [declaration?]
  simp only [Option.map_eq_bind, numbered, extended, Option.bind_eq_bind]
  rfl

theorem numbered_brace (text : List Char) :
    numbered (text ++ '{' :: tail) = ((numbered text).1, (numbered text).2 ++ '{' :: tail) := by
  have digit : Stops Text.isDigit ('{' :: tail) := .cons (by decide) tail
  have space : Stops Text.isSpaceOrTab ('{' :: tail) := .cons (by decide) tail
  simp only [numbered, leadingId?, Text.run?_append_stops digit, Option.bind_eq_bind]
  cases Text.run? Text.isDigit text with
  | none => rfl
  | some digits =>
    simp only [Option.map_some, Option.bind_some, Text.run?_append_stops space]
    cases Text.run? Text.isSpaceOrTab digits.2 <;> rfl

theorem numbered_suffix (text : List Char) : (numbered text).2 <:+ text := by
  rw [numbered]
  split
  · rename_i digits rest found
    simp only [leadingId?, Option.bind_eq_bind, Option.bind_eq_some_iff] at found
    obtain ⟨⟨number, afterNumber⟩, runs, ⟨gap, afterGap⟩, gaps, same⟩ := found
    cases same
    exact (run?_suffix gaps).trans (run?_suffix runs)
  · exact List.suffix_refl text

theorem extended_suffix (text : List Char) : (extended text).2 <:+ text := by
  rw [extended]
  split
  · rename_i found
    exact extendsClause?_suffix found
  · exact List.suffix_refl text

/-- What a declaration was read from, one part behind the other, and what its readers leave of the text. -/
theorem exists_of_declaration? {text : List Char} {found : Declaration} (declares : declaration? text = some found) :
    ∃ front word afterWord kind gap afterGap name afterName,
      front ++ (extended afterName).2 = text ∧ Text.run? Text.isLetter (dropPreamble text) = some (word, afterWord) ∧
      ObjectKind.parse? word = some kind ∧ Text.run? Text.isSpaceOrTab afterWord = some (gap, afterGap) ∧
      name? (numbered afterGap).2 = some (name, afterName) ∧
      found = ⟨kind, (numbered afterGap).1, String.ofList name, (extended afterName).1, Text.byteLength front⟩ := by
  rw [declaration?_eq] at declares
  obtain ⟨⟨word, afterWord⟩, letters, declares⟩ := Option.bind_eq_some_iff.1 declares
  obtain ⟨kind, parses, declares⟩ := Option.bind_eq_some_iff.1 declares
  obtain ⟨⟨gap, afterGap⟩, gaps, declares⟩ := Option.bind_eq_some_iff.1 declares
  obtain ⟨⟨name, afterName⟩, named, rfl⟩ := Option.map_eq_some_iff.1 declares
  dsimp only at parses gaps named
  have inUnit : afterName <:+ text :=
    (name?_suffix named).trans ((numbered_suffix afterGap).trans ((run?_suffix gaps).trans
      ((run?_suffix letters).trans (dropPreamble_suffix text))))
  obtain ⟨front, whole⟩ := (extended_suffix afterName).trans inUnit
  refine ⟨front, word, afterWord, kind, gap, afterGap, name, afterName, whole, letters, parses, gaps, named, ?_⟩
  rw [← whole, Text.byteLength_append, Nat.add_sub_cancel]

/-- A quote that a scan closes again is closed in what has been read. -/
theorem staysOpen_of_normal {rest : List Char} (normal : phaseAfter .modern none .normal rest = .normal) :
    StaysOpen ('{' :: tail) rest := by
  rintro behind rfl unread
  rw [Lexical.phaseAfter_cons] at normal
  rw [quotedText?_brace normal, unread]
  rfl

theorem extended_brace {text : List Char} (normal : phaseAfter .modern none .normal (extended text).2 = .normal)
    (present : (extended text).2 ≠ []) :
    extended (text ++ '{' :: tail) = ((extended text).1, (extended text).2 ++ '{' :: tail) := by
  cases reads : extendsClause? text with
  | none =>
    have bare : extended text = (none, text) := by rw [extended, reads]
    rw [bare] at normal ⊢
    rw [extended, extendsClause?_brace normal, reads]
    rfl
  | some found =>
    obtain ⟨target, rest⟩ := found
    have shape : extended text = (some (String.ofList target), rest) := by rw [extended, reads]
    rw [shape] at normal present ⊢
    rw [extended, extendsClause?_append reads present (staysOpen_of_normal normal)]

/-- A unit declares the same however its body goes on, once a scan of the body is in normal phase again. -/
theorem declaration?_brace {text body : List Char} {found : Declaration} (declares : declaration? text = some found)
    (behind : Text.dropBytes found.endOffset text = some body) (normal : phaseAfter .modern none .normal body = .normal)
    (present : body ≠ []) : declaration? (text ++ '{' :: tail) = some found := by
  have letter : Stops Text.isLetter ('{' :: tail) := .cons (by decide) tail
  have space : Stops Text.isSpaceOrTab ('{' :: tail) := .cons (by decide) tail
  obtain ⟨front, word, afterWord, kind, gap, afterGap, name, afterName, whole, letters, parses, gaps, named, rfl⟩ :=
    exists_of_declaration? declares
  have inName : (extended afterName).2 <:+ afterName := extended_suffix afterName
  -- The body is what the readers leave, so what is known of it is known of the text behind the name.
  have left : body = (extended afterName).2 := by
    rw [← whole, Text.dropBytes_byteLength] at behind
    exact (Option.some.inj behind).symm
  subst left
  have begins : dropPreamble text ≠ [] := by
    intro empty
    rw [empty] at letters
    cases letters
  have nameEnds : afterName ≠ [] := by
    intro empty
    rw [empty] at present inName
    exact present (List.suffix_nil.1 inName)
  -- Nothing is extended right behind a quote: there the body begins.
  have unclosed : StaysOpen ('{' :: tail) afterName := by
    rintro rest rfl
    have bare : extendsClause? ('"' :: rest) = none := by
      rw [extendsClause?, Text.run?_of_stops (.cons (by decide) rest)]
      rfl
    have same : extended ('"' :: rest) = (none, '"' :: rest) := by rw [extended, bare]
    rw [same] at normal
    exact staysOpen_of_normal normal rest rfl
  rw [declaration?_eq, dropPreamble_brace begins, Text.run?_append_stops letter, letters]
  simp only [Option.map_some, Option.bind_some, parses, Text.run?_append_stops space, gaps, numbered_brace,
    name?_append named nameEnds (.cons (by decide) tail) unclosed, extended_brace normal present, Text.byteLength_append,
    Nat.add_sub_add_right]
  rw [← whole, Text.byteLength_append, Nat.add_sub_cancel]

end Growth

/-- Bodies with the same object-level text differ in fields and data items at most. -/
theorem record_congr (found : Declaration) {body second : List Char} (same : objectLevelText body = objectLevelText second)
    {key : String} (noFields : key ≠ "fields") (noItems : key ≠ "dataItems") :
    (withBody (headRecord found body) body).metadata.get? key = (withBody (headRecord found second) second).metadata.get? key := by
  have table : sourceTable? body = sourceTable? second := by rw [sourceTable?, sourceTable?, same]
  have caption : caption? body = caption? second := by rw [caption?, caption?, same]
  have head : (headRecord found body).metadata.get? key = (headRecord found second).metadata.get? key := by
    by_cases captioned : key = "caption"
    · rw [captioned, headRecord_caption, headRecord_caption, caption]
    · rw [headRecord_get? _ _ _ captioned, headRecord_get? _ _ _ captioned]
  rw [withBody_get? _ _ noFields noItems, withBody_get? _ _ noFields noItems, table, head, headRecord_kind, headRecord_kind]

section Blocks
open Lexical (Encloses EndsInBlock stripComments)

/-- A unit whose body has begun opens alike whatever block comes next. -/
theorem opening?_block {front inner body : List Char} {found : Declaration} (opens : opening? front = some (found, body))
    (normal : phaseAfter .modern none .normal front = .normal) (ends : EndsInBlock .modern body)
    (encloses : Encloses .modern inner) (rest : List Char) :
    opening? (front ++ '{' :: (inner ++ '}' :: rest)) =
      some (found, body ++ '{' :: (stripComments .modern inner ++ '}' :: stripComments .modern rest)) := by
  obtain ⟨declared, declares, same⟩ := Option.map_eq_some_iff.1 opens
  obtain ⟨rfl, behind⟩ := Prod.mk.inj same
  have drops : Text.dropBytes declared.endOffset (stripComments .modern front) = some body := by
    cases cut : Text.dropBytes declared.endOffset (stripComments .modern front) with
    | none =>
      rw [cut] at behind
      exact absurd behind.symm ends.ne_nil
    | some rest =>
      rw [cut] at behind
      rw [← behind, Option.getD_some]
  obtain ⟨head, split, length⟩ := Text.exists_of_dropBytes drops
  rw [opening?, Lexical.stripComments_block normal encloses, declaration?_brace declares drops ends.normal ends.ne_nil,
    Option.map_some, split, ← length, List.append_assoc, Text.dropBytes_byteLength, Option.getD_some]

/-- A page up to its layout, which holds a caption, a source table and braces that are none. -/
def itemPage : List Char := "/* 'page' */ page 50100 \"Item\x7b\"\n\x7b\n  Caption = 'Items'; layout".toList

def itemLayout : List Char :=
  " SourceTable = Wrong; /* \x7d */ area(Content) \x7b Caption = 'it''s \x7d'; // \x7b\n \x7d ".toList

end Blocks

end SymbolCache.Source
