import SymbolCache.Proofs.UnitOpenings

/-! What comments have to say about a unit of source text. To the field index they say nothing. What a text defines and
which procedures it has is decided by its declaration only as long as its lines, those of comments included, are not
taken for a legacy object. -/

namespace SymbolCache.Lexical

theorem trimStart_stripFrom {text rest : List Char} {c : Char} {offset : Nat} (opens : Text.trimStart text = c :: rest)
    (plain : c ≠ '/') : ∃ more, Text.trimStart (stripFrom .modern .normal offset text) = c :: more := by
  have shown {d : Char} (plain : d ≠ '/') (next : Option Char) :
      (step .modern .normal d next).1.isComment = false := by
    rw [step_modern plain next]
    split <;> rfl
  induction text generalizing offset with
  | nil => cases opens
  | cons first text ih =>
    unfold Text.trimStart at opens ⊢
    by_cases blank : Text.isBlank first = true
    · have notSlash : first ≠ '/' := by
        rintro rfl
        exact absurd blank (by decide)
      have unquoted : ['\'', '"'].contains first = false := by
        rw [List.contains_eq_any_beq, List.any_eq_false]
        intro quote listed same
        rw [beq_iff_eq] at same
        subst same
        simp only [List.mem_cons, List.not_mem_nil, or_false] at listed
        rcases listed with rfl | rfl
        · exact absurd blank (by decide)
        · exact absurd blank (by decide)
      rw [List.dropWhile_cons_of_pos blank] at opens
      rw [stripFrom_of_not_comment offset (shown notSlash _), List.dropWhile_cons_of_pos blank, step_modern notSlash, unquoted]
      exact ih opens
    · rw [List.dropWhile_cons_of_neg blank] at opens
      obtain ⟨same, -⟩ := List.cons.inj opens
      subst same
      rw [stripFrom_of_not_comment offset (shown plain _), List.dropWhile_cons_of_neg blank]
      exact ⟨_, rfl⟩

end SymbolCache.Lexical

namespace SymbolCache.Source
open Lexical (stripComments)

section Openings

theorem declaration?_eq_none {text rest : List Char} {c : Char} (opens : Text.trimStart text = c :: rest)
    (bare : statementEnd? (c :: rest) = none) (other : Text.isLetter c = false) : declaration? text = none := by
  have start : dropPreamble text = c :: rest := by
    rw [dropPreamble]
    simp only [opens, bare]
  rw [declaration?, start]
  simp [Text.run?, other]

variable {text : List Char} {found : Declaration} (declares : declaration? (stripComments .modern text) = some found)
include declares

/-- A text that declares something opens neither with a byte order mark nor with a brace. -/
theorem opens_of_declaration? :
    text.head? ≠ some Text.byteOrderMark ∧ (Text.trimStart text).head? ≠ some '{' := by
  have unopened {c : Char} {rest : List Char} (opens : Text.trimStart text = c :: rest) (plain : c ≠ '/')
      (bare : ∀ rest, statementEnd? (c :: rest) = none) : Text.isLetter c ≠ false := by
    intro other
    obtain ⟨more, stripped⟩ := @Lexical.trimStart_stripFrom text rest c 0 opens plain
    have missed := declaration?_eq_none stripped (bare more) other
    change declaration? (Lexical.stripFrom .modern .normal 0 text) = some found at declares
    rw [missed] at declares
    cases declares
  constructor
  · intro marked
    obtain ⟨rest, rfl⟩ := List.head?_eq_some_iff.1 marked
    have opens : Text.trimStart (Text.byteOrderMark :: rest) = Text.byteOrderMark :: rest :=
      List.dropWhile_cons_of_neg (by decide)
    exact unopened opens (by decide) (fun _ => rfl) (by decide)
  · intro braced
    obtain ⟨rest, opens⟩ := List.head?_eq_some_iff.1 braced
    exact unopened opens (by decide) (fun _ => rfl) (by decide)

theorem definition?_of_declaration? :
    definition? text = if Legacy.isLegacy text then ((Legacy.readObject? text).bind legacyRecord?).map .unit
      else (modernRecord? text).map .unit :=
  definition?_of_source (opens_of_declaration? declares).1 (opens_of_declaration? declares).2

theorem opening?_of_declaration? :
    ∃ front body, stripComments .modern text = front ++ body ∧ Text.byteLength front = found.endOffset ∧
      opening? text = some (found, body) := by
  obtain ⟨front, word, afterWord, kind, gap, afterGap, name, afterName, whole, -, -, -, -, rfl⟩ :=
    exists_of_declaration? declares
  refine ⟨front, (extended afterName).2, whole.symm, rfl, ?_⟩
  rw [opening?, declares, Option.map_some, ← whole, Text.dropBytes_byteLength, Option.getD_some]

end Openings

/-- A legacy object that says what a declaration says. -/
structure Repeats (found : Declaration) (object : Legacy.Object) : Prop where
  kind : object.kind? = some found.kind
  id : found.id = some object.id
  name : found.name = object.name
  unextended : found.extends? = none

section Legacy
variable {object : Legacy.Object} {record : ObjectRecord}

theorem isSome_legacyRecord? : (legacyRecord? object).isSome = object.kind?.isSome := by
  unfold legacyRecord?
  cases object.kind? with
  | none => rfl
  | some kind =>
    dsimp only [Option.bind_eq_bind, Option.bind_some]
    split <;> rfl

theorem exists_of_legacyRecord? (reads : legacyRecord? object = some record) :
    object.kind? = some record.kind ∧ record.id = some object.id ∧ record.name = object.name ∧
    record.metadata.get? "legacy" = some (.bool true) ∧ record.metadata.get? "extends" = none := by
  obtain ⟨kind, known, reads⟩ := Option.bind_eq_some_iff.1 reads
  dsimp only at reads
  split at reads
  all_goals
    cases reads
    simp [known, ObjectRecord.ofDeclaration, ObjectRecord.get?_withMeta?, ObjectRecord.get?_withMeta]

theorem declares_legacyRecord?_iff {found : Declaration} :
    (∃ record, legacyRecord? object = some record ∧ Declares found record) ↔ Repeats found object := by
  constructor
  · rintro ⟨record, reads, said⟩
    obtain ⟨kind, id, name, -, extended⟩ := exists_of_legacyRecord? reads
    refine ⟨said.kind ▸ kind, said.id.symm.trans id, said.name.symm.trans name, ?_⟩
    exact Option.map_eq_none_iff.1 (said.extended.symm.trans extended)
  · intro repeats
    have known : (legacyRecord? object).isSome := by rw [isSome_legacyRecord?, repeats.kind, Option.isSome_some]
    obtain ⟨record, reads⟩ := Option.isSome_iff_exists.1 known
    obtain ⟨kind, id, name, -, extended⟩ := exists_of_legacyRecord? reads
    refine ⟨record, reads, ⟨Option.some.inj (kind.symm.trans repeats.kind), id.trans repeats.id.symm,
      name.trans repeats.name.symm, ?_⟩⟩
    rw [extended, repeats.unextended, Option.map_none]

/-- The record of a legacy object is marked as one. -/
theorem legacyRecord?_ne_withBody (found : Declaration) (body : List Char) :
    legacyRecord? object ≠ some (withBody (headRecord found body) body) := by
  intro reads
  obtain ⟨-, -, -, marked, -⟩ := exists_of_legacyRecord? reads
  rw [withBody_get? _ _ (by decide) (by decide), if_neg (fun both => absurd both.1 (by decide)),
    headRecord_get? _ _ _ (by decide), if_neg (by decide)] at marked
  cases marked

end Legacy

theorem procedures_congr {text other : List Char} (current : Legacy.isLegacy text = false)
    (alsoCurrent : Legacy.isLegacy other = false) (same : stripComments .modern other = stripComments .modern text) :
    procedures other = procedures text := by
  have stripped {text : List Char} (current : Legacy.isLegacy text = false) :
      procedureText text = stripComments .modern text := by
    rw [procedureText, current]
    rfl
  rw [procedures, procedures, stripped current, stripped alsoCurrent, same]

/-- The declaration decides what a unit is as long as its lines are not taken for a legacy object, or for one that says the
same. The contribution to the field index comes from the declaration and the text behind it in any case, and so does,
for texts not taken for a legacy object, all else that is read. -/
theorem declaration_decides_iff {text : List Char} {found : Declaration}
    (declares : declaration? (stripComments .modern text) = some found) :
    ((∃ record, definition? text = some (.unit record) ∧ Declares found record) ↔
      Legacy.isLegacy text = false ∨ ∃ object, Legacy.readObject? text = some object ∧ Repeats found object) ∧
    (∃ front body, stripComments .modern text = front ++ body ∧ Text.byteLength front = found.endOffset ∧
      Contribution.ofSource text = .ofOpening found body) ∧
    ∀ other, stripComments .modern other = stripComments .modern text →
      Contribution.ofSource other = Contribution.ofSource text ∧
      (Legacy.isLegacy text = false →
        (definition? other = definition? text ↔ Legacy.isLegacy other = false) ∧
        (Legacy.isLegacy other = false → procedures other = procedures text)) := by
  obtain ⟨front, body, whole, length, opens⟩ := opening?_of_declaration? declares
  have modern : modernRecord? text = some (withBody (headRecord found body) body) := by
    rw [modernRecord?_eq, opens, Option.map_some]
  refine ⟨?_, ⟨front, body, whole, length, ?_⟩, ?_⟩
  · rw [definition?_of_declaration? declares]
    cases Legacy.isLegacy text with
    | false =>
      rw [if_neg Bool.false_ne_true, modern]
      exact iff_of_true ⟨_, rfl, withBody_declares found body⟩ (.inl rfl)
    | true =>
      rw [if_pos rfl]
      simp only [Option.map_eq_some_iff, Option.bind_eq_some_iff, Definition.unit.injEq, exists_eq_right,
        Bool.true_eq_false, false_or, ← declares_legacyRecord?_iff]
      constructor
      · rintro ⟨record, ⟨object, reads, recorded⟩, said⟩
        exact ⟨object, reads, record, recorded, said⟩
      · rintro ⟨object, reads, record, recorded, said⟩
        exact ⟨record, ⟨object, reads, recorded⟩, said⟩
  · rw [Contribution.ofSource_eq, opens]
    rfl
  · intro other same
    have alike : opening? other = opening? text := by rw [opening?, opening?, same]
    refine ⟨by rw [Contribution.ofSource_eq, Contribution.ofSource_eq, alike],
      fun current => ⟨?_, fun alsoCurrent => procedures_congr current alsoCurrent same⟩⟩
    have alsoDeclares : declaration? (stripComments .modern other) = some found := by rw [same, declares]
    have alsoModern : modernRecord? other = modernRecord? text := by rw [modernRecord?_eq, modernRecord?_eq, alike]
    rw [definition?_of_declaration? declares, definition?_of_declaration? alsoDeclares, current, alsoModern, modern]
    cases Legacy.isLegacy other with
    | false => exact iff_of_true rfl rfl
    | true =>
      refine iff_of_false (fun defined => ?_) (by decide)
      simp only [if_pos, if_neg, Bool.false_eq_true, not_false_eq_true, Option.map_some, Option.map_eq_some_iff,
        Option.bind_eq_some_iff, Definition.unit.injEq, exists_eq_right] at defined
      obtain ⟨object, -, recorded⟩ := defined
      exact legacyRecord?_ne_withBody found body recorded

def annotatedExtension : List Char :=
  "/*\nOBJECT Table 18 Customer\n*/\ntableextension 50100 More extends Item \x7b \x7d".toList

def quotingTable : List Char :=
  "/*\nOBJECT Table 18 Customer\nFIELDS\n*/\ntable 50100 Item\n\x7b\nprocedure Check()\n\x7d".toList

/-- A quoted header decides only with a quoted section behind it: then the table is lost, and its procedure with it. -/
theorem quoted_header_takes_over :
    (∃ record, definition? annotatedExtension = some (.unit record) ∧ record.name = "More" ∧
      record.metadata.get? "extends" = some (.text "Item")) ∧
    (Contribution.ofSource quotingTable).declaredTable = some "Item" ∧
    (¬ ∃ record, definition? quotingTable = some (.unit record) ∧
      Declares ⟨.table, some 50100, "Item", none, 54⟩ record) ∧
    definition? quotingTable ≠ definition? (stripComments .modern quotingTable) ∧
    procedures quotingTable = [] ∧
    procedures (stripComments .modern quotingTable) = [⟨"Check", [], none⟩] := by
  have extension : declaration? (stripComments .modern annotatedExtension) =
      some ⟨.tableExtension, some 50100, "More", some "Item", 69⟩ := by decide +kernel
  have table : declaration? (stripComments .modern quotingTable) =
      some ⟨.table, some 50100, "Item", none, 54⟩ := by decide +kernel
  have again : stripComments .modern (stripComments .modern quotingTable) = stripComments .modern quotingTable := by
    decide +kernel
  have bare : declaration? (stripComments .modern (stripComments .modern quotingTable)) =
      some ⟨.table, some 50100, "Item", none, 54⟩ := by rw [again, table]
  obtain ⟨record, defined, said⟩ := (declaration_decides_iff extension).1.2 (.inl (by decide +kernel))
  obtain ⟨-, body, -, -, contributes⟩ := (declaration_decides_iff table).2.1
  refine ⟨⟨record, defined, said.name, said.extended⟩, by rw [contributes]; rfl, ?_, ?_, by decide +kernel, by decide +kernel⟩
  · rw [(declaration_decides_iff table).1]
    rintro (current | ⟨object, reads, repeats⟩)
    · exact absurd current (by decide +kernel)
    · have quoted : (Legacy.readObject? quotingTable).map Legacy.Object.name = some "Customer" := by decide +kernel
      rw [reads, Option.map_some, ← repeats.name] at quoted
      exact absurd quoted (by decide)
  · rw [Ne, ((declaration_decides_iff bare).2.2 quotingTable again.symm).2 (by decide +kernel) |>.1]
    decide +kernel

end SymbolCache.Source
