import SymbolCache.Proofs.LegacyReread

/-! Writing an object and reading it again gives the same object, and writing that one the same
text, also after records were taken out by a filter. -/

namespace SymbolCache.Legacy
open Lexical

namespace Object

variable {object : Object}

def headerOf (object : Object) : Header :=
  ⟨object.objectType.toList, (toString object.id).toList, object.name.toList⟩

def rewritten (object : Object) (part : Section) : Section := ⟨part.keyword, String.ofList (object.renderInner part)⟩

@[simp] theorem rewritten_keyword (object : Object) (part : Section) : (object.rewritten part).keyword = part.keyword := by
  simp only [rewritten]

@[simp] theorem rewritten_inner (object : Object) (part : Section) :
    (object.rewritten part).inner.toList = object.renderInner part := by
  simp only [rewritten, String.toList_ofList]

@[simp] theorem rewritten_kind (object : Object) (part : Section) : (object.rewritten part).kind = part.kind := by
  rw [Section.kind, Section.kind, rewritten_keyword]

private theorem renderSection_eq (object : Object) (part : Section) :
    object.renderSection part = (object.rewritten part).text := by
  have literal : object.renderSection part = [' ', ' '] ++ part.keyword.toList ++ ['\n', ' ', ' ', '{'] ++
      object.renderInner part ++ ['}', '\n'] := rfl
  rw [literal, Section.text, rewritten_keyword, rewritten_inner]
  simp only [List.append_assoc, List.cons_append, List.nil_append]

theorem render_eq (object : Object) :
    object.render = object.headerOf.line ++ '\n' :: '{' ::
      (['\n'] ++ ((object.sections.map object.rewritten).flatMap Section.text ++ tailText object.unreadTail)) := by
  have sections : object.sections.flatMap object.renderSection =
      (object.sections.map object.rewritten).flatMap Section.text := by
    rw [List.flatMap_map]
    exact congrArg (List.flatMap · object.sections) (funext (renderSection_eq object))
  have literal : object.render = object.headerOf.line ++ ['\n', '{', '\n'] ++
      object.sections.flatMap object.renderSection ++ tailText object.unreadTail := by
    unfold render
    cases object.unreadTail <;> rfl
  rw [literal, sections]
  simp only [List.append_assoc, List.cons_append, List.nil_append]

namespace Printable

theorem header (printable : object.Printable) : object.headerOf.WellFormed := by
  obtain ⟨number, -, id⟩ := printable.id
  have digits := Text.toString_digits number
  rw [← id] at digits
  exact ⟨printable.objectType.1, printable.objectType.2, digits.1, fun c inside => Text.isDigit_of_ascii (digits.2 c inside)⟩

theorem readInt64? (printable : object.Printable) : Text.readInt64? object.headerOf.digits = some object.id := by
  obtain ⟨number, bound, id⟩ := printable.id
  rw [headerOf, id]
  exact Text.readInt64?_toString bound

theorem unbroken (printable : object.Printable) : '\n' ∉ object.headerOf.line := by
  have header := printable.header
  have literal : object.headerOf.line = ['O', 'B', 'J', 'E', 'C', 'T', ' '] ++ object.headerOf.objectType ++
      ' ' :: object.headerOf.digits ++ ' ' :: object.headerOf.name := rfl
  have type : '\n' ∉ object.headerOf.objectType := fun inside => absurd (header.typeLetters _ inside) (by decide)
  have digits : '\n' ∉ object.headerOf.digits := fun inside => absurd (header.digits _ inside) (by decide)
  have name : '\n' ∉ object.headerOf.name := printable.name.2
  rw [literal]
  simp [type, digits, name]

end Printable

/-- A text with a header line and a body is read as such. -/
theorem readObject?_line {header : Header} {id : Int} (wellFormed : header.WellFormed)
    (trimmed : Text.Trimmed header.name) (unbroken : '\n' ∉ header.line) (number : Text.readInt64? header.digits = some id)
    (inside : List Char) :
    readObject? (header.line ++ '\n' :: '{' :: inside) = some (ofBody header.objectType id header.name (readSections inside)) := by
  have lines : Text.splitAt '\n' (header.line ++ '\n' :: '{' :: inside) =
      header.line :: Text.splitAt '\n' ('{' :: inside) := by
    rw [Text.splitAt_append, Text.splitAt_of_not_mem unbroken, List.singleton_append]
  have first : firstHeader? (header.line :: Text.splitAt '\n' ('{' :: inside)) =
      some (header, Text.splitAt '\n' ('{' :: inside)) := by
    rw [firstHeader?, header?_line wellFormed trimmed]
  have cut : Text.cutAt? '{' (joinLines (Text.splitAt '\n' ('{' :: inside))) = some ([], inside) := by
    rw [joinLines, Text.intercalate_splitAt]
    rfl
  simp only [readObject?, lines, first, number, cut, Option.bind_eq_bind, Option.bind_some, trimmed.trim]
  rfl

namespace Printable

theorem regularFields (printable : object.Printable) : ∀ field ∈ object.fields, fieldKind.Regular field := by
  intro field member
  obtain ⟨part, -, inside⟩ := printable.fields field member
  exact fieldKind.regular_of_mem_read inside

theorem regularControls (printable : object.Printable) : ∀ control ∈ object.controls, controlKind.Regular control := by
  intro control member
  obtain ⟨part, -, inside⟩ := printable.controls control member
  exact controlKind.regular_of_mem_read inside

theorem regularActions (printable : object.Printable) : ∀ action ∈ object.actions, actionKind.Regular action := by
  intro action member
  obtain ⟨part, -, inside⟩ := printable.actions action member
  rcases actionBlock_or_none part.inner.toList with ⟨lead, body, rest, block⟩ | ⟨none, -⟩
  · rw [block.readActions] at inside
    exact actionKind.regular_of_mem_read inside
  · rw [none] at inside
    cases inside

private theorem renderInner_documented {part : Section} {text : String} (code : part.kind = .code)
    (documented : object.documentation = some text) :
    object.renderInner part = (object.code.getD "").toList ++ trailer text.toList := by
  have assoc (first second third fourth : List Char) :
      first ++ second ++ third ++ fourth = first ++ (second ++ third ++ fourth) := by simp
  rw [renderInner, code, documented]
  exact assoc _ _ _ _

private theorem renderInner_code {part : Section} {text : List Char} {documentation : Option (List Char)}
    (kind : part.kind = .code) (code : object.code = some (String.ofList text))
    (documented : object.documentation = documentation.map String.ofList) :
    object.renderInner part = Legacy.codeText text documentation := by
  cases documentation with
  | none =>
    simp only [renderInner, kind, code, documented, Option.map_none, Option.getD_some, String.toList_ofList,
      Legacy.codeText]
  | some documentation =>
    rw [renderInner_documented kind documented, code, Option.getD_some, String.toList_ofList, String.toList_ofList]
    rfl

/-- Code and documentation, as the last section of code has them. -/
theorem codeText (printable : object.Printable) {part : Section} (member : part ∈ object.sections)
    (kind : part.kind = .code) : ∃ text documentation,
      object.code = some (String.ofList text) ∧ object.documentation = documentation.map String.ofList ∧
      Encloses .legacyCode (Legacy.codeText text documentation) ∧
      splitCode (Legacy.codeText text documentation) = (text, documentation) := by
  obtain ⟨last, found⟩ := exists_lastOf member kind
  obtain ⟨inside, lastKind⟩ := mem_of_lastOf found
  have encloses := (printable.sections last inside).encloses
  rw [sectionDialect_code lastKind] at encloses
  have content := printable.code
  rw [found, Option.elim_some, Prod.mk.injEq] at content
  cases splits : splitCode last.inner.toList with
  | mk text documentation =>
    rw [splits] at content
    exact ⟨text, documentation, content.1, content.2, splitCode_codeText encloses splits⟩

theorem indent_closing : Indent [' ', ' '] := ⟨List.all_eq_true.1 rfl, by decide⟩

theorem renderInner_fields {part : Section} (kind : part.kind = .fields) :
    object.renderInner part = renderEntries (object.fields.map fieldKind.entryOf) [' ', ' '] := by
  rw [renderInner, kind]
  rfl

theorem renderInner_controls {part : Section} (kind : part.kind = .controls) :
    object.renderInner part = renderEntries (object.controls.map controlKind.entryOf) [' ', ' '] := by
  rw [renderInner, kind]
  rfl

theorem renderInner_properties {part : Section} (kind : part.kind = .properties) :
    object.renderInner part = object.spliceActions part.inner.toList := by
  rw [renderInner, kind]

private theorem renderInner_verbatim {part : Section} (kind : part.kind = .objectProperties ∨ part.kind = .other) :
    object.renderInner part = part.inner.toList := by
  rcases kind with kind | kind <;> rw [renderInner, kind]

/-- Every section is written between braces that enclose it. -/
theorem encloses_renderInner (printable : object.Printable) {part : Section} (member : part ∈ object.sections) :
    Encloses (sectionDialect part.keyword.toList) (object.renderInner part) := by
  have encloses := (printable.sections part member).encloses
  cases kind : part.kind with
  | fields =>
    rw [sectionDialect_records (.inl kind), renderInner_fields kind]
    exact balanced_renderEntries (RecordKind.wellFormed_entries printable.regularFields) indent_closing
  | controls =>
    rw [sectionDialect_records (.inr (.inl kind)), renderInner_controls kind]
    exact balanced_renderEntries (RecordKind.wellFormed_entries printable.regularControls) indent_closing
  | properties =>
    have outline := sectionDialect_records (.inr (.inr kind))
    rw [outline] at encloses ⊢
    rw [renderInner_properties kind]
    exact balanced_spliceActions printable.regularActions encloses
  | code =>
    obtain ⟨text, documentation, code, documented, enclosed, -⟩ := printable.codeText member kind
    rw [sectionDialect_code kind, renderInner_code kind code documented]
    exact enclosed
  | objectProperties =>
    rw [renderInner_verbatim (.inl kind)]
    exact encloses
  | other =>
    rw [renderInner_verbatim (.inr kind)]
    exact encloses

theorem closed_rewritten (printable : object.Printable) :
    ∀ part ∈ object.sections.map object.rewritten, part.Closed := by
  intro part inside
  obtain ⟨origin, member, rfl⟩ := List.mem_map.1 inside
  have closed := printable.sections origin member
  constructor
  · rw [rewritten_keyword]
    exact closed.present
  · rw [rewritten_keyword]
    exact closed.letters
  · rw [rewritten_keyword, rewritten_inner]
    exact printable.encloses_renderInner member

end Printable

structure Reread (object again : Object) : Prop where
  objectType : again.objectType = object.objectType
  id : again.id = object.id
  name : again.name = object.name
  malformedSections : again.malformedSections = object.malformedSections
  sections : again.sections = object.sections.map object.rewritten
  unreadTail : again.unreadTail = object.unreadTail
  objectProperties : again.objectProperties = object.objectProperties
  fields : again.fields.map fieldKind.view = object.fields.map fieldKind.view
  controls : again.controls.map controlKind.view = object.controls.map controlKind.view
  actions : again.actions.map actionKind.view = object.actions.map actionKind.view
  code : (again.code, again.documentation) = (object.code, object.documentation)

namespace Printable

/-- The records that reading takes from the last section of their kind. -/
private theorem view_elim {α β : Type} {kind : RecordKind α β} {last : Option Section} {reading : Section → List α}
    {items : List α} (among : ∀ item ∈ items, ∃ part, last = some part ∧ item ∈ reading part)
    (again : ∀ part, last = some part → (reading (object.rewritten part)).map kind.view = items.map kind.view) :
    ((last.map object.rewritten).elim [] reading).map kind.view = items.map kind.view := by
  cases last with
  | none =>
    have empty : items = [] := by
      refine List.eq_nil_iff_forall_not_mem.2 fun item member => ?_
      obtain ⟨part, none, -⟩ := among item member
      cases none
    rw [empty]
    rfl
  | some part => exact again part rfl

private theorem reread_of_readFrom (printable : object.Printable) {again : Object}
    (frame : again.frame = (object.objectType, object.id, object.name, object.malformedSections,
      object.sections.map object.rewritten, object.unreadTail))
    (parts : again.ReadFrom (object.sections.map object.rewritten)) : object.Reread again := by
  have last (kind : SectionKind) : lastOf kind (object.sections.map object.rewritten) =
      (lastOf kind object.sections).map object.rewritten := lastOf_map object.rewritten_kind object.sections
  simp only [Object.frame, Prod.mk.injEq] at frame
  obtain ⟨type, id, name, malformed, sections, unread⟩ := frame
  refine ⟨type, id, name, malformed, sections, unread, ?_, ?_, ?_, ?_, ?_⟩
  · rw [parts.objectProperties, printable.objectProperties, last]
    cases found : lastOf .objectProperties object.sections with
    | none => rfl
    | some part =>
      have kind := (mem_of_lastOf found).2
      simp only [Option.map_some, Option.elim_some, rewritten_inner, renderInner_verbatim (.inl kind)]
  · rw [parts.fields, last]
    refine view_elim printable.fields ?_
    intro part found
    rw [rewritten_inner, renderInner_fields (mem_of_lastOf found).2]
    exact fieldKind.view_read_renderEntries printable.regularFields indent_closing
  · rw [parts.controls, last]
    refine view_elim printable.controls ?_
    intro part found
    rw [rewritten_inner, renderInner_controls (mem_of_lastOf found).2]
    exact controlKind.view_read_renderEntries printable.regularControls indent_closing
  · rw [parts.actions, last]
    refine view_elim printable.actions ?_
    intro part found
    rw [rewritten_inner, renderInner_properties (mem_of_lastOf found).2]
    apply view_readActions_spliceActions
    intro action member
    obtain ⟨other, same, inside⟩ := printable.actions action member
    rw [found] at same
    cases same
    exact inside
  · rw [parts.code, last]
    cases found : lastOf .code object.sections with
    | none =>
      have content := printable.code
      rw [found] at content
      exact content.symm
    | some part =>
      obtain ⟨member, kind⟩ := mem_of_lastOf found
      obtain ⟨text, documentation, code, documented, -, splits⟩ := printable.codeText member kind
      simp only [Option.map_some, Option.elim_some, rewritten_inner, renderInner_code kind code documented, splits,
        code, documented]

/-- The text of an object is read, and as what was written. -/
theorem exists_reread (printable : object.Printable) :
    ∃ again, readObject? object.render = some again ∧ object.Reread again := by
  have body := readSections_text printable.closed_rewritten printable.tail blank_newline
  have reads := readObject?_line printable.header printable.name.1 printable.unbroken printable.readInt64?
    (['\n'] ++ ((object.sections.map object.rewritten).flatMap Section.text ++ tailText object.unreadTail))
  rw [← render_eq, body] at reads
  refine ⟨_, reads, printable.reread_of_readFrom ?_ (readFrom_ofBody ..)⟩
  rw [frame_ofBody, headerOf, String.ofList_toList, String.ofList_toList]

/-- A section that was written and read is written as it is. -/
private theorem renderInner_rewritten (printable : object.Printable) {again : Object} (reread : object.Reread again)
    {part : Section} (member : part ∈ object.sections) :
    again.renderInner (object.rewritten part) = object.renderInner part := by
  have same := object.rewritten_kind part
  have inner := object.rewritten_inner part
  cases kind : part.kind with
  | fields =>
    rw [renderInner_fields (same.trans kind), renderInner_fields kind]
    exact fieldKind.renderEntries_congr_view reread.fields _
  | controls =>
    rw [renderInner_controls (same.trans kind), renderInner_controls kind]
    exact controlKind.renderEntries_congr_view reread.controls _
  | properties =>
    rw [renderInner_properties (same.trans kind), inner, renderInner_properties kind]
    exact spliceActions_idem printable.regularActions reread.actions
  | code =>
    obtain ⟨text, documentation, code, documented, -, -⟩ := printable.codeText member kind
    have content := reread.code
    rw [Prod.mk.injEq, code, documented] at content
    rw [renderInner_code (same.trans kind) content.1 content.2, renderInner_code kind code documented]
  | objectProperties => rw [renderInner_verbatim (.inl (same.trans kind)), inner]
  | other => rw [renderInner_verbatim (.inr (same.trans kind)), inner]

theorem render_reread (printable : object.Printable) {again : Object} (reread : object.Reread again) :
    again.render = object.render := by
  have header : again.headerOf = object.headerOf := by
    rw [headerOf, headerOf, reread.objectType, reread.id, reread.name]
  have parts : again.sections.map again.rewritten = object.sections.map object.rewritten := by
    rw [reread.sections, List.map_map]
    apply List.map_congr_left
    intro part member
    rw [Function.comp_apply, rewritten, rewritten_keyword, printable.renderInner_rewritten reread member, rewritten]
  rw [render_eq, render_eq, header, parts, reread.unreadTail]

end Printable

/-- The content of objects, apart from what depends on the places of their records. -/
structure SameContent (first second : Object) : Prop where
  objectType : first.objectType = second.objectType
  id : first.id = second.id
  name : first.name = second.name
  objectProperties : first.objectProperties = second.objectProperties
  code : first.code = second.code
  documentation : first.documentation = second.documentation
  malformedSections : first.malformedSections = second.malformedSections
  fields : first.fields.map (fun field => (field.id, field.name, field.dataType, field.verbatim)) =
    second.fields.map fun field => (field.id, field.name, field.dataType, field.verbatim)
  controls : first.controls.map (fun control => (control.id, control.indentation, control.type, control.verbatim)) =
    second.controls.map fun control => (control.id, control.indentation, control.type, control.verbatim)
  actions : first.actions.map (fun action => (action.id, action.level, action.type, action.verbatim)) =
    second.actions.map fun action => (action.id, action.level, action.type, action.verbatim)

/-- The facts about records and their texts are part of their views. -/
private theorem map_facts {α β γ : Type} {kind : RecordKind α β} {first second : List α} {facts : α → γ}
    (decided : ∃ project : β → String → γ, ∀ item, facts item = project (kind.facts item) (kind.entryOf item).verbatim)
    (same : first.map kind.view = second.map kind.view) : first.map facts = second.map facts := by
  obtain ⟨project, decided⟩ := decided
  have projected := congrArg (List.map fun view => project view.1 (String.ofList view.2.text)) same
  simp only [List.map_map, Function.comp_def, RecordKind.view, Entry.piece, String.ofList_toList, ← decided] at projected
  exact projected

theorem Reread.sameContent {again : Object} (reread : object.Reread again) : again.SameContent object where
  objectType := reread.objectType
  id := reread.id
  name := reread.name
  objectProperties := reread.objectProperties
  code := congrArg Prod.fst reread.code
  documentation := congrArg Prod.snd reread.code
  malformedSections := reread.malformedSections
  fields := map_facts ⟨fun facts text => (facts.1, facts.2.1, facts.2.2, text), fun _ => rfl⟩ reread.fields
  controls := map_facts ⟨fun facts text => (facts.1, facts.2.1, facts.2.2, text), fun _ => rfl⟩ reread.controls
  actions := map_facts ⟨fun facts text => (facts.1, facts.2.1, facts.2.2, text), fun _ => rfl⟩ reread.actions

end Object

/-- An object that was read and has a name can be written and read again, with or without a filter:
its content stays the same, and so does its text. -/
theorem readObject?_render_stable {text : List Char} {object kept : Object} (reads : readObject? text = some object)
    (named : object.name ≠ "") (filtered : kept = object ∨ ∃ ranges, kept = object.filterById ranges) :
    ∃ again, readObject? kept.render = some again ∧ again.SameContent kept ∧ again.render = kept.render := by
  have printable : kept.Printable := by
    have whole := Object.printable_of_readObject? reads named
    rcases filtered with rfl | ⟨ranges, rfl⟩
    · exact whole
    · exact whole.filterById ranges
  obtain ⟨again, readsAgain, reread⟩ := printable.exists_reread
  exact ⟨again, readsAgain, reread.sameContent, printable.render_reread reread⟩

def itemFields : List Char :=
  "\n  FIELDS\n  \x7b\n    \x7b 1;;No;Code20 \x7d\n    \x7b 2;;Name;Text50 \x7d\n  \x7d\n\x7d\n".toList

theorem itemTable_render_stable : ∃ object again,
    readObject? ("OBJECT Table 7 Item".toList ++ '\n' :: '{' :: itemFields) = some object ∧ object.name = "Item" ∧
    readObject? (object.filterById [⟨2, 9⟩]).render = some again ∧ again.SameContent (object.filterById [⟨2, 9⟩]) ∧
    again.render = (object.filterById [⟨2, 9⟩]).render := by
  have header : Header.WellFormed ⟨['T', 'a', 'b', 'l', 'e'], ['7'], ['I', 't', 'e', 'm']⟩ :=
    ⟨nofun, List.all_eq_true.1 rfl, nofun, List.all_eq_true.1 rfl⟩
  have trimmed : Text.Trimmed ['I', 't', 'e', 'm'] := ⟨nofun, .cons (by decide) _, .cons (by decide) _⟩
  have number : Text.readInt64? ['7'] = some 7 := rfl
  obtain ⟨object, reads, name⟩ : ∃ object, readObject? ("OBJECT Table 7 Item".toList ++ '\n' :: '{' :: itemFields) =
      some object ∧ object.name = "Item" :=
    ⟨_, Object.readObject?_line header trimmed (by decide) number itemFields,
      congrArg (·.2.2.1) (Object.frame_ofBody ..)⟩
  have named : object.name ≠ "" := by
    rw [name]
    decide
  obtain ⟨again, stable⟩ := readObject?_render_stable reads named (.inr ⟨[⟨2, 9⟩], rfl⟩)
  exact ⟨object, again, reads, name, stable⟩

end SymbolCache.Legacy
