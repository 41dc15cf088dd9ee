import Mathlib.Data.List.Basic
import Mathlib.Data.List.TakeWhile
import SymbolCache.Proofs.LegacyRoundTrip

/-! Which records of an object are written back. A record has to have enough columns to be read at all, and those
that are read are written as they stood, in their order; a filter takes away only numbers outside of its ranges. -/

namespace SymbolCache

namespace Text

theorem cutAt?_eq_none {separator : Char} {text : List Char} (uncut : cutAt? separator text = none) : separator ∉ text := by
  induction text with
  | nil => simp
  | cons c rest ih =>
    rw [cutAt?] at uncut
    split at uncut
    · cases uncut
    · rename_i other
      rw [List.mem_cons, not_or]
      exact ⟨fun same => other (beq_iff_eq.2 same.symm), ih (Option.map_eq_none_iff.1 uncut)⟩

theorem length_splitFirst (separator : Char) (most : Nat) (text : List Char) :
    (splitFirst separator (most + 1) text).length = min (most + 1) (text.count separator + 1) := by
  induction most generalizing text with
  | zero => simp [splitFirst]
  | succ most ih =>
    rw [splitFirst]
    split
    · rename_i uncut
      simp [List.count_eq_zero.2 (cutAt?_eq_none uncut)]
    · rename_i before after cut
      have absent := List.count_eq_zero.2 (not_mem_of_cutAt? cut)
      rw [List.length_cons, ih, eq_of_cutAt? cut, List.count_append, absent, List.count_cons_self]
      omega

theorem head_splitFirst {separator : Char} {most : Nat} (several : 1 < most) (text : List Char) :
    (splitFirst separator most text).getD 0 [] = text.takeWhile (· != separator) := by
  obtain ⟨rest, rfl⟩ : ∃ rest, most = rest + 2 := ⟨most - 2, by omega⟩
  have stays {before : List Char} (absent : separator ∉ before) : ∀ c ∈ before, (c != separator) = true := by
    intro c inside
    rw [bne_iff_ne]
    rintro rfl
    exact absent inside
  rw [splitFirst]
  split
  · rename_i uncut
    exact (List.takeWhile_eq_self_iff.2 (stays (cutAt?_eq_none uncut))).symm
  · rename_i before after cut
    rw [eq_of_cutAt? cut, List.takeWhile_append_of_pos (stays (not_mem_of_cutAt? cut)),
      List.takeWhile_cons_of_neg (by simp), List.append_nil]
    rfl

/-- Texts that stand in a text one after the other. -/
def StandIn : List (List Char) → List Char → Prop
  | [], _ => True
  | part :: rest, text => ∃ before after, text = before ++ part ++ after ∧ StandIn rest after

namespace StandIn

variable {parts others : List (List Char)} {text rest : List Char}

theorem after (stand : StandIn parts text) (before : List Char) : StandIn parts (before ++ text) := by
  cases parts with
  | nil => trivial
  | cons part parts =>
    obtain ⟨front, back, rfl, later⟩ := stand
    exact ⟨before ++ front, back, by simp, later⟩

theorem append (first : StandIn parts text) (second : StandIn others rest) : StandIn (parts ++ others) (text ++ rest) := by
  induction parts generalizing text with
  | nil => exact second.after text
  | cons part parts ih =>
    obtain ⟨front, back, rfl, later⟩ := first
    exact ⟨front, back ++ rest, by simp, ih later⟩

theorem before (stand : StandIn parts text) (rest : List Char) : StandIn parts (text ++ rest) := by
  simpa using stand.append (show StandIn [] rest from trivial)

theorem of_suffix (stand : StandIn parts text) (ends : text <:+ rest) : StandIn parts rest := by
  obtain ⟨before, rfl⟩ := ends
  exact stand.after before

theorem flatMap {α : Type} {items : List α} {parts : α → List (List Char)} {text : α → List Char}
    (stand : ∀ item ∈ items, StandIn (parts item) (text item)) : StandIn (items.flatMap parts) (items.flatMap text) := by
  induction items with
  | nil => trivial
  | cons item items ih =>
    rw [List.flatMap_cons, List.flatMap_cons]
    exact (stand item (List.mem_cons_self ..)).append (ih fun other inside => stand other (List.mem_cons_of_mem _ inside))

end StandIn

end Text

namespace Legacy

open Lexical
open Text (StandIn)

/-- The records at the top level of a text, from brace to brace. -/
def recordsOf (inner : List Char) : List (List Char) :=
  (Lexical.records .outline inner).map fun (opening, closing) => Text.slice inner opening (closing + 1)

theorem recordsOf_eq (inner : List Char) : recordsOf inner = (pieces inner).map Piece.text := by
  rw [pieces, piecesAfter, List.map_map]
  rfl

theorem standIn_piecesAfter (before text : List Char) : StandIn ((piecesAfter before text).map Piece.text) text := by
  induction text using records_induction generalizing before with
  | nil => simp [piecesAfter, recordsFrom, StandIn]
  | skip c rest other ih =>
    rw [piecesAfter_cons other]
    exact (ih _).after [c]
  | unclosed inside never =>
    rw [piecesAfter_unclosed never]
    trivial
  | record body rest nested ih =>
    rw [piecesAfter_record (nested_iff.1 nested), List.map_cons]
    exact ⟨[], rest, by simp, ih _⟩

theorem standIn_recordsOf (inner : List Char) : StandIn (recordsOf inner) inner := by
  rw [recordsOf_eq]
  exact standIn_piecesAfter [] inner

def actionRecords (inner : List Char) : List (List Char) :=
  match Lexical.locate .outline "ACTIONS".toList inner with
  | .found block => recordsOf (block.inner inner)
  | _ => []

/-- The records of a section: its fields or controls, or the actions among its properties. -/
def Section.records (part : Section) : List (List Char) :=
  match part.kind with
  | .fields | .controls => recordsOf part.inner.toList
  | .properties => actionRecords part.inner.toList
  | _ => []

theorem ActionBlock.actionRecords {inner lead body rest : List Char} (block : ActionBlock inner lead body rest) :
    actionRecords inner = recordsOf body := by
  obtain ⟨found, located, within⟩ := block.exists_found
  rw [Legacy.actionRecords, located]
  simp only [within]

theorem actionBlock_or_no_records (inner : List Char) : (∃ lead body rest, ActionBlock inner lead body rest) ∨
    (actionRecords inner = [] ∧ ∀ object : Object, object.spliceActions inner = inner) := by
  cases found : locate .outline "ACTIONS".toList inner with
  | found block => exact .inl (actionBlock_of_found found)
  | missing | malformed keyword =>
    refine .inr ⟨by rw [actionRecords, found], fun object => ?_⟩
    rw [Object.spliceActions, found]
    rfl

theorem standIn_records (part : Section) : StandIn part.records part.inner.toList := by
  unfold Section.records
  split
  · exact standIn_recordsOf _
  · exact standIn_recordsOf _
  · rcases actionBlock_or_no_records part.inner.toList with ⟨lead, body, rest, block⟩ | ⟨none, -⟩
    · rw [block.actionRecords, block.split, List.append_cons lead, List.append_assoc]
      exact ((standIn_recordsOf body).before _).after _
    · rw [none]
      trivial
  · trivial

/-! Records that are read and written again. -/

def betweenBraces (record : List Char) : List Char := (record.drop 1).dropLast

/-- The number in the first column of a record. -/
def recordId (record : List Char) : Option Int :=
  Text.readInt64? (Text.trim ((betweenBraces record).takeWhile (· != ';')))

/-- Fields have four columns at least, controls and actions three. -/
def leastSeparators : SectionKind → Nat
  | .fields => 3
  | _ => 2

/-- The records of a section with enough columns and an id that stays. -/
def Section.survivors (stays : Option Int → Bool) (part : Section) : List (List Char) :=
  part.records.filter fun record =>
    leastSeparators part.kind ≤ (betweenBraces record).count ';' && stays (recordId record)

namespace RecordKind

variable {α β : Type} (kind : RecordKind α β)

/-- Records need so many separators, and their id is the number in the first column, wherever it is kept. -/
structure Numbered (least : Nat) (ident : β → Option Int) : Prop where
  several : 1 < kind.parts
  enough : least < kind.parts
  minimum : kind.minimum = least + 1
  byFacts : ∀ item, (kind.entryOf item).id = ident (kind.facts item)
  byText : ∀ text, ident (kind.factsOf text) = Text.readInt64? (columnOf kind.parts text 0)

variable {kind} {least : Nat} {ident : β → Option Int}

theorem isWide_iff (numbered : kind.Numbered least ident) (piece : Piece) :
    kind.isWide piece = decide (least ≤ (betweenBraces piece.text).count ';') := by
  obtain ⟨several, enough, minimum, -, -⟩ := numbered
  obtain ⟨most, parts⟩ : ∃ most, kind.parts = most + 1 := ⟨kind.parts - 1, by omega⟩
  rw [isWide, minimum, parts, columnsOf, Text.length_splitFirst, decide_eq_decide]
  rw [parts] at enough
  unfold betweenBraces
  omega

theorem recordId_eq (numbered : kind.Numbered least ident) (text : List Char) : ident (kind.factsOf text) = recordId text := by
  rw [numbered.byText, columnOf, columnsOf, Text.head_splitFirst numbered.several]
  rfl

/-- Reading drops the records with too few columns, and nothing else. -/
theorem texts_read (numbered : kind.Numbered least ident) (stays : Option Int → Bool) (inner : List Char) :
    ((kind.read inner).filter fun item => stays (kind.entryOf item).id).map (fun item => (kind.entryOf item).piece.text) =
      (recordsOf inner).filter fun record =>
        least ≤ (betweenBraces record).count ';' && stays (recordId record) := by
  have viewed := congrArg (fun views => (views.filter fun view => stays (ident view.1)).map fun view => view.2.text)
    (kind.view_read inner)
  simp only [List.filter_map, List.map_map, Function.comp_def, view, ← numbered.byFacts, List.filter_filter,
    recordId_eq numbered, isWide_iff numbered] at viewed
  rw [viewed, recordsOf_eq, List.filter_map]
  simp only [Function.comp_def, Bool.and_comm]

theorem recordsOf_renderEntries (numbered : kind.Numbered least ident) (stays : Option Int → Bool) (inner : List Char)
    {indent : List Char} (blank : Indent indent) :
    recordsOf (renderEntries (((kind.read inner).filter fun item => stays (kind.entryOf item).id).map kind.entryOf) indent) =
      (recordsOf inner).filter fun record =>
        least ≤ (betweenBraces record).count ';' && stays (recordId record) := by
  have regular : ∀ item ∈ (kind.read inner).filter fun item => stays (kind.entryOf item).id, kind.Regular item :=
    fun item chosen => kind.regular_of_mem_read (List.mem_filter.1 chosen).1
  rw [← texts_read numbered, recordsOf_eq, pieces_renderEntries (wellFormed_entries regular) blank, List.map_map, List.map_map]
  rfl

end RecordKind

theorem fieldKind_numbered : fieldKind.Numbered 3 Prod.fst := ⟨by decide, by decide, rfl, fun _ => rfl, fun _ => rfl⟩

theorem controlKind_numbered : controlKind.Numbered 2 Prod.fst := ⟨by decide, by decide, rfl, fun _ => rfl, fun _ => rfl⟩

theorem actionKind_numbered : actionKind.Numbered 2 Prod.fst := ⟨by decide, by decide, rfl, fun _ => rfl, fun _ => rfl⟩

namespace Object

def keeping (stays : Option Int → Bool) (object : Object) : Object :=
  { object with
    fields := object.fields.filter fun field => stays field.id
    controls := object.controls.filter fun control => stays control.id
    actions := object.actions.filter fun action => stays action.id }

theorem keeping_all (object : Object) : object.keeping (fun _ => true) = object := by
  simp [keeping]

/-- No kind of records has more than one section. -/
def Unambiguous (object : Object) : Prop :=
  ∀ kind ∈ [SectionKind.fields, .controls, .properties], (object.sections.filter fun part => part.kind = kind).length ≤ 1

theorem Unambiguous.lastOf {object : Object} (single : object.Unambiguous) {part : Section} (member : part ∈ object.sections)
    (records : part.kind ∈ [SectionKind.fields, .controls, .properties]) : lastOf part.kind object.sections = some part := by
  have chosen : part ∈ object.sections.filter fun other => other.kind = part.kind :=
    List.mem_filter.2 ⟨member, decide_eq_true rfl⟩
  have few := single part.kind records
  cases only : object.sections.filter fun other => other.kind = part.kind with
  | nil =>
    rw [only] at chosen
    cases chosen
  | cons first rest =>
    rw [only, List.length_cons] at few
    obtain rfl := List.length_eq_zero_iff.1 (show rest.length = 0 by omega)
    rw [only, List.mem_singleton] at chosen
    rw [Legacy.lastOf, only, chosen]
    rfl

theorem records_rewritten {object : Object} (readFrom : object.ReadFrom object.sections) (single : object.Unambiguous)
    (stays : Option Int → Bool) {part : Section} (member : part ∈ object.sections) :
    ((object.keeping stays).rewritten part).records = part.survivors stays := by
  have last := single.lastOf member
  unfold Section.survivors Section.records
  rw [rewritten_kind, rewritten_inner]
  cases kind : part.kind with
  | fields =>
    have fields := readFrom.fields
    rw [← kind, last (by simp [kind])] at fields
    rw [Printable.renderInner_fields kind, keeping, fields]
    exact RecordKind.recordsOf_renderEntries fieldKind_numbered stays part.inner.toList Printable.indent_closing
  | controls =>
    have controls := readFrom.controls
    rw [← kind, last (by simp [kind])] at controls
    rw [Printable.renderInner_controls kind, keeping, controls]
    exact RecordKind.recordsOf_renderEntries controlKind_numbered stays part.inner.toList Printable.indent_closing
  | properties =>
    have actions := readFrom.actions
    rw [← kind, last (by simp [kind])] at actions
    rw [Printable.renderInner_properties kind]
    rcases actionBlock_or_no_records part.inner.toList with ⟨lead, body, rest, block⟩ | ⟨none, unchanged⟩
    · have blank := indent_lineIndent (lead ++ '{' :: body)
      rw [Option.elim_some, block.readActions] at actions
      have regular : ∀ action ∈ (object.keeping stays).actions, actionKind.Regular action := by
        intro action chosen
        rw [keeping, actions] at chosen
        exact actionKind.regular_of_mem_read (List.mem_filter.1 chosen).1
      have written := block.replace (balanced_renderEntries (RecordKind.wellFormed_entries regular) blank)
      show actionRecords _ = (actionRecords _).filter _
      rw [block.spliceActions, written.actionRecords, block.actionRecords, keeping, actions]
      exact RecordKind.recordsOf_renderEntries actionKind_numbered stays body blank
    · rw [unchanged, none]
      rfl
  | objectProperties | code | other => rfl

theorem standIn_render (object : Object) :
    StandIn (object.sections.flatMap fun part => (object.rewritten part).records) object.render := by
  have sections : StandIn ((object.sections.map object.rewritten).flatMap Section.records)
      ((object.sections.map object.rewritten).flatMap Section.text) := by
    refine .flatMap fun part _ => ?_
    have framed : part.text = (' ' :: ' ' :: part.keyword.toList ++ ['\n', ' ', ' ', '{']) ++
        (part.inner.toList ++ ['}', '\n']) := by simp [Section.text]
    rw [framed]
    exact ((standIn_records part).before _).after _
  rw [List.flatMap_map] at sections
  rw [render_eq, List.append_cons, List.append_cons _ '{']
  exact ((sections.before _).after _).after _

end Object

/-- A section that closes stands before what is read after it. -/
private theorem standIn_section {keyword body text : List Char} {close : Mark} {later : List Section}
    (ends : body <:+ text) (closes : closingBrace? 0 (marksFrom (sectionDialect keyword) .normal 0 body) = some close)
    (rest : StandIn (later.flatMap Section.records) close.rest) :
    StandIn ((⟨String.ofList keyword, String.ofList (Text.slice body 0 close.offset)⟩ :: later).flatMap Section.records)
      text := by
  obtain ⟨inner, split, position, -⟩ := exists_of_closingBrace? closes
  have between : Text.slice body 0 close.offset = inner := by
    rw [split, position, Nat.zero_add, Text.slice_start]
  have here := standIn_records ⟨String.ofList keyword, String.ofList inner⟩
  rw [String.toList_ofList] at here
  rw [split] at ends
  rw [List.flatMap_cons, between]
  exact (here.append (rest.after ['}'])).of_suffix ends

theorem standIn_readSections (text : List Char) : StandIn ((readSections text).sections.flatMap Section.records) text := by
  fun_induction readSections text with
  | case1 | case2 | case4 | case5 => trivial
  | case3 text rest more keyword body opens present close closes later ih =>
    have opened : body <:+ text := by
      have inside : body <:+ rest.dropWhile isKeywordChar :=
        List.IsSuffix.trans ⟨['{'], opens.symm⟩ (List.dropWhile_suffix Text.isBlank)
      exact inside.trans ((List.dropWhile_suffix _).trans (List.dropWhile_suffix _))
    exact standIn_section opened closes ih

/-- Whatever is read is written back, in its order and as it stood, except for the records with too few columns and those
that a filter takes away by their numbers. -/
theorem render_keeps_survivors {text : List Char} {object : Object} (reads : readObject? text = some object)
    (single : object.Unambiguous) :
    StandIn (object.sections.flatMap Section.records) text ∧
    StandIn (object.sections.flatMap (Section.survivors fun _ => true)) object.render ∧
    (∀ part ∈ object.sections, (object.rewritten part).records = part.survivors fun _ => true) ∧
    ∀ ranges, StandIn (object.sections.flatMap (Section.survivors (keeps ranges))) (object.filterById ranges).render ∧
      ∀ part ∈ object.sections, ((object.filterById ranges).rewritten part).records = part.survivors (keeps ranges) := by
  obtain ⟨line, header, id, inside, -, -, -, ends, same⟩ := Object.exists_of_readObject? reads
  have readFrom := Object.readFrom_ofBody header.objectType id (Text.trim header.name) (readSections inside)
  have sections : object.sections = (readSections inside).sections := by
    have frame := Object.frame_ofBody header.objectType id (Text.trim header.name) (readSections inside)
    rw [← same] at frame
    exact congrArg (·.2.2.2.2.1) frame
  rw [← same, ← sections] at readFrom
  have written (stays : Option Int → Bool) :
      StandIn (object.sections.flatMap (Section.survivors stays)) (object.keeping stays).render ∧
      ∀ part ∈ object.sections, ((object.keeping stays).rewritten part).records = part.survivors stays := by
    have records := fun part => @Object.records_rewritten object readFrom single stays part
    refine ⟨?_, records⟩
    have stand := (object.keeping stays).standIn_render
    rwa [show (object.keeping stays).sections = object.sections from rfl, List.flatMap_congr records] at stand
  obtain ⟨stand, whole⟩ := written fun _ => true
  rw [object.keeping_all] at stand whole
  refine ⟨?_, stand, whole, fun ranges => written (keeps ranges)⟩
  rw [sections]
  exact (standIn_readSections inside).of_suffix ends

def remarkedFields : Section := ⟨"FIELDS", "\n    \x7b 1;;No;Code20 \x7d\n    \x7b obsolete \x7d\n  "⟩

def remarkedTable : List Char :=
  "OBJECT Table 7 Item".toList ++ '\n' :: '{' :: (['\n'] ++ ([remarkedFields].flatMap Section.text ++ tailText none))

private theorem remarkedFields_inner : remarkedFields.inner.toList = "\n    ".toList ++ ('{' :: " 1;;No;Code20 ".toList ++
    '}' :: ("\n    ".toList ++ ('{' :: " obsolete ".toList ++ '}' :: "\n  ".toList))) := rfl

private theorem remarkedFields_closed : remarkedFields.Closed := by
  have newline : Balanced "\n    ".toList := .of_not_mem (by decide) (by decide)
  have ending : Balanced "\n  ".toList := .of_not_mem (by decide) (by decide)
  have number : Balanced " 1;;No;Code20 ".toList := .of_not_mem (by decide) (by decide)
  have remark : Balanced " obsolete ".toList := .of_not_mem (by decide) (by decide)
  refine ⟨by decide, List.all_eq_true.1 rfl, ?_⟩
  rw [sectionDialect_records (.inl rfl), remarkedFields_inner]
  simpa using newline.append (number.braced.append (newline.append (remark.braced.append ending)))

theorem remarkedTable_loses_remark : ∃ object, readObject? remarkedTable = some object ∧ object.sections = [remarkedFields] ∧
    "\x7b obsolete \x7d".toList ∈ remarkedFields.records ∧
    "\x7b obsolete \x7d".toList ∉ (object.rewritten remarkedFields).records := by
  have header : Header.WellFormed ⟨['T', 'a', 'b', 'l', 'e'], ['7'], ['I', 't', 'e', 'm']⟩ :=
    ⟨nofun, List.all_eq_true.1 rfl, nofun, List.all_eq_true.1 rfl⟩
  have trimmed : Text.Trimmed ['I', 't', 'e', 'm'] := ⟨nofun, .cons (by decide) _, .cons (by decide) _⟩
  have closed : ∀ part ∈ [remarkedFields], part.Closed := by
    intro part member
    rw [List.mem_singleton.1 member]
    exact remarkedFields_closed
  have body := readSections_text closed stableTail_none blank_newline
  have reads := Object.readObject?_line header trimmed (by decide) (show Text.readInt64? ['7'] = some 7 from rfl)
    (['\n'] ++ ([remarkedFields].flatMap Section.text ++ tailText none))
  have frame := Object.frame_ofBody ['T', 'a', 'b', 'l', 'e'] 7 ['I', 't', 'e', 'm'] ⟨[remarkedFields], [], none⟩
  rw [body] at reads
  generalize Object.ofBody ['T', 'a', 'b', 'l', 'e'] 7 ['I', 't', 'e', 'm'] ⟨[remarkedFields], [], none⟩ = object
    at reads frame
  have sections : object.sections = [remarkedFields] := congrArg (·.2.2.2.2.1) frame
  have single : object.Unambiguous := by
    unfold Object.Unambiguous
    rw [sections]
    decide
  obtain ⟨-, -, written, -⟩ := render_keeps_survivors reads single
  refine ⟨object, reads, sections, ?_, ?_⟩
  · show _ ∈ recordsOf remarkedFields.inner.toList
    rw [recordsOf_eq, pieces, remarkedFields_inner, piecesAfter_append (by decide),
      piecesAfter_record (.of_not_mem (by decide) (by decide)), piecesAfter_append (by decide),
      piecesAfter_record (.of_not_mem (by decide) (by decide))]
    exact List.mem_cons_of_mem _ (List.mem_cons_self ..)
  · rw [written remarkedFields (by simp [sections])]
    intro kept
    exact absurd (List.mem_filter.1 kept).2 (by decide)

end Legacy

end SymbolCache
