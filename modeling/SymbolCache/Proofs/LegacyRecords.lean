import SymbolCache.Legacy.Printer
import SymbolCache.Proofs.TopLevelRecords

/-! Lists of records read back as they were written. A record is decided by its text, so reading
what was printed gives the same records, although they stand at other places. -/

namespace SymbolCache.Legacy
open Lexical
open Text (byteLength)

/-- A record as it stands in a section: its text and the blanks before it on its line. -/
structure Piece where
  text : List Char
  leading : List Char

def Indent (text : List Char) : Prop := (∀ c ∈ text, Text.isBlank c = true) ∧ '\n' ∉ text

theorem indent_lineIndent (before : List Char) : Indent (lineIndent before) := by
  simp only [lineIndent]
  split
  · rename_i blank
    exact ⟨List.all_eq_true.1 blank, Text.newline_not_mem_lastLine before⟩
  · exact ⟨nofun, nofun⟩

theorem lineIndent_newline {indent : List Char} (blank : Indent indent) (before : List Char) :
    lineIndent (before ++ '\n' :: indent) = indent := by
  have line : Text.lastLine (before ++ '\n' :: indent) = indent := by
    rw [List.append_cons, Text.lastLine_append blank.2, Text.lastLine_newline, List.nil_append]
  unfold lineIndent
  rw [line, if_pos (List.all_eq_true.2 blank.1)]

namespace Piece

structure WellFormed (piece : Piece) : Prop where
  braced : ∃ body, piece.text = '{' :: body ++ ['}'] ∧ Balanced body
  leading : Indent piece.leading

def line (piece : Piece) : List Char := piece.leading ++ piece.text ++ ['\n']

end Piece

/-- The record between two braces, by their offsets. -/
def pieceAt (inner : List Char) (braces : Nat × Nat) : Piece :=
  ⟨Text.slice inner braces.1 (braces.2 + 1), lineIndent (Text.slice inner 0 braces.1)⟩

/-- The records of a text that follows some other text of the same section. -/
def piecesAfter (before text : List Char) : List Piece :=
  (recordsFrom .outline (byteLength before) text).map (pieceAt (before ++ text))

def pieces (inner : List Char) : List Piece := piecesAfter [] inner

theorem piecesAfter_cons {c : Char} (other : c ≠ '{') (before rest : List Char) :
    piecesAfter before (c :: rest) = piecesAfter (before ++ [c]) rest := by
  unfold piecesAfter
  rw [recordsFrom_skip other, List.append_cons before c rest, Text.byteLength_append]
  simp [byteLength]

theorem piecesAfter_append {text : List Char} (absent : '{' ∉ text) (before rest : List Char) :
    piecesAfter before (text ++ rest) = piecesAfter (before ++ text) rest := by
  induction text generalizing before with
  | nil => simp
  | cons c text ih =>
    rw [List.mem_cons, not_or] at absent
    rw [List.cons_append, piecesAfter_cons (Ne.symm absent.1), ih absent.2, List.append_assoc, List.singleton_append]

theorem piecesAfter_unclosed {inside : List Char} (never : ¬ Closed inside) (before : List Char) :
    piecesAfter before ('{' :: inside) = [] := by
  rw [piecesAfter, recordsFrom_unclosed never, List.map_nil]

theorem piecesAfter_record {body : List Char} (balanced : Balanced body) (before rest : List Char) :
    piecesAfter before ('{' :: body ++ '}' :: rest) =
      ⟨'{' :: body ++ ['}'], lineIndent before⟩ :: piecesAfter (before ++ ('{' :: body ++ ['}'])) rest := by
  have length : byteLength ('{' :: body ++ ['}']) = 1 + byteLength body + 1 := by
    simp [byteLength, show '{'.utf8Size = 1 from rfl, show '}'.utf8Size = 1 from rfl, Nat.add_assoc]
  have position : byteLength before + 1 + byteLength body + 1 = byteLength before + byteLength ('{' :: body ++ ['}']) := by
    omega
  have whole : before ++ ('{' :: body ++ '}' :: rest) = before ++ ('{' :: body ++ ['}']) ++ rest := by simp
  have text := Text.slice_between before ('{' :: body ++ ['}']) rest
  have ahead := Text.slice_start before ('{' :: body ++ ['}'] ++ rest)
  rw [← List.append_assoc] at ahead
  rw [piecesAfter, recordsFrom_record (nested_iff.2 balanced)]
  simp only [List.map_cons, whole, pieceAt, position, ahead]
  rw [text, piecesAfter, Text.byteLength_append before]

/-- Every record is enclosed in braces, and what stands before it on its line is blank. -/
theorem wellFormed_of_mem_piecesAfter {before text : List Char} {piece : Piece}
    (member : piece ∈ piecesAfter before text) : piece.WellFormed := by
  induction text using records_induction generalizing before with
  | nil => simp [piecesAfter, recordsFrom] at member
  | skip c rest other ih =>
    rw [piecesAfter_cons other] at member
    exact ih member
  | unclosed inside never =>
    rw [piecesAfter_unclosed never] at member
    cases member
  | record body rest nested ih =>
    have balanced := nested_iff.1 nested
    rw [piecesAfter_record balanced] at member
    rcases List.mem_cons.1 member with same | later
    · rw [same]
      exact ⟨⟨body, rfl, balanced⟩, indent_lineIndent before⟩
    · exact ih later

/-! Printing records. -/

def Entry.piece (entry : Entry) : Piece := ⟨entry.verbatim.toList, entry.leading.toList⟩

theorem renderEntries_eq (entries : List Entry) (indent : List Char) :
    renderEntries entries indent = '\n' :: (entries.map Entry.piece).flatMap Piece.line ++ indent := by
  rw [renderEntries, List.flatMap_map]
  rfl

private theorem piecesAfter_lines {printed : List Piece} (wellFormed : ∀ piece ∈ printed, piece.WellFormed)
    {before indent : List Char} (fresh : ∃ earlier, before = earlier ++ ['\n']) (blank : Indent indent) :
    piecesAfter before (printed.flatMap Piece.line ++ indent) = printed := by
  induction printed generalizing before with
  | nil =>
    have none := piecesAfter_append (Text.not_mem_of_blank blank.1 (by decide)) before []
    simpa [piecesAfter, recordsFrom] using none
  | cons piece rest ih =>
    obtain ⟨⟨body, text, balanced⟩, leading⟩ := wellFormed piece (List.mem_cons_self ..)
    obtain ⟨earlier, rfl⟩ := fresh
    have shape : (piece :: rest).flatMap Piece.line ++ indent =
        piece.leading ++ ('{' :: body ++ '}' :: ('\n' :: (rest.flatMap Piece.line ++ indent))) := by
      simp [Piece.line, text]
    have later := ih (fun other inside => wellFormed other (List.mem_cons_of_mem _ inside))
      ⟨earlier ++ ['\n'] ++ piece.leading ++ ('{' :: body ++ ['}']), rfl⟩
    rw [shape, piecesAfter_append (Text.not_mem_of_blank leading.1 (by decide)), piecesAfter_record balanced,
      piecesAfter_cons (by decide), later, List.append_assoc, List.singleton_append, lineIndent_newline leading, ← text]

theorem pieces_renderEntries {entries : List Entry} (wellFormed : ∀ entry ∈ entries, entry.piece.WellFormed)
    {indent : List Char} (blank : Indent indent) :
    pieces (renderEntries entries indent) = entries.map Entry.piece := by
  have printed : ∀ piece ∈ entries.map Entry.piece, piece.WellFormed := by
    intro piece inside
    obtain ⟨entry, member, rfl⟩ := List.mem_map.1 inside
    exact wellFormed entry member
  rw [renderEntries_eq, pieces, List.cons_append, piecesAfter_cons (by decide)]
  exact piecesAfter_lines printed ⟨[], rfl⟩ blank

theorem balanced_renderEntries {entries : List Entry} (wellFormed : ∀ entry ∈ entries, entry.piece.WellFormed)
    {indent : List Char} (blank : Indent indent) : Balanced (renderEntries entries indent) := by
  have balancedBlank {text : List Char} (blank : ∀ c ∈ text, Text.isBlank c = true) : Balanced text :=
    .of_not_mem (Text.not_mem_of_blank blank (by decide)) (Text.not_mem_of_blank blank (by decide))
  have newline : Balanced ['\n'] := .of_not_mem (by decide) (by decide)
  have lines : Balanced ((entries.map Entry.piece).flatMap Piece.line) := by
    induction entries with
    | nil => rfl
    | cons entry rest ih =>
      obtain ⟨⟨body, text, balanced⟩, leading⟩ := wellFormed entry (List.mem_cons_self ..)
      have later := ih fun other inside => wellFormed other (List.mem_cons_of_mem _ inside)
      rw [List.map_cons, List.flatMap_cons, Piece.line, text]
      exact (((balancedBlank leading.1).append balanced.braced).append newline).append later
  rw [renderEntries_eq]
  exact (newline.append lines).append (balancedBlank blank.1)

/-- The indentation of the closing brace stays where it is. -/
theorem lineIndent_renderEntries {indent : List Char} (blank : Indent indent) (before : List Char)
    (entries : List Entry) : lineIndent (before ++ renderEntries entries indent) = indent := by
  have line : ∃ earlier, '\n' :: (entries.map Entry.piece).flatMap Piece.line = earlier ++ ['\n'] := by
    cases List.eq_nil_or_concat entries with
    | inl none => exact ⟨[], by rw [none]; rfl⟩
    | inr some =>
      obtain ⟨first, last, rfl⟩ := some
      exact ⟨'\n' :: (first.map Entry.piece).flatMap Piece.line ++ (last.piece.leading ++ last.piece.text),
        by simp [Piece.line]⟩
  obtain ⟨earlier, line⟩ := line
  rw [renderEntries_eq, line, List.append_assoc, List.singleton_append, ← List.append_assoc,
    lineIndent_newline blank]

theorem renderEntries_congr {first second : List Entry} (same : first.map Entry.piece = second.map Entry.piece)
    (indent : List Char) : renderEntries first indent = renderEntries second indent := by
  rw [renderEntries_eq, renderEntries_eq, same]

/-! Reading records of one kind. -/

def columnsOf (parts : Nat) (text : List Char) : List (List Char) := Text.splitFirst ';' parts (text.drop 1).dropLast

def RecordText.piece (record : RecordText) : Piece := ⟨record.text, record.leading⟩

theorem columns_of_mem_recordTexts {parts : Nat} {inner : List Char} {record : RecordText}
    (member : record ∈ recordTexts parts inner) : record.columns = columnsOf parts record.text := by
  obtain ⟨braces, -, rfl⟩ := List.mem_map.1 member
  rfl

theorem piece_recordTexts (parts : Nat) (inner : List Char) :
    (recordTexts parts inner).map RecordText.piece = pieces inner := by
  rw [recordTexts, List.map_map]
  rfl

/-- A kind of records: how one is read from its columns, and the facts about it that its text
decides wherever it stands. -/
structure RecordKind (α β : Type) where
  parts : Nat
  /-- Records with fewer columns do not count. -/
  minimum : Nat
  make : RecordText → α
  entryOf : α → Entry
  facts : α → β
  factsOf : List Char → β
  piece_make : ∀ record, (entryOf (make record)).piece = record.piece
  facts_make : ∀ record, record.columns = columnsOf parts record.text → facts (make record) = factsOf record.text

namespace RecordKind

variable {α β : Type} (kind : RecordKind α β)

def read (inner : List Char) : List α :=
  ((recordTexts kind.parts inner).filter fun record => kind.minimum ≤ record.columns.length).map kind.make

def isWide (piece : Piece) : Bool := kind.minimum ≤ (columnsOf kind.parts piece.text).length

def view (item : α) : β × Piece := (kind.facts item, (kind.entryOf item).piece)

/-- What reading can give. -/
structure Regular (item : α) : Prop where
  wellFormed : (kind.entryOf item).piece.WellFormed
  wide : kind.isWide (kind.entryOf item).piece = true
  facts : kind.facts item = kind.factsOf (kind.entryOf item).piece.text

theorem view_read (inner : List Char) :
    (kind.read inner).map kind.view = ((pieces inner).filter kind.isWide).map fun piece => (kind.factsOf piece.text, piece) := by
  rw [← piece_recordTexts kind.parts, read, List.map_map, List.filter_map, List.map_map]
  have same : ∀ record ∈ recordTexts kind.parts inner,
      decide (kind.minimum ≤ record.columns.length) = (kind.isWide ∘ RecordText.piece) record := by
    intro record member
    rw [columns_of_mem_recordTexts member]
    rfl
  rw [List.filter_congr same]
  apply List.map_congr_left
  intro record chosen
  have columns := columns_of_mem_recordTexts (List.mem_filter.1 chosen).1
  simp only [Function.comp_apply, view, kind.facts_make record columns, kind.piece_make]
  rfl

theorem regular_of_mem_read {inner : List Char} {item : α} (member : item ∈ kind.read inner) : kind.Regular item := by
  have viewed : kind.view item ∈ (kind.read inner).map kind.view := List.mem_map_of_mem member
  rw [view_read] at viewed
  obtain ⟨piece, chosen, same⟩ := List.mem_map.1 viewed
  obtain ⟨inside, wide⟩ := List.mem_filter.1 chosen
  have facts : kind.facts item = kind.factsOf piece.text := (congrArg Prod.fst same).symm
  have found : (kind.entryOf item).piece = piece := (congrArg Prod.snd same).symm
  exact ⟨found ▸ wellFormed_of_mem_piecesAfter inside, found ▸ wide, found ▸ facts⟩

variable {kind} in
theorem wellFormed_entries {items : List α} (regular : ∀ item ∈ items, kind.Regular item) :
    ∀ entry ∈ items.map kind.entryOf, entry.piece.WellFormed := by
  intro entry inside
  obtain ⟨item, member, rfl⟩ := List.mem_map.1 inside
  exact (regular item member).wellFormed

/-- Records that were read and printed again read the same. -/
theorem view_read_renderEntries {items : List α} (regular : ∀ item ∈ items, kind.Regular item) {indent : List Char}
    (blank : Indent indent) :
    (kind.read (renderEntries (items.map kind.entryOf) indent)).map kind.view = items.map kind.view := by
  have wide : ∀ piece ∈ (items.map kind.entryOf).map Entry.piece, kind.isWide piece = true := by
    intro piece inside
    obtain ⟨entry, there, rfl⟩ := List.mem_map.1 inside
    obtain ⟨item, member, rfl⟩ := List.mem_map.1 there
    exact (regular item member).wide
  rw [view_read, pieces_renderEntries (wellFormed_entries regular) blank, List.filter_eq_self.2 wide, List.map_map, List.map_map]
  apply List.map_congr_left
  intro item member
  simp only [Function.comp_apply, view, (regular item member).facts]

theorem renderEntries_congr_view {first second : List α} (same : first.map kind.view = second.map kind.view)
    (indent : List Char) : renderEntries (first.map kind.entryOf) indent = renderEntries (second.map kind.entryOf) indent := by
  have pieces := congrArg (List.map Prod.snd) same
  rw [List.map_map, List.map_map] at pieces
  apply renderEntries_congr
  rw [List.map_map, List.map_map]
  exact pieces

end RecordKind

def columnOf (parts : Nat) (text : List Char) (index : Nat) : List Char :=
  Text.trim ((columnsOf parts text).getD index [])

def fieldKind : RecordKind Field (Option Int × String × String) where
  parts := 5
  minimum := 4
  make record := { record.entry 5 with
    name := String.ofList (record.column 2)
    dataType := String.ofList (record.column 3) }
  entryOf := Field.toEntry
  facts field := (field.id, field.name, field.dataType)
  factsOf text := (Text.readInt64? (columnOf 5 text 0), String.ofList (columnOf 5 text 2),
    String.ofList (columnOf 5 text 3))
  piece_make record := by simp [Entry.piece, RecordText.entry, RecordText.piece]
  facts_make record columns := by simp [RecordText.entry, RecordText.column, columnOf, columns]

def controlKind : RecordKind Control (Option Int × Option Nat × String) where
  parts := 4
  minimum := 3
  make record := { record.entry 4 with
    indentation := record.number? 1
    type := String.ofList (record.column 2)
    sourceExpr := propertyValue? (record.entry 4).properties "SourceExpr" }
  entryOf := Control.toEntry
  facts control := (control.id, control.indentation, control.type)
  factsOf text := (Text.readInt64? (columnOf 4 text 0), Text.readNatBelow? (Nat.pow 2 32) (columnOf 4 text 1),
    String.ofList (columnOf 4 text 2))
  piece_make record := by simp [Entry.piece, RecordText.entry, RecordText.piece]
  facts_make record columns := by
    simp [RecordText.entry, RecordText.column, RecordText.number?, columnOf, columns]

def actionKind : RecordKind Action (Option Int × Option Nat × String) where
  parts := 4
  minimum := 3
  make record := { record.entry 4 with
    level := record.number? 1
    type := String.ofList (record.column 2) }
  entryOf := Action.toEntry
  facts action := (action.id, action.level, action.type)
  factsOf text := (Text.readInt64? (columnOf 4 text 0), Text.readNatBelow? (Nat.pow 2 32) (columnOf 4 text 1),
    String.ofList (columnOf 4 text 2))
  piece_make record := by simp [Entry.piece, RecordText.entry, RecordText.piece]
  facts_make record columns := by
    simp [RecordText.entry, RecordText.column, RecordText.number?, columnOf, columns]

end SymbolCache.Legacy
