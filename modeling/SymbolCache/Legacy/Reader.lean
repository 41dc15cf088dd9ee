import SymbolCache.Legacy.Header
import SymbolCache.Legacy.Property

/-!
Reading legacy objects from text.
-/

namespace SymbolCache.Legacy

structure RecordText where
  text : List Char
  leading : List Char
  columns : List (List Char)
  /-- Column of the line at which the last column of the record starts. -/
  lastColumn : Nat

def lineIndent (before : List Char) : List Char :=
  let start := Text.lastLine before
  if start.all Text.isBlank then start else []

/-- Length in bytes of the part of a record before its last column. -/
def lastColumnOffset (parts : Nat) (columns : List (List Char)) : Nat :=
  if columns.length = parts then
    columns.dropLast.foldl (fun offset column => offset + Text.byteLength column + 1) 1
  else 1

def recordTexts (parts : Nat) (inner : List Char) : List RecordText :=
  (Lexical.records .outline inner).map fun (opening, closing) =>
    let text := Text.slice inner opening (closing + 1)
    let columns := Text.splitFirst ';' parts (text.drop 1).dropLast
    { text, columns
      leading := lineIndent (Text.slice inner 0 opening)
      lastColumn := (Text.lastLine
        (Text.slice inner 0 (opening + lastColumnOffset parts columns))).length }

namespace RecordText

def column (record : RecordText) (index : Nat) : List Char :=
  Text.trim (record.columns.getD index [])

def lists (record : RecordText) (parts : Nat) : List Property × List Trigger :=
  match record.columns[parts - 1]? with
  | some text => propertyList record.lastColumn text
  | none => ([], [])

def entry (record : RecordText) (parts : Nat) : Entry :=
  let (properties, triggers) := record.lists parts
  { id := Text.readInt64? (record.column 0), properties, triggers
    verbatim := String.ofList record.text
    leading := String.ofList record.leading }

def number? (record : RecordText) (index : Nat) : Option Nat :=
  Text.readNatBelow? (Nat.pow 2 32) (record.column index)

end RecordText

def readFields (inner : List Char) : List Field :=
  ((recordTexts 5 inner).filter fun record => 4 ≤ record.columns.length).map fun record =>
    { record.entry 5 with
      name := String.ofList (record.column 2)
      dataType := String.ofList (record.column 3) }

def readControls (inner : List Char) : List Control :=
  ((recordTexts 4 inner).filter fun record => 3 ≤ record.columns.length).map fun record =>
    let entry := record.entry 4
    { entry with
      indentation := record.number? 1
      type := String.ofList (record.column 2)
      sourceExpr := propertyValue? entry.properties "SourceExpr" }

def readActions (inner : List Char) : List Action :=
  match Lexical.locate .outline "ACTIONS".toList inner with
  | .found block =>
    ((recordTexts 4 (block.inner inner)).filter fun record => 3 ≤ record.columns.length).map
      fun record =>
        { record.entry 4 with
          level := record.number? 1
          type := String.ofList (record.column 2) }
  | _ => []

/-- Divides a code section into code and the documentation in a closing `BEGIN { } END.` -/
def splitCode (inner : List Char) : List Char × Option (List Char) :=
  let documentation := do
    let position ← (Lexical.keywordPositions .legacyCode "BEGIN".toList inner).getLast?
    let rest ← Text.dropBytes (position + 5) inner
    let body ← Text.expect? '{' (Text.trimStart rest)
    let (text, after) ← Text.cutAt? '}' body
    if startsWithWord "END".toList (Text.trimStart after) then
      return (Text.slice inner 0 position, text)
    else none
  match documentation with
  | some (code, text) => (code, some text)
  | none => (inner, none)

/-- Sections of a body, the ones that never close, and the text that was not read. -/
structure Body where
  sections : List Section
  malformed : List String
  unread : Option String

def isKeywordChar (c : Char) : Bool := c.isAlphanum || c == '-' || c == '_'

/-- Code is scanned in its own dialect, every other section by braces only. -/
def sectionDialect (keyword : List Char) : Lexical.Dialect :=
  if Text.sameWord keyword "CODE".toList then .legacyCode else .outline

theorem trimStart_length_le (text : List Char) : (Text.trimStart text).length ≤ text.length :=
  (List.dropWhile_suffix _).length_le

def readSections (text : List Char) : Body :=
  let rest := Text.trimStart text
  if rest.isEmpty || rest.head? == some '}' then ⟨[], [], none⟩
  else
    let unread := some (String.ofList (Text.trimEnd rest))
    let keyword := rest.takeWhile isKeywordChar
    match _opens : Text.trimStart (rest.dropWhile isKeywordChar) with
    | '{' :: body =>
      if keyword.isEmpty then ⟨[], [], unread⟩
      else
        match _closes : Lexical.closingBrace? 0
            (Lexical.marksFrom (sectionDialect keyword) .normal 0 body) with
        | some close =>
          let later := readSections close.rest
          { later with
            sections := ⟨String.ofList keyword, String.ofList (Text.slice body 0 close.offset)⟩ ::
              later.sections }
        | none => ⟨[], [String.ofList keyword], unread⟩
    | _ => ⟨[], [], unread⟩
termination_by text.length
decreasing_by
  have shorter := Lexical.rest_length_lt_of_closingBrace? _closes
  have opens := congrArg List.length _opens
  have outer : rest.length ≤ text.length := trimStart_length_le text
  have inner := trimStart_length_le (rest.dropWhile isKeywordChar)
  have word := (List.dropWhile_suffix isKeywordChar (l := rest)).length_le
  simp only [List.length_cons] at opens
  omega

def Object.readSection (object : Object) (part : Section) : Object :=
  let inner := part.inner.toList
  match part.kind with
  | .objectProperties => { object with objectProperties := (propertyList 0 inner).1 }
  | .properties =>
    let (properties, triggers) := propertyList 0 inner
    { object with properties, triggers, actions := readActions inner }
  | .fields => { object with fields := readFields inner }
  | .controls => { object with controls := readControls inner }
  | .code =>
    let (code, documentation) := splitCode inner
    { object with
      code := some (String.ofList code)
      documentation := documentation.map String.ofList }
  | .other => object

/-- Reads the first object of a text; none when there is no header or its id does not fit. -/
def readObject? (text : List Char) : Option Object := do
  let (header, following) ← firstHeader? (Text.splitAt '\n' text)
  let id ← Text.readInt64? header.digits
  let body := match Text.cutAt? '{' (joinLines following) with
    | some (_, inside) => readSections inside
    | none => ⟨[], [], none⟩
  let object : Object :=
    { objectType := String.ofList header.objectType, id
      name := String.ofList (Text.trim header.name)
      objectProperties := [], properties := [], triggers := []
      fields := [], controls := [], actions := [], code := none, documentation := none
      malformedSections := body.malformed, sections := body.sections, unreadTail := body.unread }
  return body.sections.foldl Object.readSection object

end SymbolCache.Legacy
