import SymbolCache.Text.Basic

/-!
Header lines `OBJECT type id name` of legacy objects, and the cutting of an export at its headers.
-/

namespace SymbolCache.Legacy

structure Header where
  objectType : List Char
  digits : List Char
  name : List Char
  deriving DecidableEq, Repr

def isTrailing (c : Char) : Bool := Text.isSpaceOrTab c || c == '\r'

/-- The rest of a header line as a name: without what trails it, but never empty. The blanks
before the name give up their last one when nothing else is left. -/
def headerName? (text : List Char) : Option (List Char) :=
  let gap := text.takeWhile Text.isSpaceOrTab
  let content := text.dropWhile Text.isSpaceOrTab
  match content with
  | c :: _ =>
    let name := Text.dropEndWhile isTrailing content
    if gap.isEmpty then none else some (if name.isEmpty then [c] else name)
  | [] => match gap.reverse with
    | last :: _ :: _ => some [last]
    | _ => none

def header? (line : List Char) : Option Header := do
  let rest ← Text.stripStart? "OBJECT".toList (line.dropWhile Text.isSpaceOrTab)
  let (_, rest) ← Text.run? Text.isSpaceOrTab rest
  let (objectType, rest) ← Text.run? Char.isAlpha rest
  let (_, rest) ← Text.run? Text.isSpaceOrTab rest
  let (digits, rest) ← Text.run? Text.isDigit rest
  let name ← headerName? rest
  return ⟨objectType, digits, name⟩

def isHeader (line : List Char) : Bool := (header? line).isSome

def firstHeader? : List (List Char) → Option (Header × List (List Char))
  | [] => none
  | line :: rest => match header? line with
    | some header => some (header, rest)
    | none => firstHeader? rest

/-- Groups of lines that each start with a header, and the lines before the first one. -/
def groupByHeader : List (List Char) → List (List Char) × List (List (List Char))
  | [] => ([], [])
  | line :: rest =>
    let (before, groups) := groupByHeader rest
    if isHeader line then ([], (line :: before) :: groups) else (line :: before, groups)

def joinLines (lines : List (List Char)) : List Char := ['\n'].intercalate lines

def splitObjects (text : List Char) : List (List Char) :=
  let groups := (groupByHeader (Text.splitAt '\n' text)).2
  groups.dropLast.map (fun group => joinLines group ++ ['\n']) ++
    groups.getLast?.toList.map joinLines

def sectionKeywords : List String :=
  ["OBJECT-PROPERTIES", "PROPERTIES", "FIELDS", "CONTROLS", "CODE"]

/-- Whether a text is a legacy export: it has a header and a section keyword on a line of its
own. -/
def isLegacy (text : List Char) : Bool :=
  (Text.splitAt '\n' text).any isHeader &&
    (Text.lines text).any fun line => sectionKeywords.contains (String.ofList (Text.trim line))

end SymbolCache.Legacy
