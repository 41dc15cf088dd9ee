import SymbolCache.Lexical.Block
import SymbolCache.Source.Name

/-!
Properties and fields in the body of a modern source unit.
-/

namespace SymbolCache.Source

/-- The characters at brace depth one of the first block, along a scan. -/
def objectLevelChars (depth : Nat) : List Lexical.Mark → List Char
  | [] => []
  | mark :: rest =>
    if mark.isNormal && mark.char == '{' then objectLevelChars (depth + 1) rest
    else if mark.isNormal && mark.char == '}' then
      if depth ≤ 1 then [] else objectLevelChars (depth - 1) rest
    else if depth = 1 then mark.char :: objectLevelChars depth rest
    else objectLevelChars depth rest

/-- The text of an object's own properties, without nested sections. -/
def objectLevelText (text : List Char) : List Char :=
  objectLevelChars 0 (Lexical.marks .modern text)

def fieldName? (text : List Char) : Option (List Char × List Char) := do
  let rest ← Text.stripFolded? "field".toList text
  let rest ← Text.expect? '(' (Text.trimStart rest)
  let (_, rest) ← Text.run? Text.isDigit (Text.trimStart rest)
  let rest ← Text.expect? ';' (Text.trimStart rest)
  let (name, rest) ← name? (Text.trimStart rest)
  let rest ← Text.expect? ';' (Text.trimStart rest)
  return (name, rest)

def sourceTableValue? (text : List Char) : Option (List Char × List Char) := do
  let rest ← Text.stripFolded? "sourcetable".toList text
  let rest ← Text.expect? '=' (Text.trimStart rest)
  let (name, rest) ← name? (Text.trimStart rest)
  let rest ← Text.expect? ';' (Text.trimStart rest)
  return (name, rest)

def captionValue? (text : List Char) : Option (List Char × List Char) := do
  let rest ← Text.stripFolded? "caption".toList text
  let rest ← Text.expect? '=' (Text.trimStart rest)
  let rest ← Text.expect? '\'' (Text.trimStart rest)
  let (content, rest) ← quotedText? '\'' rest
  return (Text.halve '\'' content, rest)

def dataItemName? (text : List Char) : Option (List Char × List Char) := do
  let rest ← Text.stripFolded? "dataitem".toList text
  let rest ← Text.expect? '(' (Text.trimStart rest)
  let (name, rest) ← name? (Text.trimStart rest)
  let rest ← Text.expect? ';' (Text.trimStart rest)
  return (name, rest)

def fieldNames (text : List Char) : List String :=
  (occurrences fieldName? none text).map String.ofList

/-- Table that an object names as its source. -/
def sourceTable? (text : List Char) : Option String :=
  (occurrences sourceTableValue? none (objectLevelText text)).head?.map String.ofList

def caption? (text : List Char) : Option String :=
  (occurrences captionValue? none (objectLevelText text)).head?.map String.ofList

def dataItems (text : List Char) : List String :=
  (occurrences dataItemName? none text).map String.ofList

end SymbolCache.Source
