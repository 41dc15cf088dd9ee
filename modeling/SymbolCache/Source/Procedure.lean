import SymbolCache.Object.Record
import SymbolCache.Legacy.Reader
import SymbolCache.Source.Name

/-!
Exported procedures of a source unit. A header opens a procedure, the lines after it belong to its
parameter list until that is closed, and local procedures are left out.
-/

namespace SymbolCache.Source

structure ProcedureHeader where
  isLocal : Bool
  name : List Char
  rest : List Char
  deriving DecidableEq, Repr

/-- Reads `procedure name(`, with an optional number behind an at sign after the name. -/
def procedureName? (text : List Char) : Option (List Char × List Char) := do
  let rest ← Text.stripFolded? "procedure".toList text
  let (_, rest) ← Text.run? Text.isBlank rest
  let (name, rest) ← name? rest
  let rest := match rest with
    | '@' :: after => ((Text.run? Text.isDigit after).map Prod.snd).getD rest
    | _ => rest
  let rest ← Text.expect? '(' (Text.trimStart rest)
  return (name, rest)

def modifier? (text : List Char) : Option (List Char × List Char) := do
  let (word, rest) ← Text.run? Text.isLetter text
  let (_, rest) ← Text.run? Text.isBlank rest
  return (word, rest)

/-- Reads as few modifiers as possible and then a procedure name. -/
def headerAfter? (isLocal : Bool) : Nat → List Char → Option ProcedureHeader
  | 0, _ => none
  | fuel + 1, text =>
    match procedureName? text with
    | some (name, rest) => some ⟨isLocal, name, rest⟩
    | none => match modifier? text with
      | some (word, rest) => headerAfter? (isLocal || Text.sameWord word "local".toList) fuel rest
      | none => none

def procedureHeader? (line : List Char) : Option ProcedureHeader :=
  headerAfter? false (line.length + 1) (Text.trimStart line)

structure OpenProcedure where
  name : List Char
  parameters : List Char
  closed : Bool
  returnType : Option (List Char)
  deriving DecidableEq, Repr

/-- Divides a text at the parenthesis that closes the parameter list; quoted text and inner
parentheses do not count. -/
def closingParen? (depth : Nat) (quote : Option Char) : List Char → Option (List Char × List Char)
  | [] => none
  | c :: rest =>
    let continueWith (depth : Nat) (quote : Option Char) :=
      (closingParen? depth quote rest).map fun (before, after) => (c :: before, after)
    match quote with
    | some q => continueWith depth (if c == q then none else some q)
    | none =>
      if c == '"' || c == '\'' then continueWith depth (some c)
      else if c == '(' then continueWith (depth + 1) none
      else if c == ')' then
        match depth with
        | 0 => some ([], rest)
        | outer + 1 => continueWith outer none
      else continueWith depth none

def returnType? (rest : List Char) : Option (List Char) := do
  let (_, after) ← Text.cutAt? ':' rest
  let upToEnd := (Text.trim after).takeWhile (· != ';')
  let type := Text.squeeze upToEnd
  if type.isEmpty then none else return type

namespace OpenProcedure

def addParameters (procedure : OpenProcedure) (text : List Char) : OpenProcedure :=
  let gap := if procedure.parameters.isEmpty then [] else [' ']
  { procedure with parameters := procedure.parameters ++ gap ++ Text.trim text }

def feed (procedure : OpenProcedure) (text : List Char) : OpenProcedure :=
  match closingParen? 0 none text with
  | some (before, after) =>
    { procedure.addParameters before with closed := true, returnType := returnType? after }
  | none => procedure.addParameters text

def finish (procedure : OpenProcedure) : ProcedureRecord :=
  { name := String.ofList procedure.name
    parameters := (((Text.splitAt ';' procedure.parameters).map Text.squeeze).filter
      fun parameter => !parameter.isEmpty).map String.ofList
    returnType := procedure.returnType.map String.ofList }

end OpenProcedure

/-- Procedures found so far, and the one whose header came last. -/
structure ProcedureScan where
  finished : List ProcedureRecord
  current : Option OpenProcedure

namespace ProcedureScan

def records (scan : ProcedureScan) : List ProcedureRecord :=
  scan.finished ++ scan.current.toList.map OpenProcedure.finish

def step (scan : ProcedureScan) (line : List Char) : ProcedureScan :=
  match procedureHeader? line with
  | some header =>
    let opened : OpenProcedure := ⟨header.name, [], false, none⟩
    ⟨scan.records, if header.isLocal then none else some (opened.feed header.rest)⟩
  | none => match scan.current with
    | some procedure =>
      if procedure.closed then scan else { scan with current := some (procedure.feed line) }
    | none => scan

end ProcedureScan

def proceduresOfLines (lines : List (List Char)) : List ProcedureRecord :=
  (lines.foldl ProcedureScan.step ⟨[], none⟩).records

/-- The text in which the procedures of a unit stand, comments blanked out. -/
def procedureText (text : List Char) : List Char :=
  if Legacy.isLegacy text then
    match (Legacy.readObject? text).bind Legacy.Object.code with
    | some code => Lexical.stripComments .legacyCode code.toList
    | none => []
  else Lexical.stripComments .modern text

def procedures (text : List Char) : List ProcedureRecord :=
  proceduresOfLines (Text.lines (procedureText text))

end SymbolCache.Source
