import SymbolCache.Object.Kind
import SymbolCache.Source.Name

/-!
Declarations of modern source units: kind, optional id, name and optional extended object. Only
the first word after namespaces, imports and directives counts.
-/

namespace SymbolCache.Source

structure Declaration where
  kind : ObjectKind
  id : Option Int
  name : String
  extends? : Option String
  /-- Byte offset just past the declaration. -/
  endOffset : Nat
  deriving DecidableEq, Repr

def startsWithKeyword (keyword text : List Char) : Bool :=
  match Text.stripWord? keyword text with
  | some rest => rest.head?.any Text.isBlank
  | none => false

/-- The character that ends the preamble statement a text starts with. -/
def statementEnd? (text : List Char) : Option Char :=
  if text.head? == some '#' then some '\n'
  else if startsWithKeyword "namespace".toList text || startsWithKeyword "using".toList text then
    some ';'
  else none

def dropPreamble (text : List Char) : List Char :=
  let rest := Text.trimStart text
  match statementEnd? rest with
  | none => rest
  | some terminator =>
    match _cut : Text.cutAt? terminator rest with
    | some (_, after) => dropPreamble after
    | none => []
termination_by text.length
decreasing_by
  have shorter : after.length < rest.length := Text.length_lt_of_cutAt? _cut
  have outer : rest.length ≤ text.length := (List.dropWhile_suffix _).length_le
  omega

def extendsClause? (text : List Char) : Option (List Char × List Char) := do
  let (_, rest) ← Text.run? Text.isSpaceOrTab text
  let rest ← Text.stripFolded? "extends".toList rest
  let (_, rest) ← Text.run? Text.isSpaceOrTab rest
  name? rest

def leadingId? (text : List Char) : Option (List Char × List Char) := do
  let (digits, rest) ← Text.run? Text.isDigit text
  let (_, rest) ← Text.run? Text.isSpaceOrTab rest
  return (digits, rest)

/-- Reads the declaration of a unit whose comments are blanked out. -/
def declaration? (text : List Char) : Option Declaration := do
  let start := dropPreamble text
  let (keyword, rest) ← Text.run? Text.isLetter start
  let kind ← ObjectKind.parse? keyword
  let (_, rest) ← Text.run? Text.isSpaceOrTab rest
  let (id, rest) := match leadingId? rest with
    | some (digits, rest) => (Text.readInt64? digits, rest)
    | none => (none, rest)
  let (name, rest) ← name? rest
  let (target, rest) := match extendsClause? rest with
    | some (target, rest) => (some (String.ofList target), rest)
    | none => (none, rest)
  return ⟨kind, id, String.ofList name, target, Text.byteLength text - Text.byteLength rest⟩

end SymbolCache.Source
