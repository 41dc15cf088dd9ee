import SymbolCache.Json.Value

/-!
Writing JSON, on one line or indented by two spaces.
-/

namespace SymbolCache.Json

/-- Floats are positional from the fifth place after the point up to sixteen digits before it. -/
def floatFormat : Decimal.Format := ⟨(-5, 15), "+"⟩

def renderFloat (value : Binary64) : String :=
  if value.magnitude ≥ Binary64.infinity then "null"
  else
    let sign := if value.negative then "-" else ""
    if value.magnitude = 0 then sign ++ "0.0"
    else sign ++ (Decimal.shortest value.magnitude).render floatFormat

/-- The escape of one character inside quotes. -/
def escapeChar (c : Char) : List Char :=
  if c == '"' then ['\\', '"']
  else if c == '\\' then ['\\', '\\']
  else if c == '\n' then ['\\', 'n']
  else if c == '\r' then ['\\', 'r']
  else if c == '\t' then ['\\', 't']
  else if c.toNat == 8 then ['\\', 'b']
  else if c.toNat == 12 then ['\\', 'f']
  else if c.toNat < 32 then
    ['\\', 'u', '0', '0', Nat.digitChar (c.toNat / 16), Nat.digitChar (c.toNat % 16)]
  else [c]

def quoted (text : String) : List Char := '"' :: text.toList.flatMap escapeChar ++ ['"']

def scalar : Json → List Char
  | .null => "null".toList
  | .bool true => "true".toList
  | .bool false => "false".toList
  | .int value => (toString value).toList
  | .float value => (renderFloat value).toList
  | .text value => quoted value
  | _ => "null".toList

mutual

def compactChars : Json → List Char
  | .array items => '[' :: compactItems true items ++ [']']
  | .object entries => '{' :: compactEntries true entries ++ ['}']
  | value => scalar value

def compactItems (first : Bool) : List Json → List Char
  | [] => []
  | item :: rest => (if first then [] else [',']) ++ compactChars item ++ compactItems false rest

def compactEntries (first : Bool) : List (String × Json) → List Char
  | [] => []
  | (key, item) :: rest => (if first then [] else [',']) ++ quoted key ++ ':' :: compactChars item ++
      compactEntries false rest

end

mutual

/-- Characters of the indented form; `margin` is the indentation of the line it starts on. -/
def prettyChars (margin : Nat) : Json → List Char
  | .array [] => ['[', ']']
  | .object [] => ['{', '}']
  | .array items =>
    '[' :: prettyItems (margin + 2) true items ++ '\n' :: List.replicate margin ' ' ++ [']']
  | .object entries =>
    '{' :: prettyEntries (margin + 2) true entries ++ '\n' :: List.replicate margin ' ' ++ ['}']
  | value => scalar value

def prettyItems (margin : Nat) (first : Bool) : List Json → List Char
  | [] => []
  | item :: rest => (if first then [] else [',']) ++ '\n' :: List.replicate margin ' ' ++
      prettyChars margin item ++ prettyItems margin false rest

def prettyEntries (margin : Nat) (first : Bool) : List (String × Json) → List Char
  | [] => []
  | (key, item) :: rest => (if first then [] else [',']) ++ '\n' :: List.replicate margin ' ' ++
      quoted key ++ ':' :: ' ' :: prettyChars margin item ++ prettyEntries margin false rest

end

def compact (value : Json) : String := String.ofList (compactChars value)

def pretty (value : Json) : String := String.ofList (prettyChars 0 value)

end SymbolCache.Json
