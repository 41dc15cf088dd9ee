import SymbolCache.Json.Value

/-!
Reading JSON. Numbers without point and exponent are integers while they fit 64 bits; all others
are floats, computed from at most nineteen digits and a power of ten.
-/

namespace SymbolCache.Json

def isSpace (c : Char) : Bool := c == ' ' || c == '\n' || c == '\t' || c == '\r'

def skipSpace (input : List Char) : List Char := input.dropWhile isSpace

def maxWord : Nat := Nat.pow 2 64 - 1

def digitValue (c : Char) : Nat := c.toNat - '0'.toNat

/-- Appends decimal digits to a number for as long as it fits 64 bits. Returns the number and the
digits that did not fit. -/
def takeDigits (number : Nat) : List Char → Nat × List Char
  | [] => (number, [])
  | c :: rest =>
    let longer := 10 * number + digitValue c
    if longer ≤ maxWord then takeDigits longer rest else (number, c :: rest)

/-- Scales a magnitude by a power of ten in steps of at most 308 places; `none` when the result is
too large. -/
def scaleByTen (magnitude : Nat) (exponent : Int) : Nat → Option Nat
  | 0 => some 0
  | fuel + 1 =>
    if exponent.natAbs ≤ 308 then
      let power := Binary64.ofRatio (Nat.pow 10 exponent.natAbs) 1
      if 0 ≤ exponent then
        let scaled := Binary64.mul magnitude power
        if scaled ≥ Binary64.infinity then none else some scaled
      else some (Binary64.div magnitude power)
    else if magnitude = 0 then some 0
    else if 0 ≤ exponent then none
    else scaleByTen (Binary64.div magnitude (Binary64.ofRatio (Nat.pow 10 308) 1)) (exponent + 308) fuel

def floatOf (negative : Bool) (significand : Nat) (exponent : Int) : Json :=
  match scaleByTen (Binary64.ofRatio significand 1) exponent 8 with
  | some magnitude => .float ⟨negative, magnitude⟩
  | none => .unrepresentable

def readExponent (input : List Char) : Option (Bool × List Char × List Char) :=
  let (positive, rest) := match input with
    | '+' :: rest => (true, rest)
    | '-' :: rest => (false, rest)
    | rest => (true, rest)
  let digits := rest.takeWhile Char.isDigit
  if digits.isEmpty then none else some (positive, digits, rest.dropWhile Char.isDigit)

/-- Value of a number with an exponent, `places` being the power of ten before it. -/
def withExponent (negative : Bool) (significand : Nat) (places : Int) (positive : Bool)
    (digits : List Char) : Json :=
  let exponent := digits.foldl (fun n c => 10 * n + digitValue c) 0
  if exponent > Nat.pow 2 31 - 1 then
    if significand ≠ 0 && positive then .unrepresentable else .float ⟨negative, 0⟩
  else floatOf negative significand (if positive then places + exponent else places - exponent)

def readNumber (negative : Bool) (input : List Char) : Option (Json × List Char) :=
  let whole := input.takeWhile Char.isDigit
  let rest := input.dropWhile Char.isDigit
  if whole.isEmpty || (whole.head? == some '0' && whole.length > 1) then none
  else
    let (significand, excess) := takeDigits 0 whole
    match rest with
    | '.' :: after =>
      let fraction := after.takeWhile Char.isDigit
      let rest := after.dropWhile Char.isDigit
      if fraction.isEmpty then none
      else
        let (significand, dropped) := takeDigits significand fraction
        let places : Int := (excess.length : Int) - (fraction.length - dropped.length : Nat)
        match rest with
        | 'e' :: after | 'E' :: after => do
          let (positive, digits, rest) ← readExponent after
          return (withExponent negative significand places positive digits, rest)
        | _ => some (floatOf negative significand places, rest)
    | 'e' :: after | 'E' :: after => do
      let (positive, digits, rest) ← readExponent after
      return (withExponent negative significand excess.length positive digits, rest)
    | _ =>
      if !excess.isEmpty then some (floatOf negative significand excess.length, rest)
      else if !negative then some (.int significand, rest)
      else if significand = 0 || significand > Nat.pow 2 63 then
        some (.float ⟨true, Binary64.ofRatio significand 1⟩, rest)
      else some (.int (-(significand : Int)), rest)

def hexValue? (c : Char) : Option Nat :=
  if c.isDigit then some (c.toNat - '0'.toNat)
  else if 'a' ≤ c && c ≤ 'f' then some (c.toNat - 'a'.toNat + 10)
  else if 'A' ≤ c && c ≤ 'F' then some (c.toNat - 'A'.toNat + 10)
  else none

def hexUnit? (a b c d : Char) : Option Nat := do
  return 4096 * (← hexValue? a) + 256 * (← hexValue? b) + 16 * (← hexValue? c) + (← hexValue? d)

inductive Unit16 where
  | char (c : Char)
  | high (unit : Nat)
  | low (unit : Nat)

/-- Reads a quoted string after its opening quote into units and the text after its end. -/
def readUnits : List Char → Option (List Unit16 × List Char)
  | [] => none
  | '"' :: rest => some ([], rest)
  | '\\' :: 'u' :: a :: b :: c :: d :: rest => do
    let unit ← hexUnit? a b c d
    let (units, after) ← readUnits rest
    let first := if 0xD800 ≤ unit && unit < 0xDC00 then Unit16.high unit
      else if 0xDC00 ≤ unit && unit < 0xE000 then .low unit
      else .char (Char.ofNat unit)
    return (first :: units, after)
  | '\\' :: c :: rest => do
    let char ← match c with
      | '"' => some '"'
      | '\\' => some '\\'
      | '/' => some '/'
      | 'b' => some (Char.ofNat 8)
      | 'f' => some (Char.ofNat 12)
      | 'n' => some '\n'
      | 'r' => some '\r'
      | 't' => some '\t'
      | _ => none
    let (units, after) ← readUnits rest
    return (.char char :: units, after)
  | c :: rest =>
    if c.toNat < 32 || c == '\\' then none
    else do
      let (units, after) ← readUnits rest
      return (.char c :: units, after)

/-- Joins surrogate pairs; `none` when a half stands alone. -/
def joinUnits : List Unit16 → Option (List Char)
  | [] => some []
  | .char c :: rest => (joinUnits rest).map (c :: ·)
  | .high h :: .low l :: rest =>
    (joinUnits rest).map (Char.ofNat (0x10000 + (h - 0xD800) * 0x400 + (l - 0xDC00)) :: ·)
  | .high _ :: _ => none
  | .low _ :: _ => none

/-- Reads a quoted string; the text is `none` when it has a half surrogate pair. -/
def readString (input : List Char) : Option (Option String × List Char) := do
  let (units, rest) ← readUnits input
  return ((joinUnits units).map String.ofList, rest)

/-- An object, unless one of its keys has no value. -/
def objectOf (entries : List (Option String × Json)) : Json :=
  match entries.mapM fun (key, value) => key.map fun k => (k, value) with
  | some named => .object named
  | none => .unrepresentable

mutual

def readValue : Nat → List Char → Option (Json × List Char)
  | 0, _ => none
  | fuel + 1, input =>
    match skipSpace input with
    | 'n' :: 'u' :: 'l' :: 'l' :: rest => some (.null, rest)
    | 't' :: 'r' :: 'u' :: 'e' :: rest => some (.bool true, rest)
    | 'f' :: 'a' :: 'l' :: 's' :: 'e' :: rest => some (.bool false, rest)
    | '"' :: rest => do
      let (content, rest) ← readString rest
      return (match content with
        | some value => .text value
        | none => .unrepresentable, rest)
    | '-' :: rest => readNumber true rest
    | '[' :: rest =>
      match skipSpace rest with
      | ']' :: rest => some (.array [], rest)
      | rest => do
        let (items, rest) ← readItems fuel rest
        return (.array items, rest)
    | '{' :: rest =>
      match skipSpace rest with
      | '}' :: rest => some (.object [], rest)
      | rest => do
        let (entries, rest) ← readEntries fuel rest
        return (objectOf entries, rest)
    | rest => readNumber false rest

def readItems : Nat → List Char → Option (List Json × List Char)
  | 0, _ => none
  | fuel + 1, input => do
    let (item, rest) ← readValue fuel input
    match skipSpace rest with
    | ',' :: rest =>
      let (items, rest) ← readItems fuel rest
      return (item :: items, rest)
    | ']' :: rest => return ([item], rest)
    | _ => none

def readEntries : Nat → List Char → Option (List (Option String × Json) × List Char)
  | 0, _ => none
  | fuel + 1, input =>
    match skipSpace input with
    | '"' :: rest => do
      let (key, rest) ← readString rest
      match skipSpace rest with
      | ':' :: rest =>
        let (item, rest) ← readValue fuel rest
        match skipSpace rest with
        | ',' :: rest =>
          let (entries, rest) ← readEntries fuel rest
          return ((key, item) :: entries, rest)
        | '}' :: rest => return ([(key, item)], rest)
        | _ => none
      | _ => none
    | _ => none

end

def parse? (input : List Char) : Option Json := do
  let (value, rest) ← readValue (2 * input.length + 2) input
  if (skipSpace rest).isEmpty then return value else none

end SymbolCache.Json
