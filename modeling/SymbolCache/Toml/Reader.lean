import SymbolCache.Json.Reader
import SymbolCache.Toml.Document
import SymbolCache.Text.Utf8

/-!
Reading TOML. Dates and times are accepted and have no value of their own.
-/

namespace SymbolCache.Toml

abbrev Reader (α : Type) := List Char → Option (α × List Char)

def isGap (c : Char) : Bool := c == ' ' || c == '\t'

def skipGap (input : List Char) : List Char := input.dropWhile isGap

def isCommentChar (c : Char) : Bool :=
  c == '\t' || (0x20 ≤ c.toNat && c.toNat ≤ 0x7E) || 0x80 ≤ c.toNat

def newline? : List Char → Option (List Char)
  | '\n' :: rest => some rest
  | '\r' :: '\n' :: rest => some rest
  | _ => none

def skipComment (input : List Char) : List Char :=
  match input with
  | '#' :: rest => rest.dropWhile isCommentChar
  | _ => input

def endLine? (input : List Char) : Option (List Char) :=
  match skipComment (skipGap input) with
  | [] => some []
  | rest => newline? rest

def skipLines : Nat → List Char → List Char
  | 0, input => input
  | fuel + 1, input =>
    match skipComment (skipGap input) with
    | [] => []
    | rest => match newline? rest with
      | some after => skipLines fuel after
      | none => rest

def isPlain (c : Char) : Bool :=
  c == '\t' || (0x20 ≤ c.toNat && c.toNat ≤ 0x7E && c != '"' && c != '\\') || 0x80 ≤ c.toNat

def isLiteral (c : Char) : Bool :=
  c == '\t' || (0x20 ≤ c.toNat && c.toNat ≤ 0x7E && c != '\'') || 0x80 ≤ c.toNat

def scalarValue? (code : Nat) : Option Char :=
  if code < 0xD800 || (0xE000 ≤ code && code < 0x110000) then some (Char.ofNat code) else none

def hexDigits? : Nat → Nat → List Char → Option (Nat × List Char)
  | 0, value, input => some (value, input)
  | count + 1, value, c :: rest => do
    let digit ← Json.hexValue? c
    hexDigits? count (16 * value + digit) rest
  | _ + 1, _, [] => none

def escape? : List Char → Option (Char × List Char)
  | 'b' :: rest => some (Char.ofNat 8, rest)
  | 't' :: rest => some ('\t', rest)
  | 'n' :: rest => some ('\n', rest)
  | 'f' :: rest => some (Char.ofNat 12, rest)
  | 'r' :: rest => some ('\r', rest)
  | '"' :: rest => some ('"', rest)
  | '\\' :: rest => some ('\\', rest)
  | 'u' :: rest => do
    let (code, rest) ← hexDigits? 4 0 rest
    return (← scalarValue? code, rest)
  | 'U' :: rest => do
    let (code, rest) ← hexDigits? 8 0 rest
    return (← scalarValue? code, rest)
  | _ => none

def basicString? : Nat → List Char → Option (List Char × List Char)
  | 0, _ => none
  | _ + 1, [] => none
  | fuel + 1, c :: rest =>
    if c == '"' then some ([], rest)
    else if c == '\\' then do
      let (char, rest) ← escape? rest
      let (text, rest) ← basicString? fuel rest
      return (char :: text, rest)
    else if isPlain c then do
      let (text, rest) ← basicString? fuel rest
      return (c :: text, rest)
    else none

/-- Drops the line end after a backslash and all blanks and line feeds that follow. -/
def continuation? (input : List Char) : Option (List Char) := do
  let rest ← newline? (skipGap input)
  return rest.dropWhile fun c => isGap c || c == '\n' || c == '\r'

/-- Reads a string of several lines after its opening quotes; up to two quotes may stand before
the closing ones. -/
def multiString? (quote : Char) (literal : Bool) : Nat → List Char → Option (List Char × List Char)
  | 0, _ => none
  | fuel + 1, input =>
    let quotes := input.takeWhile (· == quote)
    let next := input.dropWhile (· == quote)
    if 3 ≤ quotes.length then
      if quotes.length ≤ 5 then some (quotes.drop 3, next)
      else some ([quote, quote], input.drop 5)
    else if !quotes.isEmpty then do
      let (text, rest) ← multiString? quote literal fuel next
      return (quotes ++ text, rest)
    else match newline? input with
      | some rest => do
        let (text, rest) ← multiString? quote literal fuel rest
        return ('\n' :: text, rest)
      | none => match input with
        | [] => none
        | c :: rest =>
          if !literal && c == '\\' then
            match continuation? rest with
            | some rest => multiString? quote literal fuel rest
            | none => do
              let (char, rest) ← escape? rest
              let (text, rest) ← multiString? quote literal fuel rest
              return (char :: text, rest)
          else if (if literal then isLiteral c else isPlain c) then do
            let (text, rest) ← multiString? quote literal fuel rest
            return (c :: text, rest)
          else none

def literalString? (input : List Char) : Option (List Char × List Char) :=
  match input.dropWhile isLiteral with
  | '\'' :: rest => some (input.takeWhile isLiteral, rest)
  | _ => none

def skipFirstNewline (input : List Char) : List Char := (newline? input).getD input

def string? (input : List Char) : Option (List Char × List Char) :=
  match input with
  | '"' :: '"' :: '"' :: rest => multiString? '"' false (rest.length + 1) (skipFirstNewline rest)
  | '\'' :: '\'' :: '\'' :: rest => multiString? '\'' true (rest.length + 1) (skipFirstNewline rest)
  | '"' :: rest => basicString? (rest.length + 1) rest
  | '\'' :: rest => literalString? rest
  | _ => none

def isBareKeyChar (c : Char) : Bool := c.isAlphanum || c == '_' || c == '-'

def simpleKey? (input : List Char) : Option (String × List Char) :=
  match input with
  | '"' :: rest =>
    (basicString? (rest.length + 1) rest).map fun (text, rest) => (String.ofList text, rest)
  | '\'' :: rest => (literalString? rest).map fun (text, rest) => (String.ofList text, rest)
  | _ =>
    let word := input.takeWhile isBareKeyChar
    if word.isEmpty then none else some (String.ofList word, input.dropWhile isBareKeyChar)

/-- A key with its parts between dots; blanks around it and around the dots do not count. -/
def key? : Nat → List Char → Option (List String × List Char)
  | 0, _ => none
  | fuel + 1, input => do
    let (part, rest) ← simpleKey? (skipGap input)
    match skipGap rest with
    | '.' :: rest =>
      let (parts, rest) ← key? fuel rest
      return (part :: parts, rest)
    | rest => return ([part], rest)

/-- Digits of a class with single underscores between them. -/
def digits? (p : Char → Bool) : Nat → List Char → Option (List Char × List Char)
  | 0, _ => none
  | fuel + 1, input =>
    match input with
    | c :: rest =>
      if !p c then none
      else
        let run := (c :: rest).takeWhile p
        match rest.dropWhile p with
        | '_' :: after => do
          let (more, rest) ← digits? p fuel after
          return (run ++ more, rest)
        | other => some (run, other)
    | [] => none

def numberOf (base : Nat) (digits : List Char) : Nat :=
  digits.foldl (fun n c => base * n + (Json.hexValue? c).getD 0) 0

def integerOf? (negative : Bool) (magnitude : Nat) : Option Json :=
  if negative then if magnitude ≤ Nat.pow 2 63 then some (.int (-(magnitude : Int))) else none
  else if magnitude < Nat.pow 2 63 then some (.int magnitude) else none

def fixedNumber? (count low high : Nat) (input : List Char) : Option (Nat × List Char) :=
  let digits := input.take count
  let number := numberOf 10 digits
  if digits.length = count && digits.all Char.isDigit && low ≤ number && number ≤ high then
    some (number, input.drop count)
  else none

def char? (expected : Char) : List Char → Option (List Char)
  | c :: rest => if c == expected then some rest else none
  | [] => none

def daysInMonth (year month : Nat) : Nat :=
  if month == 2 then
    if year % 4 == 0 && (year % 100 != 0 || year % 400 == 0) then 29 else 28
  else if month == 4 || month == 6 || month == 9 || month == 11 then 30 else 31

def date? (input : List Char) : Option (List Char) := do
  let (year, rest) ← fixedNumber? 4 0 9999 input
  let (month, rest) ← fixedNumber? 2 1 12 (← char? '-' rest)
  let (_, rest) ← fixedNumber? 2 1 (daysInMonth year month) (← char? '-' rest)
  return rest

def time? (input : List Char) : Option (List Char) := do
  let (_, rest) ← fixedNumber? 2 0 23 input
  let (_, rest) ← fixedNumber? 2 0 59 (← char? ':' rest)
  let (_, rest) ← fixedNumber? 2 0 60 (← char? ':' rest)
  match rest with
  | '.' :: fraction =>
    if (fraction.takeWhile Char.isDigit).isEmpty then return rest
    else return fraction.dropWhile Char.isDigit
  | _ => return rest

def zone (input : List Char) : List Char :=
  match input with
  | 'Z' :: rest | 'z' :: rest => rest
  | sign :: rest =>
    if sign == '+' || sign == '-' then
      (do
        let (_, rest) ← fixedNumber? 2 0 23 rest
        let (_, rest) ← fixedNumber? 2 0 59 (← char? ':' rest)
        return rest).getD input
    else input
  | [] => input

def dateTime? (input : List Char) : Option (List Char) :=
  match date? input with
  | some rest => match rest with
    | c :: after =>
      if c == 'T' || c == 't' || c == ' ' then
        match time? after with
        | some rest => some (zone rest)
        | none => some rest
      else some rest
    | [] => some rest
  | none => time? input

def decimal? (input : List Char) : Option (List Char × List Char) := do
  let (digits, rest) ← digits? Char.isDigit (input.length + 1) input
  if digits.length > 1 && digits.head? == some '0' then none else return (digits, rest)

/-- Sign and digits of an exponent; leading zeros are allowed. -/
def exponent? (input : List Char) : Option (Bool × List Char × List Char) := do
  let (positive, rest) := match input with
    | '+' :: rest => (true, rest)
    | '-' :: rest => (false, rest)
    | rest => (true, rest)
  let (digits, rest) ← digits? Char.isDigit (rest.length + 1) rest
  return (positive, digits, rest)

def floatValue? (negative : Bool) (digits : List Char) (places : Int) (positive : Bool)
    (exponent : List Char) : Option Json :=
  let (significand, dropped) := Json.takeDigits 0 digits
  match Json.withExponent negative significand (places + dropped.length) positive exponent with
  | .unrepresentable => none
  | value => some value

/-- Reads a number without its sign: an integer or a float. -/
def unsigned? (negative signed : Bool) (input : List Char) : Option (Json × List Char) :=
  match input with
  | 'i' :: 'n' :: 'f' :: rest => some (.unrepresentable, rest)
  | 'n' :: 'a' :: 'n' :: rest => some (.unrepresentable, rest)
  | '0' :: 'x' :: rest => if signed then none else do
    let (digits, rest) ← digits? (fun c => (Json.hexValue? c).isSome) (rest.length + 1) rest
    return (← integerOf? false (numberOf 16 digits), rest)
  | '0' :: 'o' :: rest => if signed then none else do
    let (digits, rest) ← digits? (fun c => '0' ≤ c && c ≤ '7') (rest.length + 1) rest
    return (← integerOf? false (numberOf 8 digits), rest)
  | '0' :: 'b' :: rest => if signed then none else do
    let (digits, rest) ← digits? (fun c => c == '0' || c == '1') (rest.length + 1) rest
    return (← integerOf? false (numberOf 2 digits), rest)
  | _ => do
    let (whole, rest) ← decimal? input
    match rest with
    | '.' :: after =>
      let (fraction, rest) ← digits? Char.isDigit (after.length + 1) after
      match rest with
      | 'e' :: after | 'E' :: after =>
        let (positive, exponent, rest) ← exponent? after
        return (← floatValue? negative (whole ++ fraction) (-fraction.length) positive exponent, rest)
      | _ => return (← floatValue? negative (whole ++ fraction) (-fraction.length) true ['0'], rest)
    | 'e' :: after | 'E' :: after =>
      let (positive, exponent, rest) ← exponent? after
      return (← floatValue? negative whole 0 positive exponent, rest)
    | _ => return (← integerOf? negative (numberOf 10 whole), rest)

def number? (input : List Char) : Option (Json × List Char) :=
  match dateTime? input with
  | some rest => some (.unrepresentable, rest)
  | none => match input with
    | '+' :: rest => unsigned? false true rest
    | '-' :: rest => unsigned? true true rest
    | _ => unsigned? false false input

mutual

def value? : Nat → List Char → Option (Json × List Char)
  | 0, _ => none
  | fuel + 1, input =>
    match input with
    | '"' :: _ | '\'' :: _ =>
      (string? input).map fun (text, rest) => (.text (String.ofList text), rest)
    | 't' :: 'r' :: 'u' :: 'e' :: rest => some (.bool true, rest)
    | 'f' :: 'a' :: 'l' :: 's' :: 'e' :: rest => some (.bool false, rest)
    | '[' :: rest => do
      let (items, rest) ← array? fuel rest
      return (.array items, rest)
    | '{' :: rest =>
      match skipGap rest with
      | '}' :: rest => some (.object [], rest)
      | _ => do
        let (entries, rest) ← inlineTable? fuel [] rest
        return (.object (entriesToJson entries), rest)
    | _ => number? input

/-- Reads the rest of an array after its bracket or a comma. -/
def array? : Nat → List Char → Option (List Json × List Char)
  | 0, _ => none
  | fuel + 1, input =>
    match skipLines (input.length + 1) input with
    | ']' :: rest => some ([], rest)
    | rest => do
      let (item, rest) ← value? fuel rest
      match skipLines (rest.length + 1) rest with
      | ',' :: rest =>
        let (items, rest) ← array? fuel rest
        return (item :: items, rest)
      | ']' :: rest => return ([item], rest)
      | _ => none

/-- Reads the rest of an inline table after its brace or a comma. -/
def inlineTable? : Nat → Entries → List Char → Option (Entries × List Char)
  | 0, _, _ => none
  | fuel + 1, entries, input => do
    let (keys, rest) ← key? (input.length + 1) input
    let rest ← char? '=' rest
    let (item, rest) ← value? fuel (skipGap rest)
    let entries ← insertKey keys item entries
    match skipGap rest with
    | ',' :: rest => inlineTable? fuel entries rest
    | '}' :: rest => return (entries, rest)
    | _ => none

end

/-- Reads the expressions of a document; `current` is the table opened last. -/
def expressions? : Nat → List String → Entries → List Char → Option Entries
  | 0, _, _, _ => none
  | fuel + 1, current, entries, input =>
    match skipLines (input.length + 1) input with
    | [] => some entries
    | '[' :: '[' :: rest => do
      let (keys, rest) ← key? (rest.length + 1) rest
      let rest ← char? ']' (← char? ']' rest)
      let entries ← openNext keys entries
      expressions? fuel keys entries (← endLine? rest)
    | '[' :: rest => do
      let (keys, rest) ← key? (rest.length + 1) rest
      let rest ← char? ']' rest
      let entries ← openTable keys entries
      expressions? fuel keys entries (← endLine? rest)
    | rest => do
      let (keys, rest) ← key? (rest.length + 1) rest
      let rest ← char? '=' rest
      let (item, rest) ← value? (rest.length + 1) (skipGap rest)
      let entries ← insertIn current keys item entries
      expressions? fuel current entries (← endLine? rest)

def parse? (text : List Char) : Option Json := do
  let input := (Text.stripStart? [Text.byteOrderMark] text).getD text
  let entries ← expressions? (input.length + 1) [] [] input
  return .object (entriesToJson entries)

end SymbolCache.Toml
