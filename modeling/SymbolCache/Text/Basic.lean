import SymbolCache.Text.CharClass

/-!
Operations on texts, which are lists of characters: trimming, cutting at separators, and
positions counted in UTF-8 bytes.
-/

namespace SymbolCache.Text

def byteLength : List Char → Nat
  | [] => 0
  | c :: rest => c.utf8Size + byteLength rest

/-- The text from a byte position on; `none` when the position is outside the text or inside a
character. -/
def dropBytes : Nat → List Char → Option (List Char)
  | 0, text => some text
  | _ + 1, [] => none
  | n + 1, c :: rest => if c.utf8Size ≤ n + 1 then dropBytes (n + 1 - c.utf8Size) rest else none
termination_by _ text => text.length

/-- The text before a byte position; `none` when the position is outside the text or inside a
character. -/
def takeBytes : Nat → List Char → Option (List Char)
  | 0, _ => some []
  | _ + 1, [] => none
  | n + 1, c :: rest =>
    if c.utf8Size ≤ n + 1 then (takeBytes (n + 1 - c.utf8Size) rest).map (c :: ·) else none
termination_by _ text => text.length

/-- The text between two byte positions; empty when one of them is no position in the text. -/
def slice (text : List Char) (start stop : Nat) : List Char :=
  ((dropBytes start text).bind (takeBytes (stop - start))).getD []

def lastLine (text : List Char) : List Char := (text.reverse.takeWhile (· != '\n')).reverse

def dropEndWhile (p : Char → Bool) (text : List Char) : List Char :=
  (text.reverse.dropWhile p).reverse

def trimStart (text : List Char) : List Char := text.dropWhile isBlank

def trimEnd (text : List Char) : List Char := dropEndWhile isBlank text

def trim (text : List Char) : List Char := trimEnd (trimStart text)

def stripStart? : List Char → List Char → Option (List Char)
  | [], text => some text
  | _ :: _, [] => none
  | p :: ps, c :: cs => if p == c then stripStart? ps cs else none

def stripEnd? (ending text : List Char) : Option (List Char) :=
  (stripStart? ending.reverse text.reverse).map List.reverse

def startsWith (beginning text : List Char) : Bool := (stripStart? beginning text).isSome

def endsWith (ending text : List Char) : Bool := (stripEnd? ending text).isSome

def stripWord? : List Char → List Char → Option (List Char)
  | [], text => some text
  | _ :: _, [] => none
  | p :: ps, c :: cs => if p.toLower == c.toLower then stripWord? ps cs else none

/-- Drops a given word, compared regardless of case with the long s and the Kelvin sign counting
as letters. -/
def stripFolded? : List Char → List Char → Option (List Char)
  | [], text => some text
  | _ :: _, [] => none
  | p :: ps, c :: cs => if p == foldCase c then stripFolded? ps cs else none

def sameWord (a b : List Char) : Bool := a.map Char.toLower == b.map Char.toLower

def expect? (expected : Char) : List Char → Option (List Char)
  | [] => none
  | c :: rest => if c == expected then some rest else none

def run? (p : Char → Bool) (text : List Char) : Option (List Char × List Char) :=
  let taken := text.takeWhile p
  if taken.isEmpty then none else some (taken, text.dropWhile p)

def splitAt (separator : Char) : List Char → List (List Char)
  | [] => [[]]
  | c :: rest =>
    if c == separator then [] :: splitAt separator rest
    else match splitAt separator rest with
      | [] => [[c]]
      | part :: parts => (c :: part) :: parts

def cutAt? (separator : Char) : List Char → Option (List Char × List Char)
  | [] => none
  | c :: rest =>
    if c == separator then some ([], rest)
    else (cutAt? separator rest).map fun (before, after) => (c :: before, after)

theorem length_lt_of_cutAt? {separator : Char} {text before after : List Char}
    (cut : cutAt? separator text = some (before, after)) : after.length < text.length := by
  induction text generalizing before with
  | nil => simp [cutAt?] at cut
  | cons c rest ih =>
    unfold cutAt? at cut
    split at cut
    · simp at cut
      simp [cut.2]
    · simp only [Option.map_eq_some_iff, Prod.mk.injEq] at cut
      obtain ⟨⟨b, a⟩, inner, -, rfl⟩ := cut
      exact Nat.lt_succ_of_lt (ih inner)

def cutAtLast? (separator : Char) : List Char → Option (List Char × List Char)
  | [] => none
  | c :: rest =>
    match cutAtLast? separator rest with
    | some (before, after) => some (c :: before, after)
    | none => if c == separator then some ([], rest) else none

/-- Lines without their line ends; a carriage return before a line feed belongs to the line end
and a line feed at the very end starts no further line. -/
def lines (text : List Char) : List (List Char) :=
  let parts := splitAt '\n' text
  let ended := parts.dropLast.map fun line => (stripEnd? ['\r'] line).getD line
  match parts.getLast? with
  | some [] | none => ended
  | some last => ended ++ [last]

def words (text : List Char) : List (List Char) :=
  let parts := text.foldr
    (fun c acc => if isBlank c then [] :: acc else match acc with
      | [] => [[c]]
      | word :: others => (c :: word) :: others)
    [[]]
  parts.filter fun word => !word.isEmpty

def squeeze (text : List Char) : List Char := [' '].intercalate (words text)

/-- Replaces each doubled occurrence of a character by a single one, from left to right. -/
def halve (quote : Char) : List Char → List Char
  | a :: b :: rest => if a == quote && b == quote then quote :: halve quote rest
      else a :: halve quote (b :: rest)
  | text => text

def double (quote : Char) (text : List Char) : List Char :=
  text.flatMap fun c => if c == quote then [quote, quote] else [c]

def occursIn (needle : List Char) : List Char → Bool
  | [] => needle.isEmpty
  | c :: rest => startsWith needle (c :: rest) || occursIn needle rest

/-- The parts of a text between the first separators, at most so many; the last part keeps all
further separators. -/
def splitFirst (separator : Char) : Nat → List Char → List (List Char)
  | 0, _ => []
  | 1, text => [text]
  | count + 2, text =>
    match cutAt? separator text with
    | none => [text]
    | some (before, after) => before :: splitFirst separator (count + 1) after

/-- Reads ASCII digits, after an optional plus sign, that make a number below a bound. -/
def readNatBelow? (bound : Nat) (text : List Char) : Option Nat :=
  let digits := (stripStart? ['+'] text).getD text
  if digits.isEmpty || !digits.all Char.isDigit then none
  else
    let number : Nat := digits.foldl (fun n c => 10 * n + (c.toNat - '0'.toNat)) 0
    if number < bound then some number else none

/-- Reads an optional sign and ASCII digits that make a number within signed 64 bits. -/
def readInt64? (text : List Char) : Option Int :=
  let (negative, digits) := match text with
    | '-' :: rest => (true, rest)
    | '+' :: rest => (false, rest)
    | rest => (false, rest)
  if digits.isEmpty || !digits.all Char.isDigit then none
  else
    let magnitude : Nat := digits.foldl (fun n c => 10 * n + (c.toNat - '0'.toNat)) 0
    if negative then if magnitude ≤ Nat.pow 2 63 then some (-(magnitude : Int)) else none
    else if magnitude < Nat.pow 2 63 then some (magnitude : Int) else none

/-- Byte-wise order of texts in UTF-8, which is their order by code points. -/
def before (a b : String) : Bool := decide (a < b)

end SymbolCache.Text
