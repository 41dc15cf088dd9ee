import SymbolCache.Text.Ranges

/-!
Character classes of source text: blanks, digits, letters, words and control characters, and
comparison of letters regardless of case. ASCII is decided directly and the rest by table.
-/

namespace SymbolCache.Text

def isBlank (c : Char) : Bool :=
  let code := c.toNat
  (9 ≤ code && code ≤ 13) || code == 0x20 || code == 0x85 || code == 0xA0 || code == 0x1680 ||
    (0x2000 ≤ code && code ≤ 0x200A) || code == 0x2028 || code == 0x2029 || code == 0x202F ||
    code == 0x205F || code == 0x3000

def isControl (c : Char) : Bool :=
  c.toNat < 0x20 || (0x7F ≤ c.toNat && c.toNat < 0xA0)

def isSpaceOrTab (c : Char) : Bool := c == ' ' || c == '\t'

def isDigit (c : Char) : Bool :=
  c.isDigit || (0x80 ≤ c.toNat && Ranges.covers Ranges.decimalDigit c.toNat)

def isAlphanumeric (c : Char) : Bool :=
  c.isAlphanum || (0x80 ≤ c.toNat &&
    (Ranges.covers Ranges.letterOrDigit c.toNat || Ranges.covers Ranges.otherNumber c.toNat ||
      Ranges.covers Ranges.addedLetterOrDigit c.toNat))

/-- A character that words are made of: letters, digits, marks and connectors of any script. -/
def isWordPart (c : Char) : Bool :=
  c.isAlphanum || c == '_' || (0x80 ≤ c.toNat &&
    (Ranges.covers Ranges.letterOrDigit c.toNat || Ranges.covers Ranges.wordJoiner c.toNat))

/-- The small letter of a character; the dotted capital I has none of its own. -/
def smallLetter (c : Char) : Char :=
  if c.toNat < 0x80 then c.toLower
  else (Ranges.shifted? (Ranges.capitals ++ Ranges.addedCapitals) c.toNat).getD c

/-- One character for all case variants of a letter. The long s and the Kelvin sign are variants
of `s` and `k`. -/
def foldCase (c : Char) : Char :=
  if c.toNat < 0x80 then c.toLower
  else (Ranges.shifted? (Ranges.caseVariants ++ Ranges.capitals) c.toNat).getD c

/-- A case variant of an ASCII letter. -/
def isLetter (c : Char) : Bool := c.isAlpha || c == '\u017F' || c == '\u212A'

def isIdentifierStart (c : Char) : Bool := isLetter c || c == '_'

def isIdentifierPart (c : Char) : Bool := isIdentifierStart c || c.isDigit

end SymbolCache.Text
