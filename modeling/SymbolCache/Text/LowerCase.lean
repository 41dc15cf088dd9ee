import SymbolCache.Text.Basic

/-!
Texts in small letters. A capital sigma becomes a final sigma at the end of a word, and the dotted
capital I becomes two characters.
-/

namespace SymbolCache.Text

def isCased (c : Char) : Bool :=
  c.isAlpha || (0x80 ≤ c.toNat && Ranges.covers Ranges.cased c.toNat)

def isCaseIgnorable (c : Char) : Bool :=
  "'.:^`".toList.contains c || (0x80 ≤ c.toNat && Ranges.covers Ranges.caseIgnorable c.toNat)

/-- Whether the next character that matters for case has a case. -/
def casedFirst (text : List Char) : Bool := (text.dropWhile isCaseIgnorable).head?.any isCased

/-- The small letters of a text; `before` is the text already passed, reversed. -/
def lowerFrom (before : List Char) : List Char → List Char
  | [] => []
  | c :: rest =>
    let small :=
      if c == '\u03A3' then
        if casedFirst before && !casedFirst rest then ['\u03C2'] else ['\u03C3']
      else if c == '\u0130' then ['i', '\u0307']
      else [smallLetter c]
    small ++ lowerFrom (c :: before) rest

def lower (text : List Char) : List Char := lowerFrom [] text

end SymbolCache.Text
