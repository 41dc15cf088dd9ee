import SymbolCache.Text.Basic

/-!
Names in source text: plain identifiers, or any text in double quotes with inner quotes doubled.
-/

namespace SymbolCache.Source

/-- Drops surrounding double quotes and halves the inner ones. -/
def unquote (raw : List Char) : List Char :=
  let text := Text.trim raw
  match (Text.stripStart? ['"'] text).bind (Text.stripEnd? ['"']) with
  | some inner => Text.halve '"' inner
  | none => text

def quoteName (name : List Char) : List Char :=
  if !name.isEmpty && name.all (fun c => c.isAlphanum || c == '_') then name
  else '"' :: Text.double '"' name ++ ['"']

/-- Reads quoted text after its opening quote, up to a quote that is not doubled. When there is
none on the line, the last doubled quote closes the text with its first half. Returns the content
as written and the text after the closing quote. -/
def quotedText? (quote : Char) : List Char → Option (List Char × List Char)
  | [] => none
  | [c] => if c == quote then some ([], []) else none
  | c :: d :: rest =>
    if c == quote then
      if d == quote then
        match quotedText? quote rest with
        | some (content, after) => some (quote :: quote :: content, after)
        | none => some ([], d :: rest)
      else some ([], d :: rest)
    else if c == '\n' then none
    else (quotedText? quote (d :: rest)).map fun (content, after) => (c :: content, after)

def name? : List Char → Option (List Char × List Char)
  | [] => none
  | c :: rest =>
    if c == '"' then
      match quotedText? '"' rest with
      | some (content, after) =>
        if content.isEmpty then none else some (Text.halve '"' content, after)
      | none => none
    else if Text.isIdentifierStart c then
      some (c :: rest.takeWhile Text.isIdentifierPart, rest.dropWhile Text.isIdentifierPart)
    else none

/-- All that a reader finds at the starts of words, from left to right and without overlap;
`previous` is the character before the text. -/
def occurrences {α : Type} (reader : List Char → Option (α × List Char)) (previous : Option Char) :
    List Char → List α
  | [] => []
  | c :: rest =>
    let found := if previous.any Text.isWordPart then none else reader (c :: rest)
    match found with
    | none => occurrences reader (some c) rest
    | some (value, after) =>
      if shorter : after.length < (c :: rest).length then
        value :: occurrences reader ((c :: rest)[(c :: rest).length - after.length - 1]?) after
      else [value]
termination_by text => text.length
decreasing_by
  · exact Nat.lt_succ_self _
  · exact shorter

end SymbolCache.Source
