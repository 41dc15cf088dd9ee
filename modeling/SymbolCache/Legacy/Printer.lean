import SymbolCache.Legacy.Reader

/-!
Writing legacy objects back. Sections keep their text, except that lists of records are written
from the records the object still has.
-/

namespace SymbolCache.Legacy

/-- The records of a section, one a line, and the indentation before the closing brace. -/
def renderEntries (entries : List Entry) (closingIndent : List Char) : List Char :=
  let records := entries.flatMap fun entry =>
    entry.leading.toList ++ entry.verbatim.toList ++ ['\n']
  '\n' :: records ++ closingIndent

namespace Object

/-- A property section with its actions written anew. -/
def spliceActions (object : Object) (inner : List Char) : List Char :=
  match (Lexical.locate .outline "ACTIONS".toList inner).block? with
  | none => inner
  | some block =>
    let indent := lineIndent (Text.slice inner 0 block.closing)
    Text.slice inner 0 (block.opening + 1) ++
      renderEntries (object.actions.map Action.toEntry) indent ++
      Text.slice inner block.closing (Text.byteLength inner)

def renderInner (object : Object) (part : Section) : List Char :=
  match part.kind with
  | .fields => renderEntries (object.fields.map Field.toEntry) [' ', ' ']
  | .controls => renderEntries (object.controls.map Control.toEntry) [' ', ' ']
  | .properties => object.spliceActions part.inner.toList
  | .code =>
    match object.documentation with
    | some text => (object.code.getD "").toList ++ "BEGIN\n    \x7b".toList ++ text.toList ++
        "\x7d\n    END.\n  ".toList
    | none => (object.code.getD part.inner).toList
  | _ => part.inner.toList

def renderSection (object : Object) (part : Section) : List Char :=
  "  ".toList ++ part.keyword.toList ++ "\n  \x7b".toList ++ object.renderInner part ++
    "\x7d\n".toList

def render (object : Object) : List Char :=
  "OBJECT ".toList ++ object.objectType.toList ++ ' ' :: (toString object.id).toList ++
    ' ' :: object.name.toList ++ "\n\x7b\n".toList ++
    object.sections.flatMap object.renderSection ++
    (match object.unreadTail with
      | some tail => tail.toList ++ ['\n']
      | none => "\x7d\n".toList)

end Object

end SymbolCache.Legacy
