import SymbolCache.FieldIndex.Basic
import SymbolCache.Source.Procedure
import SymbolCache.Store.Basic
import SymbolCache.Text.LowerCase

/-!
Questions to a store and a field index. The field index answers first and the store for what the
index does not know.
-/

namespace SymbolCache.Query

def contributesTo (record : ObjectRecord) (table : String) : Bool :=
  match record.kind with
  | .table => FieldIndex.sameTable record.name table
  | .tableExtension =>
    (record.metaText? "extends").any fun target => FieldIndex.sameTable target table
  | _ => false

def recordFields (record : ObjectRecord) : List String :=
  match record.metadata.get? "fields" with
  | some (.array items) => items.filterMap Json.asText?
  | _ => []

/-- The fields of a table, from the index or else from the cached table and its extensions. -/
def fieldsOf (store : Store) (index : FieldIndex) (table : String) : List String :=
  match index.fieldsOf? table with
  | some fields => fields
  | none =>
    (TextSet.ofList ((store.objects.values.filter fun record => contributesTo record table).flatMap
      recordFields)).toList

def sourceTable? (store : Store) (index : FieldIndex) (page : String) : Option String :=
  match index.sourceOf? page with
  | some source => source
  | none => (store.object? page).bind fun record => record.metaText? "sourceTable"

def stripFoldedText? : List Char → List Char → Option (List Char)
  | [], text => some text
  | _ :: _, [] => none
  | p :: ps, c :: cs => if Text.foldCase p == Text.foldCase c then stripFoldedText? ps cs else none

def quotedLines? : List Char → Option (List Char × List Char)
  | [] => none
  | [c] => if c == '"' then some ([], []) else none
  | c :: d :: rest =>
    if c == '"' then
      if d == '"' then
        match quotedLines? rest with
        | some (content, after) => some ('"' :: '"' :: content, after)
        | none => some ([], d :: rest)
      else some ([], d :: rest)
    else (quotedLines? (d :: rest)).map fun (content, after) => (c :: content, after)

/-- The target of a record type: a quoted name, or a word that may be a number. -/
inductive Target where
  | quoted (content : List Char)
  | word (text : List Char)

def target? : List Char → Option Target
  | '"' :: rest => (quotedLines? rest).map fun (content, _) => .quoted content
  | text => (Text.run? Text.isIdentifierPart text).map fun (word, _) => .word word

/-- Reads what follows a variable name: an optional number behind an at sign, a colon and a record
type. -/
def recordType? (text : List Char) : Option Target := do
  let rest := match text with
    | '@' :: after => ((Text.run? Text.isDigit after).map Prod.snd).getD text
    | _ => text
  let rest := Text.trimStart (← Text.expect? ':' (Text.trimStart rest))
  let rest := match Text.stripFolded? "temporary".toList rest with
    | some after => ((Text.run? Text.isBlank after).map Prod.snd).getD rest
    | none => rest
  let (_, rest) ← Text.run? Text.isBlank (← Text.stripFolded? "record".toList rest)
  target? rest

/-- A text without and, before that, with one quote at its start dropped. -/
def withoutQuote (text : List Char) : List (List Char) :=
  match text with
  | '"' :: rest => [rest, text]
  | _ => [text]

def variableType? (name text : List Char) : Option Target :=
  (withoutQuote text).findSome? fun start => do
    let rest ← stripFoldedText? name start
    (withoutQuote rest).findSome? recordType?

def continuesName (c : Char) : Bool := Text.isIdentifierPart c || c == '"'

def declaredType? (name : List Char) : List Char → Option Target
  | [] => none
  | c :: rest =>
    match if continuesName c then none else variableType? name rest with
    | some target => some target
    | none => declaredType? name rest

/-- The table of a record variable as declared in source text; a number is looked up among the
cached tables. -/
def tableType? (store : Store) (source variableName : List Char) : Option String := do
  let trimmed := Text.trim variableName
  if trimmed.isEmpty then none
  else
    let text := if Legacy.isLegacy source then source else Lexical.stripComments .modern source
    let name := Text.dropEndWhile (· == '"') (trimmed.dropWhile (· == '"'))
    let target ← match variableType? name text with
      | some target => some target
      | none => declaredType? name text
    match target with
    | .quoted content => return String.ofList (Text.halve '"' content)
    | .word word =>
      match Text.readInt64? word with
      | some id => (store.byId? .table id).map ObjectRecord.name
      | none => return String.ofList word

def search (store : Store) (query : String) (kind : Option ObjectKind) (limit : Nat) :
    List ObjectRecord :=
  let needle := Text.lower query.toList
  let found := store.objects.values.filter fun record =>
    kind.all (· = record.kind) && Text.occursIn needle (Text.lower record.name.toList)
  (found.mergeSort fun a b => !decide (b.name < a.name)).take limit

end SymbolCache.Query
