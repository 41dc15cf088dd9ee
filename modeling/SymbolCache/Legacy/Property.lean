import SymbolCache.Legacy.Object

/-!
Property lists of legacy objects: plain properties, which may run over several lines, and
triggers, whose code ends with an `END;` line at the column where it began.
-/

namespace SymbolCache.Legacy

inductive PropertyItem where
  | plain (property : Property)
  | trigger (trigger : Trigger)
  deriving DecidableEq, Repr

def startsWithWord (word text : List Char) : Bool :=
  match Text.stripWord? word text with
  | some rest => !rest.head?.any fun c => c.isAlphanum || c == '_'
  | none => false

def isEndLine (line : List Char) : Bool := Text.sameWord (Text.trim line) "END;".toList

def indentWidth (line : List Char) : Nat := (line.takeWhile Text.isSpaceOrTab).length

/-- How many of the following lines belong to a trigger whose code starts at a column: up to an
`END;` at that column, else up to one further left, else all. -/
def triggerLength (column : Nat) (following : List (List Char)) : Nat :=
  match following.findIdx? fun line => isEndLine line && indentWidth line == column with
  | some index => index + 1
  | none => match following.findIdx? fun line => isEndLine line && indentWidth line ≤ column with
    | some index => index + 1
    | none => following.length

def depthDelta (text : List Char) : Int :=
  text.foldl (fun depth c =>
    if c == '[' || c == '{' then depth + 1 else if c == ']' || c == '}' then depth - 1 else depth) 0

/-- Whether a value ends here: its brackets are closed and it ends with a semicolon, or with a
brace after an opening one. -/
def isComplete (value : List Char) (depth : Int) (opened : Bool) : Bool :=
  let last := (Text.trimEnd value).getLast?
  depth ≤ 0 && (last == some ';' || (opened && last == some '}'))

/-- Extends a value by the following lines until it is complete. Returns the lines that are
left. -/
def completeValue (value : List Char) (depth : Int) (opened : Bool) :
    List (List Char) → List Char × List (List Char)
  | [] => (value, [])
  | line :: rest =>
    if isComplete value depth opened then (value, line :: rest)
    else completeValue (value ++ '\n' :: line) (depth + depthDelta line)
      (opened || line.contains '{') rest

theorem completeValue_rest_length (value : List Char) (depth : Int) (opened : Bool)
    (following : List (List Char)) :
    (completeValue value depth opened following).2.length ≤ following.length := by
  induction following generalizing value depth opened with
  | nil => simp [completeValue]
  | cons line rest ih =>
    unfold completeValue
    split
    · simp
    · exact Nat.le_succ_of_le (ih _ _ _)

def finishValue (value : List Char) : List Char :=
  let trimmed := Text.trimEnd value
  Text.trimEnd ((Text.stripEnd? [';'] trimmed).getD trimmed)

def isTrigger (key value : List Char) : Bool :=
  Text.byteLength key > 2 && Text.startsWith ['O', 'n'] key &&
    (startsWithWord "BEGIN".toList value || startsWithWord "VAR".toList value)

/-- Key and value of a line `key=value`, with the number of characters before the value. -/
def keyAndValue? (line : List Char) : Option (List Char × List Char × Nat) :=
  match Text.cutAt? '=' line with
  | none => none
  | some (before, after) =>
    let key := Text.trim before
    if key.isEmpty || key.any (fun c => c == '{' || c == '}' || c == ';') then none
    else some (key, Text.trimStart after,
      before.length + 1 + (after.takeWhile Text.isBlank).length)

def propertyItems (column : Nat) : List (List Char) → List PropertyItem
  | [] => []
  | line :: following =>
    match keyAndValue? line with
    | none => propertyItems 0 following
    | some (key, value, position) =>
      if isTrigger key value then
        let oneLine := Text.endsWith "END;".toList ((Text.trimEnd value).map Char.toUpper)
        let count := if oneLine then 0 else triggerLength (column + position) following
        let code := ['\n'].intercalate (value :: following.take count)
        .trigger ⟨String.ofList key, String.ofList (Text.trimEnd code)⟩ ::
          propertyItems 0 (following.drop count)
      else
        let complete := completeValue value (depthDelta value) (value.contains '{') following
        .plain ⟨String.ofList key, String.ofList (finishValue complete.1)⟩ ::
          propertyItems 0 complete.2
termination_by lines => lines.length
decreasing_by
  · exact Nat.lt_succ_self _
  · simp only [List.length_drop, List.length_cons]
    omega
  · exact Nat.lt_succ_of_le (completeValue_rest_length _ _ _ _)

/-- Lines of a property list; carriage returns at line ends do not count. -/
def propertyLines (text : List Char) : List (List Char) :=
  (Text.splitAt '\n' text).map (Text.dropEndWhile (· == '\r'))

def propertyList (column : Nat) (text : List Char) : List Property × List Trigger :=
  let items := propertyItems column (propertyLines text)
  (items.filterMap fun item => match item with
      | .plain property => some property
      | .trigger _ => none,
    items.filterMap fun item => match item with
      | .plain _ => none
      | .trigger trigger => some trigger)

end SymbolCache.Legacy
