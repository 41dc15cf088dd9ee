import SymbolCache.Legacy.Property
import SymbolCache.Proofs.LegacyActions
import SymbolCache.Proofs.LegacyHeader

/-! Property lists read back from export layout: a plain property takes one line, and a trigger goes on to the `END;`
below its keyword, whatever its code holds in other columns. -/

namespace SymbolCache.Legacy
open Text (Trimmed)

/-- Text that can stand on one line. -/
structure OnLine (text : List Char) : Prop where
  unbroken : '\n' ∉ text
  unreturned : '\r' ∉ text

/-- A property on a line of its own. -/
structure PlainEntry where
  indent : List Char
  key : List Char
  value : List Char

/-- A trigger from its keyword on; the lines of its code stand between the keyword and the end. -/
structure TriggerEntry where
  indent : List Char
  key : List Char
  keyword : List Char
  body : List (List Char)

inductive ListEntry where
  | blank (line : List Char)
  | plain (entry : PlainEntry)
  | trigger (entry : TriggerEntry)

/-- What may stand before an equals sign. -/
structure IsKey (key : List Char) : Prop where
  trimmed : Trimmed key
  unassigned : '=' ∉ key
  unopened : '{' ∉ key
  unclosed : '}' ∉ key
  unended : ';' ∉ key

namespace PlainEntry

def line (entry : PlainEntry) : List Char := entry.indent ++ entry.key ++ '=' :: (entry.value ++ [';'])

def property (entry : PlainEntry) : Property := ⟨String.ofList entry.key, String.ofList entry.value⟩

structure WellFormed (entry : PlainEntry) : Prop where
  indented : ∀ c ∈ entry.indent, Text.isBlank c = true
  key : IsKey entry.key
  trimmed : Text.trim entry.value = entry.value
  balanced : entry.value.count '[' + entry.value.count '{' = entry.value.count ']' + entry.value.count '}'
  /-- The first word of a value makes it a trigger. -/
  other : Text.startsWith ['O', 'n'] entry.key = true →
    startsWithWord "BEGIN".toList entry.value = false ∧ startsWithWord "VAR".toList entry.value = false
  onLine : OnLine entry.line

end PlainEntry

namespace TriggerEntry

/-- The column of the keyword, on a line that starts at a column. -/
def column (start : Nat) (entry : TriggerEntry) : Nat := start + (entry.indent ++ entry.key).length + 1

def opening (entry : TriggerEntry) : List Char := entry.indent ++ entry.key ++ '=' :: entry.keyword

def closing (start : Nat) (entry : TriggerEntry) : List Char :=
  List.replicate (entry.column start) ' ' ++ "END;".toList

def trigger (start : Nat) (entry : TriggerEntry) : Trigger :=
  ⟨String.ofList entry.key, String.ofList (['\n'].intercalate (entry.keyword :: (entry.body ++ [entry.closing start])))⟩

structure WellFormed (start : Nat) (entry : TriggerEntry) : Prop where
  indented : ∀ c ∈ entry.indent, Text.isBlank c = true
  key : IsKey entry.key
  named : ∃ name, name ≠ [] ∧ entry.key = 'O' :: 'n' :: name
  opens : entry.keyword = "BEGIN".toList ∨ entry.keyword = "VAR".toList
  /-- An end counts in any letter case, and only in the column of the keyword. -/
  inner : ∀ line ∈ entry.body, isEndLine line = true → indentWidth line ≠ entry.column start
  onLine : OnLine entry.opening
  bodyOnLine : ∀ line ∈ entry.body, OnLine line

end TriggerEntry

namespace ListEntry

def lines (start : Nat) : ListEntry → List (List Char)
  | blank line => [line]
  | plain entry => [entry.line]
  | trigger entry => entry.opening :: (entry.body ++ [entry.closing start])

def WellFormed (start : Nat) : ListEntry → Prop
  | blank line => (∀ c ∈ line, Text.isBlank c = true) ∧ OnLine line
  | plain entry => entry.WellFormed
  | trigger entry => entry.WellFormed start

def item? (start : Nat) : ListEntry → Option PropertyItem
  | blank _ => none
  | plain entry => some (.plain entry.property)
  | trigger entry => some (.trigger (entry.trigger start))

def property? : ListEntry → Option Property
  | plain entry => some entry.property
  | _ => none

def trigger? (start : Nat) : ListEntry → Option Trigger
  | trigger entry => some (entry.trigger start)
  | _ => none

end ListEntry

/-- Only the first entry begins behind other text. -/
def entryLines (start : Nat) : List ListEntry → List (List Char)
  | [] => []
  | entry :: entries => entry.lines start ++ entryLines 0 entries

def EntriesWellFormed (start : Nat) : List ListEntry → Prop
  | [] => True
  | entry :: entries => entry.WellFormed start ∧ EntriesWellFormed 0 entries

def entryItems (start : Nat) : List ListEntry → List PropertyItem
  | [] => []
  | entry :: entries => (entry.item? start).toList ++ entryItems 0 entries

def entryTriggers (start : Nat) : List ListEntry → List Trigger
  | [] => []
  | entry :: entries => (entry.trigger? start).toList ++ entryTriggers 0 entries

theorem keyAndValue?_line {indent key : List Char} (indented : ∀ c ∈ indent, Text.isBlank c = true) (isKey : IsKey key)
    {value : List Char} (stops : Text.Stops Text.isBlank value) :
    keyAndValue? (indent ++ key ++ '=' :: value) = some (key, value, (indent ++ key).length + 1) := by
  have absent : '=' ∉ indent ++ key := by
    rw [List.mem_append, not_or]
    exact ⟨Text.not_mem_of_blank indented (by decide), isKey.unassigned⟩
  have free : key.any (fun c => c == '{' || c == '}' || c == ';') = false := by
    rw [List.any_eq_false]
    intro c inside
    simp only [Bool.or_eq_true, beq_iff_eq]
    rintro ((rfl | rfl) | rfl)
    · exact isKey.unopened inside
    · exact isKey.unclosed inside
    · exact isKey.unended inside
  have unspaced : value.takeWhile Text.isBlank = [] := by
    simpa using Text.takeWhile_append_stops stops []
  rw [keyAndValue?, Text.cutAt?_append absent]
  simp only [Text.trim_run indented isKey.trimmed, free, Text.trimStart, Text.dropWhile_stops stops, unspaced,
    Bool.or_false, List.isEmpty_eq_false_iff.2 isKey.trimmed.nonempty, Bool.false_eq_true, if_false, List.length_nil, Nat.add_zero]

theorem depthDelta_eq_count (text : List Char) :
    depthDelta text = (text.count '[' + text.count '{' : Nat) - (text.count ']' + text.count '}' : Nat) := by
  have shifted (depth : Int) : text.foldl (fun depth c =>
      if c == '[' || c == '{' then depth + 1 else if c == ']' || c == '}' then depth - 1 else depth) depth =
        depth + ((text.count '[' + text.count '{' : Nat) - (text.count ']' + text.count '}' : Nat)) := by
    induction text generalizing depth with
    | nil => simp
    | cons c rest ih =>
      rw [List.foldl_cons, ih]
      grind
  rw [depthDelta, shifted, Int.zero_add]

/-- A word that is not there is not there either once the value has been ended. -/
theorem startsWithWord_concat {word value : List Char} (letters : ';' ∉ word.map Char.toLower)
    (missing : startsWithWord word value = false) : startsWithWord word (value ++ [';']) = false := by
  cases strips : Text.stripWord? word (value ++ [';']) with
  | none => rw [startsWithWord, strips]
  | some rest =>
    obtain ⟨found, split, -, lower, alone⟩ := Lexical.exists_of_stripWord? strips
    rcases List.eq_nil_or_concat rest with rfl | ⟨inner, last, rfl⟩
    · rw [List.append_nil] at split
      rw [← split, List.map_append] at lower
      rw [← lower] at letters
      simp at letters
    · rw [List.concat_eq_append, ← List.append_assoc] at split
      obtain ⟨rfl, same⟩ := List.append_inj' split rfl
      rw [startsWithWord, alone] at missing
      rw [startsWithWord, strips]
      cases inner with
      | nil => simp at missing
      | cons c inner => simpa using missing

theorem propertyItems_blank (start : Nat) {line : List Char} (blank : ∀ c ∈ line, Text.isBlank c = true)
    (lines : List (List Char)) : propertyItems start (line :: lines) = propertyItems 0 lines := by
  have uncut : Text.cutAt? '=' line = none := by
    cases cut : Text.cutAt? '=' line with
    | none => rfl
    | some parts =>
      have inside : '=' ∈ line := by rw [Text.eq_of_cutAt? cut]; simp
      exact absurd inside (Text.not_mem_of_blank blank (by decide))
  rw [propertyItems, keyAndValue?, uncut]

theorem propertyItems_plain (start : Nat) {entry : PlainEntry} (written : entry.WellFormed) (lines : List (List Char)) :
    propertyItems start (entry.line :: lines) = .plain entry.property :: propertyItems 0 lines := by
  have stops : Text.Stops Text.isBlank (entry.value ++ [';']) := by
    have front := Text.stops_trim entry.value
    rw [written.trimmed] at front
    cases shape : entry.value with
    | nil => exact .cons (by decide) []
    | cons c rest => exact (shape ▸ front).append (List.cons_ne_nil _ _) _
  have ends : Text.Ends Text.isBlank (entry.value ++ [';']) := .concat (by decide) _
  have plain : isTrigger entry.key (entry.value ++ [';']) = false := by
    rw [isTrigger]
    cases event : Text.startsWith ['O', 'n'] entry.key with
    | false => simp
    | true =>
      obtain ⟨begins, declares⟩ := written.other event
      rw [startsWithWord_concat (by decide) begins, startsWithWord_concat (by decide) declares]
      simp
  have depth : depthDelta (entry.value ++ [';']) = 0 := by
    rw [depthDelta_eq_count]
    have balanced := written.balanced
    grind
  have complete (opened : Bool) : isComplete (entry.value ++ [';']) 0 opened = true := by
    rw [isComplete, Text.trimEnd, Text.dropEndWhile_ends ends, List.getLast?_concat]
    rfl
  have alone (opened : Bool) : completeValue (entry.value ++ [';']) 0 opened lines = (entry.value ++ [';'], lines) := by
    cases lines with
    | nil => rfl
    | cons next lines => rw [completeValue, complete, if_pos rfl]
  have finished : finishValue (entry.value ++ [';']) = entry.value := by
    have whole := Text.ends_trim entry.value
    rw [written.trimmed] at whole
    have trimmed : Text.trimEnd (entry.value ++ [';']) = entry.value ++ [';'] := Text.dropEndWhile_ends ends
    have stripped : Text.stripEnd? [';'] (entry.value ++ [';']) = some entry.value := by
      simp [Text.stripEnd?, Text.stripStart?]
    rw [finishValue, trimmed, stripped]
    exact Text.dropEndWhile_ends whole
  rw [propertyItems, PlainEntry.line, keyAndValue?_line written.indented written.key stops]
  simp only [plain, Bool.false_eq_true, if_false, depth, alone, finished]
  rfl

theorem isEndLine_closing (start : Nat) (entry : TriggerEntry) : isEndLine (entry.closing start) = true ∧
    indentWidth (entry.closing start) = entry.column start := by
  have spaces {p : Char → Bool} (space : p ' ' = true) : ∀ c ∈ List.replicate (entry.column start) ' ', p c = true := by
    intro c inside
    rw [List.eq_of_mem_replicate inside]
    exact space
  have word : Trimmed "END;".toList := ⟨by decide, .cons (by decide) _, .cons (by decide) _⟩
  have stops : Text.Stops Text.isSpaceOrTab "END;".toList := .cons (by decide) _
  refine ⟨?_, ?_⟩
  · rw [isEndLine, TriggerEntry.closing, Text.trim_run (spaces (by decide)) word]
    rfl
  · rw [indentWidth, TriggerEntry.closing, Text.takeWhile_run (spaces (by decide)) stops, List.length_replicate]

namespace TriggerEntry.WellFormed

variable {start : Nat} {entry : TriggerEntry} (written : entry.WellFormed start)

include written

theorem isTrigger : Legacy.isTrigger entry.key entry.keyword = true := by
  obtain ⟨name, present, key⟩ := written.named
  have long : 2 < Text.byteLength entry.key := by
    obtain ⟨c, rest, rfl⟩ := List.exists_cons_of_ne_nil present
    have more := Text.byteLength_pos c rest
    have first : ('O' : Char).utf8Size = 1 := rfl
    have second : ('n' : Char).utf8Size = 1 := rfl
    rw [key, Text.byteLength, Text.byteLength]
    omega
  have event : Text.startsWith ['O', 'n'] entry.key = true := by
    rw [key]
    rfl
  have begins : (startsWithWord "BEGIN".toList entry.keyword || startsWithWord "VAR".toList entry.keyword) = true := by
    rcases written.opens with opens | opens
    · rw [opens]
      rfl
    · rw [opens]
      rfl
  rw [Legacy.isTrigger, decide_eq_true long, event, begins]
  rfl

/-- The keyword does not end the code on its own line. -/
theorem unended : Text.endsWith "END;".toList ((Text.trimEnd entry.keyword).map Char.toUpper) = false := by
  rcases written.opens with opens | opens
  · rw [opens]
    rfl
  · rw [opens]
    rfl

theorem triggerLength (lines : List (List Char)) :
    Legacy.triggerLength (entry.column start) (entry.body ++ entry.closing start :: lines) = entry.body.length + 1 := by
  obtain ⟨ends, width⟩ := isEndLine_closing start entry
  have passed : entry.body.findIdx? (fun line => isEndLine line && indentWidth line == entry.column start) = none := by
    rw [List.findIdx?_eq_none_iff]
    intro line inside
    cases closes : isEndLine line with
    | false => rfl
    | true => simpa using written.inner line inside closes
  rw [Legacy.triggerLength, List.findIdx?_append, passed, List.findIdx?_cons]
  simp [ends, width]

end TriggerEntry.WellFormed

/-- Code that ends with its closing line has no blanks to lose. -/
theorem trimEnd_code (start : Nat) (entry : TriggerEntry) :
    Text.trimEnd (['\n'].intercalate (entry.keyword :: (entry.body ++ [entry.closing start]))) =
      ['\n'].intercalate (entry.keyword :: (entry.body ++ [entry.closing start])) := by
  obtain ⟨front, joined⟩ := Text.exists_intercalate_concat ['\n'] (entry.keyword :: entry.body) (entry.closing start)
  have ends : Text.Ends Text.isBlank (front ++ (List.replicate (entry.column start) ' ' ++ ['E', 'N', 'D']) ++ [';']) :=
    .concat (by decide) _
  have shape : front ++ entry.closing start =
      front ++ (List.replicate (entry.column start) ' ' ++ ['E', 'N', 'D']) ++ [';'] := by
    rw [TriggerEntry.closing, List.append_assoc, List.append_assoc]
    rfl
  rw [List.cons_append] at joined
  rw [joined, shape]
  exact Text.dropEndWhile_ends ends

theorem propertyItems_trigger {start : Nat} {entry : TriggerEntry} (written : entry.WellFormed start)
    (lines : List (List Char)) :
    propertyItems start (entry.opening :: (entry.body ++ entry.closing start :: lines)) =
      .trigger (entry.trigger start) :: propertyItems 0 lines := by
  have stops : Text.Stops Text.isBlank entry.keyword := by
    rcases written.opens with opens | opens
    · exact opens ▸ .cons (by decide) _
    · exact opens ▸ .cons (by decide) _
  have taken : (entry.body ++ entry.closing start :: lines).take (entry.body.length + 1) =
      entry.body ++ [entry.closing start] := by
    rw [List.take_append, List.take_of_length_le (Nat.le_succ _), Nat.add_sub_cancel_left]
    rfl
  have left : (entry.body ++ entry.closing start :: lines).drop (entry.body.length + 1) = lines := by
    rw [List.drop_append, List.drop_of_length_le (Nat.le_succ _), Nat.add_sub_cancel_left]
    rfl
  rw [propertyItems, TriggerEntry.opening, keyAndValue?_line written.indented written.key stops]
  simp only [written.isTrigger, if_true, written.unended, Bool.false_eq_true, if_false, ← Nat.add_assoc]
  rw [show start + (entry.indent ++ entry.key).length + 1 = entry.column start from rfl,
    written.triggerLength, taken, left, trimEnd_code]
  rfl

/-- Entries in export layout are read as they are. -/
theorem propertyItems_entryLines (start : Nat) {entries : List ListEntry} (written : EntriesWellFormed start entries) :
    propertyItems start (entryLines start entries) = entryItems start entries := by
  induction entries generalizing start with
  | nil => rw [entryLines, propertyItems, entryItems]
  | cons entry entries ih =>
    obtain ⟨first, later⟩ := written
    cases entry with
    | blank line => exact (propertyItems_blank start first.1 _).trans (ih 0 later)
    | plain entry =>
      rw [entryLines, entryItems, ← ih 0 later]
      exact propertyItems_plain start first _
    | trigger entry =>
      rw [entryLines, entryItems, ← ih 0 later]
      have lines : ListEntry.lines start (.trigger entry) ++ entryLines 0 entries =
          entry.opening :: (entry.body ++ entry.closing start :: entryLines 0 entries) := by
        simp [ListEntry.lines]
      rw [lines]
      exact propertyItems_trigger first _

theorem properties_entryItems (start : Nat) (entries : List ListEntry) :
    (entryItems start entries).filterMap (fun item => match item with
      | .plain property => some property
      | .trigger _ => none) = entries.filterMap ListEntry.property? := by
  induction entries generalizing start with
  | nil => rfl
  | cons entry entries ih =>
    rw [entryItems, List.filterMap_append, ih, List.filterMap_cons]
    cases entry <;> rfl

theorem triggers_entryItems (start : Nat) (entries : List ListEntry) :
    (entryItems start entries).filterMap (fun item => match item with
      | .plain _ => none
      | .trigger trigger => some trigger) = entryTriggers start entries := by
  induction entries generalizing start with
  | nil => rfl
  | cons entry entries ih =>
    rw [entryItems, List.filterMap_append, ih, entryTriggers]
    cases entry <;> rfl

theorem OnLine.closing (start : Nat) (entry : TriggerEntry) : OnLine (entry.closing start) := by
  have spaces {c : Char} (other : c ≠ ' ') (letters : c ∉ "END;".toList) : c ∉ entry.closing start := by
    rw [TriggerEntry.closing, List.mem_append, List.mem_replicate]
    rintro (⟨-, same⟩ | inside)
    · exact other same
    · exact letters inside
  exact ⟨spaces (by decide) (by decide), spaces (by decide) (by decide)⟩

theorem onLine_entryLines {start : Nat} {entries : List ListEntry} (written : EntriesWellFormed start entries) :
    ∀ line ∈ entryLines start entries, OnLine line := by
  induction entries generalizing start with
  | nil => exact nofun
  | cons entry entries ih =>
    obtain ⟨first, later⟩ := written
    intro line member
    rcases List.mem_append.1 member with here | there
    · cases entry with
      | blank empty => exact List.mem_singleton.1 here ▸ first.2
      | plain entry => exact List.mem_singleton.1 here ▸ first.onLine
      | trigger entry =>
        rcases List.mem_cons.1 here with rfl | inside
        · exact first.onLine
        · rcases List.mem_append.1 inside with body | closing
          · exact first.bodyOnLine line body
          · exact List.mem_singleton.1 closing ▸ .closing start entry
    · exact ih later line there

/-- Lines joined by line feeds are the lines of a list, except that a list is never without a line. -/
theorem propertyLines_intercalate {lines : List (List Char)} (present : lines ≠ []) (onLine : ∀ line ∈ lines, OnLine line) :
    propertyLines (['\n'].intercalate lines) = lines := by
  rw [propertyLines, Text.splitAt_intercalate present fun line inside => (onLine line inside).unbroken]
  refine (List.map_congr_left fun line inside => ?_).trans (List.map_id lines)
  have ends : Text.Ends (· == '\r') line := by
    intro c last
    have member : c ∈ line := List.mem_reverse.1 (List.mem_of_mem_head? last)
    rw [beq_eq_false_iff_ne]
    rintro rfl
    exact (onLine line inside).unreturned member
  exact Text.dropEndWhile_ends ends

/-- A property list in export layout has the properties and the triggers that were written, in their order. A last line
that is empty stands for a line feed at the end. -/
theorem propertyList_of_entries {start : Nat} {entries : List ListEntry} (written : EntriesWellFormed start entries) :
    propertyList start (['\n'].intercalate (entryLines start entries)) =
      (entries.filterMap ListEntry.property?, entryTriggers start entries) := by
  have items : propertyItems start (propertyLines (['\n'].intercalate (entryLines start entries))) =
      entryItems start entries := by
    cases entries with
    | nil =>
      refine (propertyItems_blank start (List.forall_mem_nil _) []).trans ?_
      rw [propertyItems]
      rfl
    | cons entry entries =>
      have present : entryLines start (entry :: entries) ≠ [] := by cases entry <;> exact List.cons_ne_nil _ _
      rw [propertyLines_intercalate present (onLine_entryLines written), propertyItems_entryLines start written]
  rw [propertyList, items]
  exact Prod.ext (properties_entryItems start entries) (triggers_entryItems start entries)

/-- A trigger behind other text, with a block of its own further left, and a list below an empty line. -/
def sampleEntries : List ListEntry :=
  [.trigger ⟨[' '], "OnRun".toList, "BEGIN".toList, ["IF A=B THEN".toList, "  end;".toList]⟩, .blank [],
    .plain ⟨"  ".toList, "ML".toList, "[A={B};C=D]".toList⟩]

theorem propertyList_of_sampleEntries : EntriesWellFormed 2 sampleEntries ∧
    entryLines 2 sampleEntries = [" OnRun=BEGIN".toList, "IF A=B THEN".toList, "  end;".toList, "         END;".toList, [],
      "  ML=[A={B};C=D];".toList] ∧
    propertyList 2 (['\n'].intercalate (entryLines 2 sampleEntries)) = ([⟨"ML", "[A={B};C=D]"⟩],
      [⟨"OnRun", "BEGIN\nIF A=B THEN\n  end;\n         END;"⟩]) := by
  have trigger : TriggerEntry.WellFormed 2
      ⟨[' '], "OnRun".toList, "BEGIN".toList, ["IF A=B THEN".toList, "  end;".toList]⟩ :=
    { indented := List.all_eq_true.1 rfl
      key := ⟨⟨by decide, .cons (by decide) _, .cons (by decide) _⟩, by decide, by decide, by decide, by decide⟩
      named := ⟨"Run".toList, by decide, rfl⟩
      opens := .inl rfl
      inner := List.forall_mem_cons.2 ⟨by decide, List.forall_mem_cons.2 ⟨by decide, List.forall_mem_nil _⟩⟩
      onLine := ⟨by decide, by decide⟩
      bodyOnLine := List.forall_mem_cons.2
        ⟨⟨by decide, by decide⟩, List.forall_mem_cons.2 ⟨⟨by decide, by decide⟩, List.forall_mem_nil _⟩⟩ }
  have plain : PlainEntry.WellFormed ⟨"  ".toList, "ML".toList, "[A={B};C=D]".toList⟩ :=
    { indented := List.all_eq_true.1 rfl
      key := ⟨⟨by decide, .cons (by decide) _, .cons (by decide) _⟩, by decide, by decide, by decide, by decide⟩
      trimmed := by decide
      balanced := by decide
      other := by decide
      onLine := ⟨by decide, by decide⟩ }
  have written : EntriesWellFormed 2 sampleEntries :=
    ⟨trigger, ⟨List.all_eq_true.1 rfl, ⟨by decide, by decide⟩⟩, plain, trivial⟩
  exact ⟨written, rfl, propertyList_of_entries written⟩

end SymbolCache.Legacy
