import SymbolCache.Proofs.ProcedureHeaders

/-! Signatures read back from their headers, however their parameters are spread over lines. The lines of a parameter list
are taken in one by one, and the list as a whole is told by its columns of words, which line breaks do not change. -/

namespace SymbolCache.Source
open Text (Stops SingleSpaced EachLine columns splice splitAt stripReturn)

theorem columns_addParameters (procedure : OpenProcedure) (text : List Char) :
    columns (procedure.addParameters text).parameters = columns (procedure.parameters ++ '\n' :: text) := by
  have blank : Text.isBlank '\n' = true ∧ Text.isBlank ' ' = true := ⟨rfl, rfl⟩
  cases first : procedure.parameters with
  | nil =>
    rw [List.nil_append, Text.columns_cons blank.1, ← Text.columns_trim text]
    simp [OpenProcedure.addParameters, first]
  | cons c parameters =>
    rw [Text.columns_append blank.1, ← Text.columns_trim text, ← Text.columns_append blank.2]
    simp [OpenProcedure.addParameters, first]

theorem finish_parameters (procedure : OpenProcedure) :
    procedure.finish.parameters = (((columns procedure.parameters).map [' '].intercalate).filter
      fun parameter => !parameter.isEmpty).map String.ofList := by
  rw [columns, List.map_map]
  rfl

theorem feed_open {line : List Char} (neutral : Neutral line) (procedure : OpenProcedure) :
    procedure.feed line = procedure.addParameters line := by
  have unclosed := neutral.closingParen?_append []
  rw [List.append_nil] at unclosed
  rw [OpenProcedure.feed, unclosed]
  rfl

theorem feed_close {line : List Char} (neutral : Neutral line) (procedure : OpenProcedure) (rest : List Char) :
    procedure.feed (line ++ ')' :: rest) =
      { procedure.addParameters line with closed := true, returnType := returnType? rest } := by
  have closes : closingParen? 0 none (')' :: rest) = some ([], rest) := rfl
  rw [OpenProcedure.feed, neutral.closingParen?_append, closes, Option.map_some]
  dsimp only
  rw [List.append_nil]

/-- The lines of a parameter list make the same columns as the list does on one line. -/
theorem foldl_feed {front : List (List Char)} {last : List Char} (neutral : ∀ line ∈ front, Neutral (stripReturn line))
    (ends : Neutral last) (procedure : OpenProcedure) (rest : List Char) :
    ∃ parameters, (front.map stripReturn ++ [last ++ ')' :: rest]).foldl OpenProcedure.feed procedure =
        ⟨procedure.name, parameters, true, returnType? rest⟩ ∧
      columns parameters = columns (procedure.parameters ++ '\n' :: ['\n'].intercalate (front ++ [last])) := by
  induction front generalizing procedure with
  | nil =>
    refine ⟨(procedure.addParameters last).parameters, ?_, ?_⟩
    · rw [List.map_nil, List.nil_append, List.foldl_cons, feed_close ends]
      rfl
    · rw [List.nil_append, List.intercalate_singleton, columns_addParameters]
  | cons line front ih =>
    obtain ⟨parameters, fed, same⟩ := ih (fun other inside => neutral other (List.mem_cons_of_mem _ inside))
      (procedure.addParameters (stripReturn line))
    refine ⟨parameters, ?_, ?_⟩
    · rw [List.map_cons, List.cons_append, List.foldl_cons, feed_open (neutral line (List.mem_cons_self ..)), fed]
      rfl
    · obtain ⟨next, more, shape⟩ := List.exists_cons_of_ne_nil (l := front ++ [last]) (by simp)
      have blank : Text.isBlank '\n' = true := rfl
      rw [same, List.cons_append, shape, List.intercalate_cons_cons, ← shape, Text.columns_append blank,
        columns_addParameters, Text.columns_append blank, Text.columns_stripReturn, ← Text.columns_append blank,
        ← Text.columns_append blank]
      simp

theorem step_open {line : List Char} (silent : procedureHeader? line = none) {procedure : OpenProcedure}
    (unclosed : procedure.closed = false) (finished : List ProcedureRecord) :
    ProcedureScan.step ⟨finished, some procedure⟩ line = ⟨finished, some (procedure.feed line)⟩ := by
  simp [ProcedureScan.step, silent, unclosed]

/-- A line of a parameter list, which neither closes the list nor begins a header. -/
structure Quiet (line : List Char) : Prop where
  neutral : Neutral line
  unheaded : Unheaded line

theorem Quiet.append {front back : List Char} (first : Quiet front) (second : Quiet back) : Quiet (front ++ back) :=
  ⟨first.neutral.append second.neutral, first.unheaded.append second.unheaded⟩

theorem Quiet.blank {run : List Char} (blank : ∀ c ∈ run, Text.isBlank c = true) : Quiet run := ⟨.blank blank, .inl blank⟩

/-- Up to the line that closes its list a procedure takes in every line. -/
theorem foldl_step_open {front : List (List Char)} {last : List Char} (quiet : ∀ line ∈ front, Quiet (stripReturn line))
    (silent : procedureHeader? last = none) {procedure : OpenProcedure} (unclosed : procedure.closed = false)
    (finished : List ProcedureRecord) :
    (front.map stripReturn ++ [last]).foldl ProcedureScan.step ⟨finished, some procedure⟩ =
      ⟨finished, some ((front.map stripReturn ++ [last]).foldl OpenProcedure.feed procedure)⟩ := by
  induction front generalizing procedure with
  | nil => exact step_open silent unclosed finished
  | cons line front ih =>
    have first := quiet line (List.mem_cons_self ..)
    have stays : (procedure.feed (stripReturn line)).closed = false := by
      rw [feed_open first.neutral]
      exact unclosed
    rw [List.map_cons, List.cons_append, List.foldl_cons, List.foldl_cons, step_open first.unheaded.procedureHeader? unclosed]
    exact ih (fun other inside => quiet other (List.mem_cons_of_mem _ inside)) stays

/-- A scan that has no parameter list open. -/
def Settled (scan : ProcedureScan) : Prop := ∀ procedure, scan.current = some procedure → procedure.closed = true

theorem foldl_step_settled {scan : ProcedureScan} (settled : Settled scan) {lines : List (List Char)}
    (silent : ∀ line ∈ lines, procedureHeader? line = none) : lines.foldl ProcedureScan.step scan = scan := by
  induction lines with
  | nil => rfl
  | cons line lines ih =>
    have stays : scan.step line = scan := by
      rw [ProcedureScan.step, silent line (List.mem_cons_self ..)]
      dsimp only
      split
      · rename_i procedure current
        rw [settled procedure current, if_pos rfl]
      · rfl
    rw [List.foldl_cons, stays]
    exact ih fun other inside => silent other (List.mem_cons_of_mem _ inside)

/-- A header whose parameters take several lines is read as one that has them all on its line. -/
theorem foldl_step_header {opening name : List Char}
    (reads : ∀ rest, procedureHeader? (opening ++ rest) = some ⟨false, name, rest⟩) {front : List (List Char)}
    {last : List Char} (quiet : ∀ line ∈ front, Quiet (stripReturn line)) (ends : Quiet last) (scan : ProcedureScan)
    (rest : List Char) :
    ∃ parameters, (splice [opening] (front.map stripReturn ++ [last ++ ')' :: rest])).foldl ProcedureScan.step scan =
        ⟨scan.records, some ⟨name, parameters, true, returnType? rest⟩⟩ ∧
      columns parameters = columns (['\n'].intercalate (front ++ [last])) := by
  let opened : OpenProcedure := ⟨name, [], false, none⟩
  have opens (line : List Char) : scan.step (opening ++ line) = ⟨scan.records, some (opened.feed line)⟩ := by
    rw [ProcedureScan.step, reads]
    rfl
  have silent : procedureHeader? (last ++ ')' :: rest) = none := by
    have closing : Unheaded (')' :: rest) := .of_first (by decide) (by decide) (by decide) rest
    exact (ends.unheaded.append closing).procedureHeader?
  have folded : (splice [opening] (front.map stripReturn ++ [last ++ ')' :: rest])).foldl ProcedureScan.step scan =
      ⟨scan.records, some ((front.map stripReturn ++ [last ++ ')' :: rest]).foldl OpenProcedure.feed opened)⟩ := by
    cases front with
    | nil => exact opens _
    | cons line front =>
      have first := quiet line (List.mem_cons_self ..)
      have stays : (opened.feed (stripReturn line)).closed = false := by
        rw [feed_open first.neutral]
        rfl
      rw [List.map_cons, List.cons_append]
      change ((front.map stripReturn ++ [last ++ ')' :: rest]).foldl ProcedureScan.step
        (scan.step (opening ++ stripReturn line))) = _
      rw [opens, foldl_step_open (fun other inside => quiet other (List.mem_cons_of_mem _ inside)) silent stays]
      rfl
  obtain ⟨parameters, fed, same⟩ := foldl_feed (fun line inside => (quiet line inside).neutral) ends.neutral opened rest
  refine ⟨parameters, by rw [folded, fed], ?_⟩
  rw [same]
  exact Text.columns_cons rfl _

/-- The type of a parameter or of a result. -/
structure IsType (type : List Char) : Prop where
  neutral : Neutral type
  spaced : SingleSpaced type
  undivided : ';' ∉ type

/-- A parameter behind the blanks that part it from what stands before it. -/
structure WrittenParameter where
  lead : List Char
  byReference : Bool
  name : WrittenName
  type : List Char

namespace WrittenParameter

def typed (parameter : WrittenParameter) : List Char := parameter.name.text ++ ':' :: ' ' :: parameter.type

def text (parameter : WrittenParameter) : List Char :=
  if parameter.byReference then "var ".toList ++ parameter.typed else parameter.typed

def item (parameter : WrittenParameter) : List Char := parameter.lead ++ parameter.text

structure WellFormed (parameter : WrittenParameter) : Prop where
  lead : ∀ c ∈ parameter.lead, Text.isBlank c = true
  name : parameter.name.WellFormed
  spaced : SingleSpaced parameter.name.text
  undivided : ';' ∉ parameter.name.text
  type : IsType parameter.type

namespace WellFormed

variable {parameter : WrittenParameter} (written : parameter.WellFormed)

include written

theorem singleSpaced : SingleSpaced parameter.text := by
  have typed : SingleSpaced parameter.typed := by
    have named : SingleSpaced (parameter.name.text ++ [':']) := written.spaced.concat (by decide)
    simpa [typed] using named.append written.type.spaced
  rw [text]
  split
  · have letters : ∀ c ∈ "var".toList, Text.isLetter c = true := List.all_eq_true.1 rfl
    have reference : SingleSpaced "var".toList := .word (by decide) fun c inside => Text.isBlank_of_isLetter (letters c inside)
    exact reference.append typed
  · exact typed

theorem semicolon_not_mem : ';' ∉ parameter.item := by
  have typed : ';' ∉ parameter.typed := by
    simp only [typed, List.mem_append, List.mem_cons, not_or]
    exact ⟨written.undivided, by decide, by decide, written.type.undivided⟩
  rw [item, List.mem_append, not_or, text]
  refine ⟨Text.not_mem_of_blank written.lead (by decide), ?_⟩
  split
  · rw [List.mem_append, not_or]
    exact ⟨by decide, typed⟩
  · exact typed

theorem neutral : Neutral parameter.text := by
  have typed : Neutral parameter.typed :=
    (Neutral.name written.name).append (.char (by decide) (.char (by decide) written.type.neutral))
  rw [text]
  split
  · have reference : Neutral "var ".toList :=
      .of_class (p := fun c => Text.isLetter c || c == ' ') (by decide) (List.all_eq_true.1 rfl)
    exact reference.append typed
  · exact typed

theorem unheaded : Unheaded parameter.text := by
  have begins : BeginsName parameter.typed := (beginsName_text written.name).append _
  have unnamed (isLocal : Bool) (fuel : Nat) (rest : List Char) :
      headerAfter? isLocal fuel (parameter.typed ++ rest) = none := by
    rw [typed, List.append_assoc]
    exact headerAfter?_of_name written.name isLocal fuel _
  refine .inr fun rest isLocal fuel => ?_
  rw [text]
  split
  · have reference : HeaderWord.WellFormed ⟨"var".toList, " ".toList⟩ :=
      ⟨by decide, List.all_eq_true.1 rfl, ⟨List.all_eq_true.1 rfl, by decide⟩, by decide⟩
    have kept : Text.trimStart ("var ".toList ++ parameter.typed ++ rest) = "var ".toList ++ (parameter.typed ++ rest) := by
      rw [List.append_assoc]
      exact List.dropWhile_cons_of_neg (by decide)
    have unread : procedureName? ("var ".toList ++ (parameter.typed ++ rest)) = none :=
      procedureName?_of_first (by decide) _
    have read : modifier? ("var ".toList ++ (parameter.typed ++ rest)) = some ("var".toList, parameter.typed ++ rest) :=
      modifier?_word reference (begins.append rest)
    rw [kept]
    cases fuel with
    | zero => rfl
    | succ fuel =>
      rw [headerAfter?, unread, read]
      exact unnamed _ fuel rest
  · have kept : Text.trimStart (parameter.typed ++ rest) = parameter.typed ++ rest :=
      Text.dropWhile_stops (begins.append rest).unblank
    rw [kept]
    exact unnamed isLocal fuel rest

theorem eachLine : EachLine Quiet parameter.item := by
  have quiet : Quiet parameter.text := ⟨written.neutral, written.unheaded⟩
  have line : EachLine Quiet parameter.text :=
    .of_line written.singleSpaced.unbroken quiet (written.singleSpaced.stripReturn.symm ▸ quiet)
  exact (EachLine.of_blank written.lead fun _ blank => Quiet.blank blank).append Quiet.append line

end WellFormed

end WrittenParameter

section Lists

variable {parameters : List WrittenParameter} (written : ∀ parameter ∈ parameters, parameter.WellFormed)

include written

theorem semicolon_not_mem_items : ∀ item ∈ parameters.map WrittenParameter.item, ';' ∉ item := by
  intro item member
  obtain ⟨parameter, inside, rfl⟩ := List.mem_map.1 member
  exact (written parameter inside).semicolon_not_mem

theorem columns_items (present : parameters ≠ []) :
    columns ([';'].intercalate (parameters.map WrittenParameter.item)) =
      parameters.map fun parameter => Text.words parameter.text := by
  rw [columns, Text.splitAt_intercalate (by simpa using present) (semicolon_not_mem_items written), List.map_map]
  exact List.map_congr_left fun parameter inside => Text.words_run (written parameter inside).lead parameter.text

/-- The columns of a list in one line are its parameters. -/
theorem parameters_of_columns {trail : List Char} (blank : ∀ c ∈ trail, Text.isBlank c = true) :
    (((columns ([';'].intercalate (parameters.map WrittenParameter.item) ++ trail)).map [' '].intercalate).filter
      fun parameter => !parameter.isEmpty) = parameters.map WrittenParameter.text := by
  rw [Text.columns_append_run blank]
  by_cases present : parameters = []
  · subst present
    rfl
  · rw [columns_items written present, List.map_map]
    have squeezed : parameters.map ([' '].intercalate ∘ fun parameter => Text.words parameter.text) =
        parameters.map WrittenParameter.text :=
      List.map_congr_left fun parameter inside => (written parameter inside).singleSpaced.squeeze
    rw [squeezed, List.filter_eq_self]
    intro text member
    obtain ⟨parameter, inside, rfl⟩ := List.mem_map.1 member
    have nonempty := (written parameter inside).singleSpaced.trimmed.nonempty
    simpa using nonempty

theorem eachLine_items : EachLine Quiet ([';'].intercalate (parameters.map WrittenParameter.item)) := by
  have separator : Quiet [';'] := ⟨.char (by decide) .nil, .of_first (by decide) (by decide) (by decide) []⟩
  refine Text.intercalate_of_append (fun first second => first.append Quiet.append second)
    (.of_blank (List.forall_mem_nil _) fun _ blank => Quiet.blank blank) (.of_line (by decide) separator separator) ?_
  exact List.forall_mem_map.2 fun parameter inside => (written parameter inside).eachLine

theorem neutral_items : Neutral ([';'].intercalate (parameters.map WrittenParameter.item)) := by
  refine Text.intercalate_of_append Neutral.append .nil (.char (by decide) .nil) ?_
  exact List.forall_mem_map.2 fun parameter inside =>
    (Neutral.blank (written parameter inside).lead).append (written parameter inside).neutral

end Lists

/-- The header of a procedure as it is written. The blanks before a parameter and before the closing parenthesis may go on
to other lines. -/
structure WrittenHeader where
  indent : List Char
  modifiers : List HeaderWord
  keyword : List Char
  gap : List Char
  name : WrittenName
  parameters : List WrittenParameter
  trail : List Char
  returnType : Option (List Char)
  ending : List Char

namespace WrittenHeader

/-- The words of a header and its name. -/
def front (header : WrittenHeader) : List Char :=
  header.indent ++ (header.modifiers.flatMap HeaderWord.text ++ (header.keyword ++ (header.gap ++ header.name.text)))

def list (header : WrittenHeader) : List Char :=
  [';'].intercalate (header.parameters.map WrittenParameter.item) ++ header.trail

def result (header : WrittenHeader) : List Char :=
  match header.returnType with
  | some type => ':' :: ' ' :: type
  | none => []

def text (header : WrittenHeader) : List Char :=
  header.front ++ '(' :: (header.list ++ ')' :: (header.result ++ header.ending))

theorem text_returned (header : WrittenHeader) :
    text { header with ending := header.ending ++ ['\r'] } = header.text ++ ['\r'] := by
  simp [text, front, list, result]

def record (header : WrittenHeader) : ProcedureRecord :=
  { name := String.ofList header.name.value
    parameters := header.parameters.map fun parameter => String.ofList parameter.text
    returnType := header.returnType.map String.ofList }

structure WellFormed (header : WrittenHeader) : Prop where
  indent : Inline header.indent
  modifiers : ∀ word ∈ header.modifiers, word.WellFormed ∧ Text.sameWord word.letters "local".toList = false
  keyword : Text.Spells "procedure".toList header.keyword
  gap : IsInlineGap header.gap
  name : header.name.WellFormed
  parameters : ∀ parameter ∈ header.parameters, parameter.WellFormed
  trail : ∀ c ∈ header.trail, Text.isBlank c = true
  returnType : ∀ type, header.returnType = some type → IsType type
  ending : Inline header.ending

namespace WellFormed

variable {header : WrittenHeader} (written : header.WellFormed)

include written

theorem reads (rest : List Char) :
    procedureHeader? (header.front ++ ['('] ++ rest) = some ⟨false, header.name.value, rest⟩ := by
  have named : BeginsName (header.keyword ++ (header.gap ++ (header.name.text ++ '(' :: rest))) := by
    simpa [HeaderWord.text] using (wellFormed_keyword written.keyword written.gap).beginsName.append (header.name.text ++ '(' :: rest)
  have begins := beginsName_words (fun word inside => (written.modifiers word inside).1) named
  have line : header.front ++ ['('] ++ rest = header.indent ++ (header.modifiers.flatMap HeaderWord.text ++
      (header.keyword ++ (header.gap ++ (header.name.text ++ '(' :: rest)))) := by
    simp [front]
  have enough : header.modifiers.length < (header.front ++ ['('] ++ rest).length + 1 := by
    have words : header.modifiers.length ≤ (header.modifiers.flatMap HeaderWord.text).length :=
      length_le_flatMap fun word inside => (written.modifiers word inside).1
    simp only [front, List.length_append]
    omega
  have start : Text.trimStart (header.front ++ ['('] ++ rest) = header.modifiers.flatMap HeaderWord.text ++
      (header.keyword ++ (header.gap ++ (header.name.text ++ '(' :: rest))) := by
    rw [line, Text.trimStart_run written.indent.blank begins.unblank]
  rw [procedureHeader?, start]
  exact headerAfter?_words written.keyword written.gap written.name written.modifiers enough rest

theorem neutral_front : Neutral header.front := by
  have words : Neutral (header.modifiers.flatMap HeaderWord.text) :=
    .flatMap fun word inside => (written.modifiers word inside).1.neutral
  have keyword : Neutral header.keyword := .of_class (p := Char.isAlpha) (by decide) written.keyword.isAlpha
  exact (Neutral.blank written.indent.blank).append
    (words.append (keyword.append ((Neutral.blank written.gap.blank).append (Neutral.name written.name))))

theorem newline_not_mem_front : '\n' ∉ header.front := by
  simp only [front, List.mem_append, List.mem_flatMap, not_or, not_exists, not_and]
  exact ⟨written.indent.unbroken, fun word inside => (written.modifiers word inside).1.unbroken,
    fun inside => absurd (written.keyword.isAlpha _ inside) (by decide), written.gap.unbroken, newline_not_mem_text written.name⟩

theorem result_cases : header.result = [] ∧ header.returnType = none ∨
    ∃ type, header.result = ':' :: ' ' :: type ∧ header.returnType = some type ∧ IsType type := by
  cases shape : header.returnType with
  | none => exact .inl ⟨by rw [result, shape], rfl⟩
  | some type => exact .inr ⟨type, by rw [result, shape], rfl, written.returnType type shape⟩

theorem neutral_result : Neutral header.result := by
  rcases written.result_cases with ⟨empty, -⟩ | ⟨type, same, -, isType⟩
  · exact empty ▸ .nil
  · exact same ▸ .char (by decide) (.char (by decide) isType.neutral)

theorem newline_not_mem_result : '\n' ∉ header.result := by
  rcases written.result_cases with ⟨empty, -⟩ | ⟨type, same, -, isType⟩
  · rw [empty]
    exact List.not_mem_nil
  · rw [same, List.mem_cons, List.mem_cons, not_or, not_or]
    exact ⟨by decide, by decide, isType.spaced.unbroken⟩

theorem newline_not_mem_closing : '\n' ∉ ')' :: (header.result ++ header.ending) := by
  rw [List.mem_cons, List.mem_append, not_or, not_or]
  exact ⟨by decide, written.newline_not_mem_result, written.ending.unbroken⟩

theorem returnType? {ending : List Char} (blank : ∀ c ∈ ending, Text.isBlank c = true) :
    returnType? (header.result ++ ending) = header.returnType := by
  rcases written.result_cases with ⟨empty, absent⟩ | ⟨type, same, present, isType⟩
  · have uncut : Text.cutAt? ':' ending = none := by
      cases cut : Text.cutAt? ':' ending with
      | none => rfl
      | some parts =>
        have inside : ':' ∈ ending := by rw [Text.eq_of_cutAt? cut]; simp
        exact absurd inside (Text.not_mem_of_blank blank (by decide))
    rw [empty, absent, List.nil_append, Source.returnType?, uncut]
    rfl
  · have trimmed := isType.spaced.trimmed
    have cut : Text.cutAt? ':' (':' :: ' ' :: type ++ ending) = some ([], ' ' :: (type ++ ending)) := rfl
    have inner : Text.trim (' ' :: (type ++ ending)) = type := by
      have start : Text.trimStart (' ' :: (type ++ ending)) = type ++ ending :=
        @Text.trimStart_run [' '] _ (List.all_eq_true.1 rfl) (trimmed.stops.append trimmed.nonempty ending)
      rw [Text.trim, start, Text.trimEnd, Text.dropEndWhile_run blank, Text.dropEndWhile_ends trimmed.ends]
    have whole : type.takeWhile (· != ';') = type := by
      have taken := Text.takeWhile_run (p := (· != ';')) (fun c inside => by
        rw [bne_iff_ne]
        rintro rfl
        exact isType.undivided inside) (.nil _)
      rwa [List.append_nil] at taken
    have nonempty : type.isEmpty = false := List.isEmpty_eq_false_iff.2 trimmed.nonempty
    rw [same, present, Source.returnType?]
    simp only [Option.bind_eq_bind, cut, Option.bind_some, inner, whole, isType.spaced.squeeze, nonempty]
    rfl

/-- Nothing of a header is taken for a comment. -/
theorem stripFrom (rest : List Char) : Lexical.stripFrom .modern .normal 0 (header.text ++ rest) =
    header.text ++ Lexical.stripFrom .modern .normal 0 rest := by
  have list : Neutral header.list := (neutral_items written.parameters).append (.blank written.trail)
  have behind : Neutral (header.result ++ header.ending) := written.neutral_result.append (.blank written.ending.blank)
  simp only [text, List.append_assoc, List.cons_append]
  rw [written.neutral_front.stripFrom_append, Neutral.stripFrom_char (by decide), list.stripFrom_append,
    Neutral.stripFrom_char (by decide), ← List.append_assoc, behind.stripFrom_append, List.append_assoc]

theorem eachLine : EachLine Quiet header.list :=
  (eachLine_items written.parameters).append Quiet.append (.of_blank written.trail fun _ blank => Quiet.blank blank)

/-- A result ends with no carriage return of its own. -/
theorem stripReturn_closing (before : List Char) : stripReturn (before ++ ')' :: (header.result ++ header.ending)) =
    before ++ ')' :: (header.result ++ stripReturn header.ending) := by
  have shape (ending : List Char) : before ++ ')' :: (header.result ++ ending) = before ++ ')' :: header.result ++ ending := by
    simp
  have kept : stripReturn (before ++ ')' :: header.result) = before ++ ')' :: header.result := by
    rcases written.result_cases with ⟨empty, -⟩ | ⟨type, same, -, isType⟩
    · rw [empty, Text.stripReturn_concat, if_neg (by decide)]
    · have typed : before ++ ')' :: header.result = before ++ [')', ':', ' '] ++ type := by
        rw [same]
        simp
      rw [typed, Text.stripReturn_append isType.spaced.trimmed.nonempty, isType.spaced.stripReturn]
  rw [shape, Text.stripReturn_kept kept, shape]

/-- Only the first line of a header has the words, and only the last one has the result. -/
theorem lines_text {front : List (List Char)} {last : List Char} (split : splitAt '\n' header.list = front ++ [last]) :
    ∃ ending, (∀ c ∈ ending, Text.isBlank c = true) ∧
      (splitAt '\n' header.text).map stripReturn =
        splice [header.front ++ ['(']] (front.map stripReturn ++ [last ++ ')' :: (header.result ++ ending)]) := by
  have opening : '\n' ∉ header.front ++ ['('] := by
    rw [List.mem_append, not_or]
    exact ⟨written.newline_not_mem_front, by decide⟩
  have parts : splitAt '\n' header.text =
      splice [header.front ++ ['(']] (front ++ [last ++ ')' :: (header.result ++ header.ending)]) := by
    have whole : header.text = header.front ++ ['('] ++ (header.list ++ ')' :: (header.result ++ header.ending)) := by
      simp [text]
    rw [whole, Text.splitAt_splice, Text.splitAt_of_not_mem opening, Text.splitAt_splice, split,
      Text.splitAt_of_not_mem written.newline_not_mem_closing, Text.splice_concat]
  have kept : stripReturn (header.front ++ ['(']) = header.front ++ ['('] := by
    rw [Text.stripReturn_concat, if_neg (by decide)]
  refine ⟨stripReturn header.ending, fun c inside => written.ending.blank c (Text.mem_of_mem_stripReturn inside), ?_⟩
  rw [parts, Text.map_stripReturn_splice kept (by simp), List.map_append, List.map_singleton, written.stripReturn_closing]

/-- The lines of a header leave its procedure closed. -/
theorem foldl_step (scan : ProcedureScan) :
    ∃ procedure, ((splitAt '\n' header.text).map stripReturn).foldl ProcedureScan.step scan =
        ⟨scan.records, some procedure⟩ ∧ procedure.closed = true ∧ procedure.finish = header.record := by
  obtain ⟨front, last, split⟩ := Text.exists_splitAt_concat '\n' header.list
  have quiet : ∀ line ∈ front ++ [last], Quiet line ∧ Quiet (stripReturn line) := split ▸ written.eachLine
  obtain ⟨ending, blank, lines⟩ := written.lines_text split
  obtain ⟨parameters, folded, same⟩ := foldl_step_header written.reads
    (fun line inside => (quiet line (List.mem_append_left _ inside)).2) (quiet last (by simp)).1 scan (header.result ++ ending)
  refine ⟨_, lines ▸ folded, rfl, ?_⟩
  have whole : columns parameters = columns header.list := by
    rw [same, ← split, Text.intercalate_splitAt]
  have listed : (OpenProcedure.finish ⟨header.name.value, parameters, true, Source.returnType? (header.result ++ ending)⟩).parameters =
      header.record.parameters := by
    rw [finish_parameters, whole, list, parameters_of_columns written.parameters written.trail, List.map_map]
    rfl
  rw [written.returnType? blank] at listed ⊢
  rw [record, ProcedureRecord.mk.injEq]
  exact ⟨rfl, listed, rfl⟩

theorem returned : WellFormed { header with ending := header.ending ++ ['\r'] } := by
  refine { written with ending := ⟨fun c inside => ?_, ?_⟩ }
  · rcases List.mem_append.1 inside with before | last
    · exact written.ending.blank c before
    · rw [List.mem_singleton.1 last]
      rfl
  · rw [List.mem_append, not_or]
    exact ⟨written.ending.unbroken, by decide⟩

/-- The end of a text ends a header as a line end does. -/
theorem lines_alone : Text.lines header.text = (splitAt '\n' (header.text ++ ['\r'])).map stripReturn := by
  obtain ⟨rest, c, same⟩ := (List.eq_nil_or_concat (')' :: (header.result ++ header.ending))).resolve_left (by simp)
  rw [List.concat_eq_append] at same
  have other : c ≠ '\n' := by
    rintro rfl
    exact written.newline_not_mem_closing (by rw [same]; simp)
  have whole : header.text = header.front ++ '(' :: (header.list ++ rest) ++ [c] := by
    rw [text, same]
    simp
  have ended := Text.lines_returned other (header.front ++ '(' :: (header.list ++ rest))
  have lineEnd : header.text ++ ['\r', '\n'] = header.text ++ ['\r'] ++ '\n' :: [] := by simp
  have none : Text.lines [] = [] := rfl
  rw [← whole] at ended
  rw [← ended, lineEnd, Text.lines_newline, none, List.append_nil]

end WellFormed

end WrittenHeader

/-- Lines of which none is a header once comments are blanked out. -/
def Headerless (text : List Char) : Prop :=
  ∀ line ∈ Text.lines (Lexical.stripComments .modern text), procedureHeader? line = none

/-- Whole lines without a header, after which no comment and no string is open. -/
structure Filler (text : List Char) : Prop where
  whole : text = [] ∨ text.getLast? = some '\n'
  settled : Lexical.phaseAfter .modern none .normal text = .normal
  headerless : Headerless text

/-- A text with these headers, each of them on lines of its own. -/
inductive HasHeaders : List WrittenHeader → List Char → Prop where
  | nil {text : List Char} (headerless : Headerless text) : HasHeaders [] text
  | last {filler : List Char} {header : WrittenHeader} (between : Filler filler) (written : header.WellFormed) :
      HasHeaders [header] (filler ++ header.text)
  | cons {filler rest : List Char} {header : WrittenHeader} {headers : List WrittenHeader} (between : Filler filler)
      (written : header.WellFormed) (more : HasHeaders headers rest) :
      HasHeaders (header :: headers) (filler ++ (header.text ++ '\n' :: rest))

theorem Filler.stripFrom {filler : List Char} (between : Filler filler) (rest : List Char) :
    Lexical.stripFrom .modern .normal 0 (filler ++ rest) =
      Lexical.stripComments .modern filler ++ Lexical.stripFrom .modern .normal 0 rest := by
  rcases between.whole with rfl | ends
  · rfl
  · have split := @Lexical.stripFrom_append .modern .normal 0 filler rest (.of_newline ends rest)
    rwa [between.settled] at split

/-- Lines between headers change nothing. -/
theorem Filler.foldl_step {filler : List Char} (between : Filler filler) {scan : ProcedureScan} (settled : Settled scan)
    (rest : List Char) :
    (Text.lines (Lexical.stripComments .modern filler ++ rest)).foldl ProcedureScan.step scan =
      (Text.lines rest).foldl ProcedureScan.step scan := by
  rcases between.whole with rfl | ends
  · rfl
  · have ended : (Lexical.stripComments .modern filler).getLast? = some '\n' := Lexical.getLast?_stripFrom .normal 0 ends
    rw [Text.lines_append ended, List.foldl_append, foldl_step_settled settled between.headerless]

theorem HasHeaders.records_foldl {headers : List WrittenHeader} {text : List Char} (holds : HasHeaders headers text)
    {scan : ProcedureScan} (settled : Settled scan) :
    ((Text.lines (Lexical.stripFrom .modern .normal 0 text)).foldl ProcedureScan.step scan).records =
      scan.records ++ headers.map WrittenHeader.record := by
  induction holds generalizing scan with
  | nil headerless =>
    rw [List.map_nil, List.append_nil]
    exact congrArg ProcedureScan.records (foldl_step_settled settled headerless)
  | @last filler header between written =>
    obtain ⟨procedure, folded, -, finished⟩ := written.returned.foldl_step scan
    have alone : Lexical.stripFrom .modern .normal 0 header.text = header.text := by
      have whole := written.stripFrom []
      rw [List.append_nil] at whole
      rw [whole]
      exact List.append_nil _
    rw [WrittenHeader.text_returned] at folded
    rw [between.stripFrom, between.foldl_step settled, alone, written.lines_alone, folded, List.map_singleton,
      ProcedureScan.records]
    exact congrArg (scan.records ++ [·]) finished
  | cons between written more ih =>
    obtain ⟨procedure, folded, closed, finished⟩ := written.foldl_step scan
    have after : Settled ⟨scan.records, some procedure⟩ := by
      rintro other same
      cases same
      exact closed
    have newline (rest : List Char) : Lexical.stripFrom .modern .normal 0 ('\n' :: rest) =
        '\n' :: Lexical.stripFrom .modern .normal 0 rest := Neutral.stripFrom_char (by decide) 0 rest
    rw [between.stripFrom, between.foldl_step settled, written.stripFrom, newline, Text.lines_newline, List.foldl_append,
      folded, ih after, List.map_cons, ← finished]
    simp [ProcedureScan.records]

/-- Headers read back as the procedures they were written for. -/
theorem procedures_of_headers {headers : List WrittenHeader} {text : List Char} (current : Legacy.isLegacy text = false)
    (holds : HasHeaders headers text) : procedures text = headers.map WrittenHeader.record := by
  have settled : Settled ⟨[], none⟩ := nofun
  rw [procedures_of_current current]
  exact holds.records_foldl settled

def spreadHeader : WrittenHeader where
  indent := "  ".toList
  modifiers := [⟨"internal".toList, " ".toList⟩]
  keyword := "procedure".toList
  gap := " ".toList
  name := .quoted "Post (all)".toList
  parameters := [⟨"\r\n    ".toList, true, .quoted "No.".toList, "Code[20]".toList⟩,
    ⟨"\n    ".toList, false, .plain "Header".toList, "Record \"Sales (old)\"".toList⟩]
  trail := "\n  ".toList
  returnType := some "Boolean".toList
  ending := "\r".toList

def plainHeader : WrittenHeader where
  indent := []
  modifiers := []
  keyword := "procedure".toList
  gap := " ".toList
  name := .plain "Next".toList
  parameters := []
  trail := []
  returnType := none
  ending := []

/-- Two procedures below a comment that holds a third one. -/
def signedUnit : List Char :=
  ("// procedure Old()\n" ++
    "  internal procedure \"Post (all)\"(\r\n    var \"No.\": Code[20];\n    Header: Record \"Sales (old)\"\n  ): Boolean\r\n" ++
    "begin\nend;\nprocedure Next()").toList

theorem procedures_of_signedUnit :
    procedures signedUnit =
      [⟨"Post (all)", ["var \"No.\": Code[20]", "Header: Record \"Sales (old)\""], some "Boolean"⟩, ⟨"Next", [], none⟩] := by
  have space : IsInlineGap " ".toList := ⟨⟨List.all_eq_true.1 rfl, by decide⟩, by decide⟩
  have keyword : Text.Spells "procedure".toList "procedure".toList := ⟨by decide, List.all_eq_true.1 rfl⟩
  have unblank {word : List Char} (all : word.all (fun c => !Text.isBlank c) = true) : ∀ c ∈ word, Text.isBlank c = false :=
    fun c inside => by simpa using List.all_eq_true.1 all c inside
  have word {word : List Char} (present : word ≠ []) (all : word.all (fun c => !Text.isBlank c) = true) :
      SingleSpaced word := .word present (unblank all)
  have neutral {type : List Char} (all : type.all (fun c => c.isAlphanum || c == '[' || c == ']' || c == ' ') = true) :
      Neutral type := .of_class (p := fun c => c.isAlphanum || c == '[' || c == ']' || c == ' ') (by decide) (List.all_eq_true.1 all)
  have record : IsType "Record \"Sales (old)\"".toList := by
    have lead : Neutral "Record ".toList := neutral rfl
    have first : SingleSpaced "Record".toList := word (by decide) rfl
    have second : SingleSpaced "\"Sales".toList := word (by decide) rfl
    have third : SingleSpaced "(old)\"".toList := word (by decide) rfl
    exact ⟨lead.append (.quoted "Sales (old)".toList .nil), first.append (second.append third), by decide⟩
  have spread : spreadHeader.WellFormed :=
    { indent := ⟨List.all_eq_true.1 rfl, by decide⟩
      modifiers := List.forall_mem_cons.2 ⟨⟨⟨by decide, List.all_eq_true.1 rfl, space⟩, by decide⟩, List.forall_mem_nil _⟩
      keyword
      gap := space
      name := ⟨by decide, by decide⟩
      parameters := List.forall_mem_cons.2 ⟨
        { lead := List.all_eq_true.1 rfl
          name := ⟨by decide, by decide⟩
          spaced := word (by decide) rfl
          undivided := by decide
          type := ⟨neutral rfl, word (by decide) rfl, by decide⟩ },
        List.forall_mem_cons.2 ⟨
          { lead := List.all_eq_true.1 rfl
            name := ⟨'H', "eader".toList, rfl, by decide, List.all_eq_true.1 rfl⟩
            spaced := word (by decide) rfl
            undivided := by decide
            type := record },
          List.forall_mem_nil _⟩⟩
      trail := List.all_eq_true.1 rfl
      returnType := by
        rintro type same
        cases same
        exact ⟨neutral rfl, word (by decide) rfl, by decide⟩
      ending := ⟨List.all_eq_true.1 rfl, by decide⟩ }
  have plain : plainHeader.WellFormed :=
    { indent := ⟨List.forall_mem_nil _, List.not_mem_nil⟩
      modifiers := List.forall_mem_nil _
      keyword
      gap := space
      name := ⟨'N', "ext".toList, rfl, by decide, List.all_eq_true.1 rfl⟩
      parameters := List.forall_mem_nil _
      trail := List.forall_mem_nil _
      returnType := nofun
      ending := ⟨List.forall_mem_nil _, List.not_mem_nil⟩ }
  have headerless {text : List Char}
      (all : (Text.lines (Lexical.stripComments .modern text)).all (fun line => (procedureHeader? line).isNone) = true) :
      Headerless text := fun line inside => Option.isNone_iff_eq_none.1 (List.all_eq_true.1 all line inside)
  have above : Filler "// procedure Old()\n".toList := ⟨.inr (by decide), by decide +kernel, headerless (by decide +kernel)⟩
  have between : Filler "begin\nend;\n".toList := ⟨.inr (by decide), by decide +kernel, headerless (by decide +kernel)⟩
  have shape : signedUnit = "// procedure Old()\n".toList ++ (spreadHeader.text ++ '\n' :: ("begin\nend;\n".toList ++ plainHeader.text)) := by
    decide +kernel
  have holds : HasHeaders [spreadHeader, plainHeader] signedUnit := shape ▸ .cons above spread (.last between plain)
  rw [procedures_of_headers (by decide +kernel) holds]
  decide +kernel

end SymbolCache.Source
