import SymbolCache.Proofs.DictLookup
import SymbolCache.Proofs.JsonReadback
import SymbolCache.Worker.Peer

/-! Messages arrive as they were sent: every request, and every reply whose records have metadata that JSON can carry
and whose watermarks are numbers that JSON gives back. -/

namespace SymbolCache

/-- What the metadata of records is made of. -/
inductive Json.MetaValue : Json → Prop where
  | text (value : String) : MetaValue (.text value)
  | bool (value : Bool) : MetaValue (.bool value)
  | texts (values : List String) : MetaValue (.ofTexts values)

/-- Values that come back from their text, at a place where so many levels of arrays and objects are allowed. -/
structure Json.Lasting (levels : Nat) (value : Json) : Prop where
  printable : Json.Printable levels value
  plain : Json.plain? levels value = some value

/-- Records that come back from their text. -/
structure ObjectRecord.Lasting (levels : Nat) (record : ObjectRecord) : Prop where
  id : ∀ number, record.id = some number → -(2 : Int) ^ 63 ≤ number ∧ number < (2 : Int) ^ 63
  metadata : ∀ key value, record.metadata.get? key = some value → value.Lasting levels

/-- Records that a message can carry. -/
structure ObjectRecord.Sendable (record : ObjectRecord) : Prop where
  id : ∀ number, record.id = some number → -(2 : Int) ^ 63 ≤ number ∧ number < (2 : Int) ^ 63
  metadata : ∀ key value, record.metadata.get? key = some value → value.MetaValue

/-- Field indexes whose watermarks come back from their text. -/
def FieldIndex.Sendable (index : FieldIndex) : Prop :=
  ∀ path watermark, index.watermarks.get? path = some watermark → Json.Exact watermark

namespace Dict

variable {α : Type}

theorem ofList_entries (dict : Dict α) : ofList dict.entries = dict := by
  refine ext_get? fun key => ?_
  rw [ofList, get?_insertAll, get?_empty, Option.or_none]
  have same : dict.entries.filter (fun entry => entry.1 == key) =
      (dict.get? key).toList.map fun value => (key, value) := by
    refine eq_of_sorted (fun entry => String.lt_irrefl entry.1) (fun _ _ => String.lt_asymm) (dict.sorted.filter _)
      ?_ ?_
    · cases dict.get? key <;> simp
    · rintro ⟨other, value⟩
      rw [List.mem_filter, ← get?_eq_some_iff, beq_iff_eq]
      simp only [List.mem_map, Option.mem_toList, Prod.mk.injEq]
      constructor
      · rintro ⟨found, rfl⟩
        exact ⟨value, found, rfl, rfl⟩
      · rintro ⟨_, found, rfl, rfl⟩
        exact ⟨found, rfl⟩
  rw [same]
  cases dict.get? key <;> rfl

end Dict

namespace Json

section Containers

variable {α : Type} {decoder : Decoder α} {encode : α → Json} {inner : Nat}

private theorem mapM_map {β γ : Type} {read : β → Option γ} {write : γ → β} {items : List γ}
    (all : ∀ item ∈ items, read (write item) = some item) : (items.map write).mapM read = some items := by
  induction items with
  | nil => rfl
  | cons item rest ih =>
    have first := all item (List.mem_cons_self ..)
    have others := ih fun other inside => all other (List.mem_cons_of_mem _ inside)
    simp [first, others]

theorem Decoder.list_map {items : List α} (all : ∀ item ∈ items, decoder inner (encode item) = some item) :
    Decoder.list decoder (inner + 1) (.array (items.map encode)) = some items :=
  mapM_map all

theorem Decoder.dict_ofDict {dict : Dict α}
    (all : ∀ key value, dict.get? key = some value → decoder inner (encode value) = some value) :
    Decoder.dict decoder (inner + 1) (ofDict encode dict) = some dict := by
  have read : (dict.entries.map fun entry => (entry.1, encode entry.2)).mapM
      (fun entry => (decoder inner entry.2).map (Prod.mk entry.1)) = some dict.entries := by
    refine mapM_map ?_
    rintro ⟨key, value⟩ inside
    simp [all key value (Dict.get?_eq_some_iff.2 inside)]
  show Option.map _ _ = _
  rw [read, Option.map_some, Dict.ofList_entries]

theorem printable_map {items : List α} (all : ∀ item ∈ items, Printable inner (encode item)) :
    Printable (inner + 1) (.array (items.map encode)) := by
  refine .array ?_
  intro json inside
  obtain ⟨item, member, rfl⟩ := List.mem_map.1 inside
  exact all item member

theorem printable_ofDict {dict : Dict α} (all : ∀ key value, dict.get? key = some value → Printable inner (encode value)) :
    Printable (inner + 1) (ofDict encode dict) := by
  refine .object ?_
  intro entry inside
  obtain ⟨⟨key, value⟩, member, rfl⟩ := List.mem_map.1 inside
  exact all key value (Dict.get?_eq_some_iff.2 member)

end Containers

theorem printable_ofTexts {inner : Nat} (texts : List String) : Printable (inner + 1) (ofTexts texts) :=
  printable_map fun text _ => .text text

private theorem plainItems?_texts (inner : Nat) (texts : List String) :
    plainItems? inner (texts.map .text) = some (texts.map .text) := by
  induction texts with
  | nil => rfl
  | cons text rest ih => simp [plainItems?, plain?, ih]

theorem MetaValue.lasting {value : Json} (plain : MetaValue value) (inner : Nat) : value.Lasting (inner + 1) := by
  cases plain with
  | text value => exact ⟨.text value, rfl⟩
  | bool value => exact ⟨.bool value, rfl⟩
  | texts values => exact ⟨printable_ofTexts values, by simp [ofTexts, Json.plain?, plainItems?_texts]⟩

theorem kind_keyword (levels : Nat) (kind : ObjectKind) : Decoder.kind levels (.text kind.keyword) = some kind := by
  cases kind <;> rfl

section Records

variable {levels inner : Nat}

theorem printable_entriesOf {key : String} {given : Option String} {entry : String × Json}
    (inside : entry ∈ entriesOf key (given.map .text)) : Printable levels entry.2 := by
  cases given with
  | none => cases inside
  | some text =>
    obtain rfl := List.mem_singleton.1 inside
    exact .text text

theorem printable_ofRecord {record : ObjectRecord} (lasting : record.Lasting levels) :
    Printable (levels + 2) (ofRecord record) := by
  refine .object ?_
  intro entry inside
  simp only [List.mem_append, List.mem_cons, List.not_mem_nil, or_false] at inside
  rcases inside with (((rfl | rfl) | inId) | inApp) | inMeta
  · exact .text _
  · exact .text _
  · cases given : record.id with
    | none => simp [given, entriesOf] at inId
    | some number =>
      obtain ⟨low, high⟩ := lasting.id number given
      obtain rfl : entry = ("id", .int number) := by simpa [given, entriesOf] using inId
      exact .int low (by omega)
  · exact printable_entriesOf inApp
  · split at inMeta
    · cases inMeta
    · obtain rfl := List.mem_singleton.1 inMeta
      exact printable_ofDict fun key value found => (lasting.metadata key value found).printable

theorem objectRecord_ofRecord {record : ObjectRecord} (lasting : record.Lasting levels) :
    Decoder.objectRecord (levels + 2) (ofRecord record) = some record := by
  obtain ⟨name, kind, number, app, metadata⟩ := record
  have dict : Decoder.dict Decoder.value (levels + 1) (ofDict id metadata) = some metadata :=
    Decoder.dict_ofDict fun key value found => (lasting.metadata key value found).plain
  have int : ∀ given, number = some given → Decoder.int64 (levels + 1) (.int given) = some given := by
    intro given same
    obtain ⟨low, high⟩ := lasting.id given same
    simp only [Decoder.int64, Decoder.intBetween, Bool.and_eq_true, decide_eq_true_eq]
    exact if_pos ⟨low, Int.le_sub_one_of_lt high⟩
  have unnamed : metadata.isEmpty = true → Dict.empty = metadata := by
    intro none
    obtain ⟨entries, sorted⟩ := metadata
    obtain rfl := List.isEmpty_iff.1 none
    rfl
  unfold ofRecord Decoder.objectRecord Decoder.record
  cases number <;> cases app <;> by_cases none : metadata.isEmpty = true <;>
    simp [entriesOf, none, unnamed, Fields.known?, Fields.required, Fields.optional, Fields.orDefault, List.lookup_cons,
      kind_keyword, Decoder.text, asText?, Decoder.option, dict, int]

theorem printable_ofProcedure (procedure : ProcedureRecord) : Printable (inner + 2) (ofProcedure procedure) := by
  refine .object ?_
  intro entry inside
  simp only [List.mem_append, List.mem_cons, List.not_mem_nil, or_false] at inside
  rcases inside with (rfl | rfl) | inType
  · exact .text _
  · exact printable_ofTexts _
  · exact printable_entriesOf inType

theorem procedure_ofProcedure (procedure : ProcedureRecord) :
    Decoder.procedure (inner + 2) (ofProcedure procedure) = some procedure := by
  obtain ⟨name, parameters, returnType⟩ := procedure
  have texts : Decoder.list Decoder.text (inner + 1) (ofTexts parameters) = some parameters :=
    Decoder.list_map fun _ _ => rfl
  unfold ofProcedure Decoder.procedure Decoder.record
  cases returnType <;>
    simp [entriesOf, Fields.known?, Fields.required, Fields.optional, Fields.orDefault, List.lookup_cons, Decoder.text,
      asText?, Decoder.option, texts]

theorem printable_ofProcedures (procedures : List ProcedureRecord) :
    Printable (inner + 3) (ofProcedures procedures) :=
  printable_map fun procedure _ => printable_ofProcedure procedure

theorem list_ofProcedures (procedures : List ProcedureRecord) :
    Decoder.list Decoder.procedure (inner + 3) (ofProcedures procedures) = some procedures :=
  Decoder.list_map fun procedure _ => procedure_ofProcedure procedure

end Records

section Fields

variable {inner : Nat}

theorem option_ofOption (levels : Nat) (given : Option String) :
    Decoder.option Decoder.text levels (ofOption .text given) = some given := by
  cases given <;> rfl

theorem printable_ofOption (levels : Nat) (given : Option String) : Printable levels (ofOption .text given) := by
  cases given with
  | none => exact .null
  | some text => exact .text text

theorem textSet_ofTextSet (set : TextSet) : Decoder.textSet (inner + 1) (ofTextSet set) = some set := by
  have texts : Decoder.list Decoder.text (inner + 1) (ofTextSet set) = some set.toList :=
    Decoder.list_map fun _ _ => rfl
  have same : set.toList.map (fun text => (text, ())) = set.entries := by
    rw [TextSet.toList, Dict.keys, List.map_map]
    exact List.map_id _
  rw [Decoder.textSet, texts, Option.map_some, TextSet.ofList, same, Dict.ofList_entries]

theorem printable_ofContribution (contribution : Contribution) : Printable (inner + 3) (ofContribution contribution) := by
  refine .object ?_
  intro entry inside
  simp only [List.mem_append, List.mem_cons, List.not_mem_nil, or_false] at inside
  rcases inside with (rfl | rfl) | inDeclared
  · exact printable_ofDict fun _ set _ => printable_ofTexts set.toList
  · exact printable_ofDict fun _ source _ => printable_ofOption _ source
  · split at inDeclared
    · obtain rfl := List.mem_singleton.1 inDeclared
      exact .text _
    · cases inDeclared

theorem contribution_ofContribution (contribution : Contribution) :
    Decoder.contribution (inner + 3) (ofContribution contribution) = some contribution := by
  obtain ⟨tables, pages, declaredTable⟩ := contribution
  have sets : Decoder.dict Decoder.textSet (inner + 2) (ofDict ofTextSet tables) = some tables :=
    Decoder.dict_ofDict fun _ set _ => textSet_ofTextSet set
  have sources : Decoder.dict (Decoder.option Decoder.text) (inner + 2) (ofDict (ofOption .text) pages) = some pages :=
    Decoder.dict_ofDict fun _ source _ => option_ofOption _ source
  unfold ofContribution Decoder.contribution Decoder.record
  cases declaredTable <;>
    simp [Fields.known?, Fields.optional, Fields.orDefault, List.lookup_cons, Decoder.text, asText?, Decoder.option, sets,
      sources]

theorem tableFields_ofTableFields (tables : Dict (List String)) :
    Decoder.tableFields (inner + 2) (ofTableFields tables) = some tables :=
  Decoder.dict_ofDict fun _ _ _ => Decoder.list_map fun _ _ => rfl

theorem pageSources_ofPageSources (pages : Dict (Option String)) :
    Decoder.pageSources (inner + 1) (ofPageSources pages) = some pages :=
  Decoder.dict_ofDict fun _ source _ => option_ofOption _ source

theorem watermarks_ofWatermarks (watermarks : Dict Binary64) :
    Decoder.watermarks (inner + 1) (ofWatermarks watermarks) = some watermarks :=
  Decoder.dict_ofDict fun _ _ _ => rfl

theorem contributions_ofContributions (contributions : Dict Contribution) :
    Decoder.contributions (inner + 4) (ofContributions contributions) = some contributions :=
  Decoder.dict_ofDict fun _ contribution _ => contribution_ofContribution contribution

end Fields

section Messages

/-- A message is told by its type, and all else in it is kept. -/
private theorem tagged?_message {tag : String} {others : List (String × Json)}
    (printable : ∀ entry ∈ others, Printable 126 entry.2) (untagged : ∀ entry ∈ others, entry.1 ≠ "type") :
    (parse? (compactChars (.object (("type", .text tag) :: others)))).bind tagged? = some (tag, .object others) := by
  have whole : Printable 127 (.object (("type", .text tag) :: others)) := by
    refine .object ?_
    intro entry inside
    rcases List.mem_cons.1 inside with rfl | later
    · exact .text tag
    · exact printable entry later
  obtain ⟨plain, found⟩ := exists_plainEntries? fun entry inside => (printable entry inside).exists_plain?
  have parts : (("type", Json.text tag) :: others).partition (fun entry => entry.1 == "type") =
      ([("type", .text tag)], others) := by
    have none : others.filter (fun entry => entry.1 == "type") = [] := by
      rw [List.filter_eq_nil_iff]
      intro entry inside
      simpa using untagged entry inside
    have all : others.filter (not ∘ fun entry => entry.1 == "type") = others := by
      rw [List.filter_eq_self]
      intro entry inside
      simpa using untagged entry inside
    rw [List.partition_eq_filter_filter, List.filter_cons_of_pos (by rfl), List.filter_cons_of_neg (by simp), none, all]
  rw [parse?_compactChars whole, Option.bind_some, tagged?, parts]
  simp only [show maxNesting - 1 = 126 from rfl, found]
  rfl

theorem printable_ofProcessOptions {inner : Nat} (options : ProcessOptions) :
    Printable (inner + 1) (ofProcessOptions options) := by
  refine .object ?_
  intro entry inside
  simp only [List.mem_append, List.mem_cons, List.not_mem_nil, or_false] at inside
  rcases inside with ((rfl | rfl | rfl) | inSource) | rfl | rfl
  · exact .text _
  · exact .text _
  · exact .bool _
  · exact printable_entriesOf inSource
  · exact .text _
  · exact .bool _

theorem processOptions_ofProcessOptions {inner : Nat} (options : ProcessOptions) :
    Decoder.processOptions (inner + 1) (ofProcessOptions options) = some options := by
  obtain ⟨cachePath, extractPath, enabled, sourcePath, logLevel, procedures⟩ := options
  cases sourcePath <;> rfl

theorem printable_ofFieldOptions {inner : Nat} (options : FieldOptions) :
    Printable (inner + 1) (ofFieldOptions options) := by
  refine .object ?_
  intro entry inside
  simp only [List.mem_append, List.mem_cons, List.not_mem_nil, or_false] at inside
  rcases inside with ((rfl | rfl) | inApp) | rfl
  · exact .text _
  · exact .text _
  · exact printable_entriesOf inApp
  · exact .text _

theorem fieldOptions_ofFieldOptions {inner : Nat} (options : FieldOptions) :
    Decoder.fieldOptions (inner + 1) (ofFieldOptions options) = some options := by
  obtain ⟨sourcePath, storagePath, appName, logLevel⟩ := options
  cases appName <;> rfl

variable {line : List Char} {tag : String} {content : Json}

private theorem request?_of_tagged (tagged : (parse? line).bind tagged? = some (tag, content)) :
    request? line = decode? (Decoder.requestOf tag) content := by
  unfold request?
  cases parsed : parse? line with
  | none => simp [parsed] at tagged
  | some json =>
    have found : tagged? json = some (tag, content) := by simpa [parsed] using tagged
    simp [found]

private theorem reply?_of_tagged (tagged : (parse? line).bind tagged? = some (tag, content)) :
    reply? line = decode? (Decoder.replyOf tag) content := by
  unfold reply?
  cases parsed : parse? line with
  | none => simp [parsed] at tagged
  | some json =>
    have found : tagged? json = some (tag, content) := by simpa [parsed] using tagged
    simp [found]

/-- Replies with nothing but a message. -/
private theorem reply?_notice {make : String → Reply} (reads : Decoder.replyOf tag = Decoder.record [⟨"message", false⟩]
    fun fields => do return make (← fields.required "message" Decoder.text)) (message : String) :
    reply? (compactChars (.object [("type", .text tag), ("message", .text message)])) = some (make message) := by
  have printable : ∀ entry ∈ [("message", Json.text message)], Printable 126 entry.2 := by simpa using .text message
  rw [reply?_of_tagged (tagged?_message printable (by simp)), reads]
  simp [decode?, maxNesting, Decoder.record, Fields.known?, Fields.required, Decoder.text, asText?]

theorem printable_ofRequest (request : Request) : Printable 127 (ofRequest request) := by
  cases request with
  | process path options => exact .object (by simpa using ⟨.text _, .text path, printable_ofProcessOptions options⟩)
  | updateFields options => exact .object (by simpa using ⟨.text _, printable_ofFieldOptions options⟩)
  | setLogLevel level => exact .object (by simpa using ⟨.text _, .text level⟩)

/-- Requests arrive as they were sent. -/
theorem request?_ofRequest (request : Request) : request? (ofRequest request).compactChars = some request := by
  cases request with
  | process path options =>
    have printable : ∀ entry ∈ [("appPath", Json.text path), ("options", ofProcessOptions options)],
        Printable 126 entry.2 := by
      simpa using ⟨.text path, printable_ofProcessOptions options⟩
    rw [ofRequest, request?_of_tagged (tagged?_message printable (by simp))]
    simp [decode?, maxNesting, Decoder.requestOf, Decoder.record, Fields.known?, Fields.required, List.lookup_cons,
      Decoder.text, asText?, processOptions_ofProcessOptions]
  | updateFields options =>
    have printable : ∀ entry ∈ [("options", ofFieldOptions options)], Printable 126 entry.2 := by
      simpa using printable_ofFieldOptions options
    rw [ofRequest, request?_of_tagged (tagged?_message printable (by simp))]
    simp [decode?, maxNesting, Decoder.requestOf, Decoder.record, Fields.known?, Fields.required,
      fieldOptions_ofFieldOptions]
  | setLogLevel level =>
    have printable : ∀ entry ∈ [("logLevel", Json.text level)], Printable 126 entry.2 := by
      simpa using .text level
    rw [ofRequest, request?_of_tagged (tagged?_message printable (by simp))]
    simp [decode?, maxNesting, Decoder.requestOf, Decoder.record, Fields.known?, Fields.required,
      Decoder.text, asText?]

end Messages

end Json

/-- Replies that arrive as they were sent. -/
inductive Reply.Sendable : Reply → Prop where
  | progress (message : String) : Sendable (.progress message)
  | warning (message : String) : Sendable (.warning message)
  | error (message : String) (stack appPath : Option String) : Sendable (.error message stack appPath)
  | success {symbols : List ObjectRecord} (procedures : Dict (List ProcedureRecord)) (appPath : Path)
      (records : ∀ record ∈ symbols, record.Sendable) : Sendable (.success symbols procedures appPath)
  | fields {index : FieldIndex} (exact : index.Sendable) : Sendable (.fields index)
  | fieldsError (message : String) : Sendable (.fieldsError message)

theorem ObjectRecord.Sendable.lasting {record : ObjectRecord} (sendable : record.Sendable) {inner : Nat} :
    record.Lasting (inner + 1) :=
  ⟨sendable.id, fun key value found => (sendable.metadata key value found).lasting inner⟩

namespace Json

theorem printable_replyEntries {reply : Reply} (sendable : reply.Sendable) :
    ∀ entry ∈ replyEntries reply, Printable 126 entry.2 := by
  cases sendable with
  | progress message => simpa [replyEntries] using .text message
  | warning message => simpa [replyEntries] using .text message
  | fieldsError message => simpa [replyEntries] using .text message
  | error message stack appPath =>
    intro entry inside
    simp only [replyEntries, List.mem_cons, List.mem_append] at inside
    rcases inside with rfl | inStack | inPath
    · exact .text message
    · exact printable_entriesOf inStack
    · exact printable_entriesOf inPath
  | @success symbols procedures appPath records =>
    intro entry inside
    simp only [replyEntries, List.mem_cons, List.not_mem_nil, or_false] at inside
    rcases inside with rfl | rfl | rfl
    · exact printable_map fun record inside => printable_ofRecord (records record inside).lasting
    · exact printable_ofDict fun _ list _ => printable_ofProcedures list
    · exact .text appPath
  | @fields index exact =>
    intro entry inside
    simp only [replyEntries, List.mem_cons, List.not_mem_nil, or_false] at inside
    rcases inside with rfl | rfl | rfl | rfl
    · exact printable_ofDict fun _ fields _ => printable_ofTexts fields
    · exact printable_ofDict fun _ source _ => printable_ofOption _ source
    · exact printable_ofDict fun path watermark found => .float (exact path watermark found)
    · exact printable_ofDict fun _ contribution _ => printable_ofContribution contribution

theorem printable_ofReply {reply : Reply} (sendable : reply.Sendable) : Printable 127 (ofReply reply) := by
  refine .object ?_
  intro entry inside
  rcases List.mem_cons.1 inside with rfl | later
  · exact .text _
  · exact printable_replyEntries sendable entry later

/-- Replies arrive as they were sent. -/
theorem reply?_replyLine {reply : Reply} (sendable : reply.Sendable) : reply? (Worker.Peer.replyLine reply) = some reply := by
  have printable := printable_replyEntries sendable
  unfold Worker.Peer.replyLine ofReply
  cases sendable with
  | progress message => exact reply?_notice rfl message
  | warning message => exact reply?_notice rfl message
  | fieldsError message => exact reply?_notice rfl message
  | error message stack appPath =>
    rw [reply?_of_tagged (tagged?_message printable ?_)]
    · cases stack <;> cases appPath <;> rfl
    · cases stack <;> cases appPath <;> simp [replyEntries, entriesOf]
  | @success symbols procedures appPath records =>
    have symbolsBack : Decoder.list Decoder.objectRecord 126 (.array (symbols.map ofRecord)) = some symbols :=
      Decoder.list_map fun record inside => objectRecord_ofRecord (records record inside).lasting
    have proceduresBack : Decoder.dict (Decoder.list Decoder.procedure) 126 (ofDict ofProcedures procedures) =
        some procedures := Decoder.dict_ofDict fun _ list _ => list_ofProcedures list
    rw [reply?_of_tagged (tagged?_message printable (by simp [replyEntries]))]
    simp [decode?, maxNesting, Reply.kind, Decoder.replyOf, Decoder.record, Fields.known?, Fields.required,
      List.lookup_cons, Decoder.text, asText?, replyEntries, symbolsBack, proceduresBack]
  | @fields index exact =>
    rw [reply?_of_tagged (tagged?_message printable (by simp [replyEntries]))]
    show (do
      let tables ← Decoder.tableFields 126 (ofTableFields index.tableFields)
      let pages ← Decoder.pageSources 126 (ofPageSources index.pageSources)
      let marks ← Decoder.watermarks 126 (ofWatermarks index.watermarks)
      let ledger ← Decoder.contributions 126 (ofContributions index.contributions)
      return Reply.fields ⟨tables, pages, marks, ledger⟩) = some (.fields index)
    rw [tableFields_ofTableFields, pageSources_ofPageSources, watermarks_ofWatermarks, contributions_ofContributions]
    rfl

end Json

end SymbolCache
