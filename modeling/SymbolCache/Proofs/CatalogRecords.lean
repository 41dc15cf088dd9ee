import SymbolCache.Proofs.DocumentKeys
import SymbolCache.Proofs.LegacyReread
import SymbolCache.Proofs.MessageReadback
import SymbolCache.Source.Catalog

/-! The records of a catalog can be sent, whichever way they were found. -/

namespace SymbolCache

/-- A number of an object, if it has one, is a signed integer of 64 bits. -/
def FitsWord (number : Option Int) : Prop :=
  ∀ value, number = some value → -(2 : Int) ^ 63 ≤ value ∧ value < (2 : Int) ^ 63

theorem Text.fitsWord_readInt64? (text : List Char) : FitsWord (Text.readInt64? text) := by
  intro value reads
  unfold Text.readInt64? at reads
  have power : (Nat.pow 2 63 : Int) = (2 : Int) ^ 63 := by decide
  grind

namespace ObjectRecord

variable {record : ObjectRecord}

namespace Sendable

theorem ofDeclaration {number : Option Int} (fits : FitsWord number) (kind : ObjectKind) (name : String) :
    (ObjectRecord.ofDeclaration kind number name).Sendable :=
  ⟨fits, nofun⟩

theorem withMeta (sendable : record.Sendable) (key : String) {value : Json} (plain : value.MetaValue) :
    (record.withMeta key value).Sendable := by
  refine ⟨sendable.id, fun other found present => ?_⟩
  rw [ObjectRecord.withMeta, Dict.get?_insert] at present
  split at present
  · cases present
    exact plain
  · exact sendable.metadata other found present

theorem withMeta? (sendable : record.Sendable) (key : String) (text : Option String) :
    (record.withMeta? key (text.map .text)).Sendable := by
  cases text with
  | none => exact sendable
  | some text => exact sendable.withMeta key (.text text)

end Sendable

end ObjectRecord

/-- All records can be sent. -/
def SymbolTable.Sendable (table : SymbolTable) : Prop := ∀ record ∈ table.objects, record.Sendable

namespace SymbolTable

variable {table : SymbolTable}

theorem sendable_empty : empty.Sendable := nofun

theorem Sendable.addObject (sendable : table.Sendable) {record : ObjectRecord} (added : record.Sendable) :
    (table.addObject record).Sendable := by
  intro other inside
  rcases List.mem_append.1 inside with earlier | last
  · exact sendable other earlier
  · exact List.mem_singleton.1 last ▸ added

theorem Sendable.merge (sendable : table.Sendable) {other : SymbolTable} (more : other.Sendable) :
    (table.merge other).Sendable := by
  intro record inside
  rcases List.mem_append.1 inside with first | second
  · exact sendable record first
  · exact more record second

end SymbolTable

namespace Symbols

/-- All numbers in a container fit. -/
inductive Container.Fits : Container → Prop where
  | mk {groups : List Group} {namespaces : List Container}
      (entries : ∀ group ∈ groups, ∀ entry ∈ group.entries, FitsWord entry.id)
      (inner : ∀ container ∈ namespaces, Fits container) : Fits (.mk groups namespaces)

private theorem fitsWord_int64 {levels : Nat} {json : Json} {value : Int}
    (reads : Json.Decoder.int64 levels json = some value) : FitsWord (some value) := by
  unfold Json.Decoder.int64 Json.Decoder.intBetween at reads
  split at reads
  · split at reads
    · rename_i bounds
      simp only [Bool.and_eq_true, decide_eq_true_eq] at bounds
      cases reads
      rintro _ ⟨⟩
      exact ⟨bounds.1, Int.lt_of_le_sub_one bounds.2⟩
    · cases reads
  · cases reads

private theorem fitsWord_optional {fields : Json.Fields} {name : String} {number : Option Int}
    (reads : fields.optional name Json.Decoder.int64 = some number) : FitsWord number := by
  unfold Json.Fields.optional at reads
  split at reads
  · unfold Json.Decoder.option at reads
    split at reads
    · cases reads
      nofun
    · obtain ⟨value, found, rfl⟩ := Option.map_eq_some_iff.1 reads
      exact fitsWord_int64 found
  · cases reads
    nofun

theorem IsEntry.fitsWord {levels : Nat} {json : Json} {found : Entry} : IsEntry levels json found → FitsWord found.id
  | .keyed _ tells => fitsWord_optional tells.id

private theorem exists_of_mem_forall₂ {α β : Type} {reads : α → β → Prop} {items : List α} {results : List β}
    (each : List.Forall₂ reads items results) {result : β} (inside : result ∈ results) : ∃ item, reads item result := by
  induction each with
  | nil => cases inside
  | cons first _ ih =>
    rcases List.mem_cons.1 inside with rfl | later
    · exact ⟨_, first⟩
    · exact ih later

private theorem fits_containerWith {namespaces : Json → Option (List Container)} {levels : Nat} {json : Json}
    {found : Container} (reads : containerWith namespaces levels json = some found)
    (inner : ∀ listed containers, namespaces listed = some containers → ∀ container ∈ containers, container.Fits) :
    found.Fits := by
  obtain ⟨known, -, rest⟩ := Option.bind_eq_some_iff.1 reads
  obtain ⟨groups, grouped, rest⟩ := Option.bind_eq_some_iff.1 rest
  obtain ⟨nested, listed, rest⟩ := Option.bind_eq_some_iff.1 rest
  cases rest
  refine .mk ?_ ?_
  · intro group inside item member
    obtain ⟨⟨name, kind⟩, found⟩ := exists_of_mem_forall₂ (mapM_eq_some_iff.1 grouped) inside
    obtain ⟨entries, listed, same⟩ := Option.bind_eq_some_iff.1 found
    cases same
    cases (items_iff entry_iff).1 listed with
    | absent => cases member
    | array _ _ each =>
      obtain ⟨_, keyed⟩ := exists_of_mem_forall₂ each member
      exact keyed.fitsWord
  · unfold Json.Fields.orDefault at listed
    split at listed
    · exact inner _ nested listed
    · cases listed
      nofun

theorem fits_container {levels : Nat} {json : Json} {found : Container} (reads : container levels json = some found) :
    found.Fits := by
  induction levels using Nat.strongRecOn generalizing json found with
  | ind levels ih =>
    match levels, ih, reads with
    | 1, _, reads => exact fits_containerWith reads nofun
    | inner + 2, ih, reads =>
      refine fits_containerWith reads ?_
      intro listed containers nested container inside
      split at nested
      · obtain ⟨item, read⟩ := exists_of_mem_forall₂ (mapM_eq_some_iff.1 nested) inside
        exact ih inner (by omega) read
      · cases nested

theorem sendable_record {entry : Entry} (fits : FitsWord entry.id) (kind : ObjectKind) (name : String) :
    (entry.record kind name).Sendable := by
  have base : ((ObjectRecord.ofDeclaration kind entry.id name).withMeta? "extends" (entry.target.map .text)).Sendable :=
    (ObjectRecord.Sendable.ofDeclaration fits kind name).withMeta? "extends" entry.target
  unfold Entry.record
  extract_lets _ withProperties
  have properties : withProperties.Sendable := by
    refine List.foldlRecOn _ _ base fun record sendable property _ => ?_
    split
    · exact sendable.withMeta _ (.text _)
    · exact sendable
  split
  · exact properties
  · exact properties.withMeta "fields" (.texts _)

theorem sendable_addEntry {table : SymbolTable} (sendable : table.Sendable) (kind : ObjectKind) {entry : Entry}
    (fits : FitsWord entry.id) : (addEntry kind table entry).Sendable := by
  unfold addEntry
  split
  · exact sendable
  · exact sendable
  · rename_i name _ _
    have added := sendable.addObject (sendable_record fits kind name)
    simp only
    split
    · exact added
    · exact added

theorem sendable_addGroup {table : SymbolTable} (sendable : table.Sendable) {group : Group}
    (fits : ∀ entry ∈ group.entries, FitsWord entry.id) : (addGroup table group).Sendable := by
  unfold addGroup
  exact List.foldlRecOn _ _ sendable fun current holds entry inside =>
    sendable_addEntry holds group.kind (fits entry inside)

mutual

theorem sendable_addContainer {table : SymbolTable} (sendable : table.Sendable) :
    ∀ {container : Container}, container.Fits → (addContainer table container).Sendable
  | .mk groups namespaces, .mk entries inner => by
    rw [addContainer]
    refine sendable_addContainers ?_ inner
    exact List.foldlRecOn _ _ sendable fun current holds group inside =>
      sendable_addGroup holds (entries group inside)

theorem sendable_addContainers {table : SymbolTable} (sendable : table.Sendable) :
    ∀ {containers : List Container}, (∀ container ∈ containers, container.Fits) →
      (addContainers table containers).Sendable
  | [], _ => sendable
  | first :: rest, fits => by
    rw [addContainers]
    exact sendable_addContainers (sendable_addContainer sendable (fits first (List.mem_cons_self ..)))
      fun container inside => fits container (List.mem_cons_of_mem _ inside)

end

theorem sendable_read? {text : List Char} {table : SymbolTable} (reads : read? text = some table) : table.Sendable := by
  unfold read? at reads
  obtain ⟨json, -, continued⟩ := Option.bind_eq_some_iff.1 reads
  obtain ⟨root, decoded, last⟩ := Option.bind_eq_some_iff.1 continued
  simp only at last
  split at last
  · cases last
  · cases last
    exact sendable_addContainer SymbolTable.sendable_empty (fits_container decoded)

end Symbols

namespace Source

theorem sendable_withBody {record : ObjectRecord} (sendable : record.Sendable) (body : List Char) :
    (withBody record body).Sendable := by
  unfold withBody
  split
  · simp only
    split
    · exact sendable
    · exact sendable.withMeta "fields" (.texts _)
  · simp only
    split
    · exact sendable
    · exact sendable.withMeta "fields" (.texts _)
  · exact sendable.withMeta? "sourceTable" _
  · split
    · exact sendable.withMeta "dataItems" (.texts _)
    · exact sendable
  · split
    · exact sendable.withMeta "dataItems" (.texts _)
    · exact sendable
  · exact sendable

theorem fitsWord_declaration? {text : List Char} {found : Declaration} (reads : declaration? text = some found) :
    FitsWord found.id := by
  obtain ⟨⟨keyword, rest⟩, -, later⟩ := Option.bind_eq_some_iff.1 reads
  obtain ⟨kind, -, later⟩ := Option.bind_eq_some_iff.1 later
  obtain ⟨⟨gap, rest⟩, -, later⟩ := Option.bind_eq_some_iff.1 later
  obtain ⟨⟨name, rest⟩, -, later⟩ := Option.bind_eq_some_iff.1 later
  cases later
  simp only
  split
  · exact Text.fitsWord_readInt64? _
  · nofun

theorem sendable_modernRecord? {text : List Char} {record : ObjectRecord} (reads : modernRecord? text = some record) :
    record.Sendable := by
  unfold modernRecord? at reads
  obtain ⟨declaration, found, rest⟩ := Option.bind_eq_some_iff.1 reads
  cases rest
  exact sendable_withBody (((ObjectRecord.Sendable.ofDeclaration (fitsWord_declaration? found) _ _).withMeta? _ _).withMeta? _ _) _

theorem sendable_legacyRecord? {text : List Char} {object : Legacy.Object} (reads : Legacy.readObject? text = some object)
    {record : ObjectRecord} (found : legacyRecord? object = some record) : record.Sendable := by
  obtain ⟨⟨header, following⟩, -, later⟩ := Option.bind_eq_some_iff.1 reads
  obtain ⟨number, numbered, built⟩ := Option.bind_eq_some_iff.1 later
  have fits : FitsWord (some object.id) := by
    have same : object.id = number := by
      cases built
      exact congrArg (fun frame => frame.2.1) (Legacy.Object.frame_foldl_readSection _ _)
    rw [same, ← numbered]
    exact Text.fitsWord_readInt64? header.digits
  obtain ⟨kind, -, last⟩ := Option.bind_eq_some_iff.1 found
  have base := ((((ObjectRecord.Sendable.ofDeclaration fits kind object.name).withMeta "legacy" (.bool true)).withMeta?
    "caption" (object.property? "CaptionML")).withMeta? "sourceTable" (object.property? "SourceTable")).withMeta?
    "versionList" (Legacy.propertyValue? object.objectProperties "Version List")
  simp only at last
  split at last
  · cases last
    exact base
  · cases last
    exact base.withMeta "fields" (.texts _)

theorem sendable_addUnit {table : SymbolTable} (sendable : table.Sendable) (unit : List Char) :
    (addUnit table unit).Sendable := by
  unfold addUnit
  split
  · rename_i record defines
    unfold definition? at defines
    refine sendable.addObject ?_
    simp only at defines
    split at defines
    · obtain ⟨_, -, other⟩ := Option.map_eq_some_iff.1 defines
      cases other
    · split at defines
      · obtain ⟨_, found, same⟩ := Option.map_eq_some_iff.1 defines
        cases same
        obtain ⟨object, reads, recorded⟩ := Option.bind_eq_some_iff.1 found
        exact sendable_legacyRecord? reads recorded
      · obtain ⟨_, found, same⟩ := Option.map_eq_some_iff.1 defines
        cases same
        exact sendable_modernRecord? found
  · rename_i other defines
    unfold definition? at defines
    refine sendable.merge ?_
    simp only at defines
    split at defines
    · obtain ⟨_, found, same⟩ := Option.map_eq_some_iff.1 defines
      cases same
      exact Symbols.sendable_read? found
    · split at defines
      all_goals
        obtain ⟨_, -, same⟩ := Option.map_eq_some_iff.1 defines
        cases same
  · exact sendable

theorem sendable_readTable {tree : FileTree} {root : Path} {withProcedures : Bool} {strategy : Strategy}
    {table : SymbolTable} (reads : readTable tree root withProcedures strategy = .ok table) : table.Sendable := by
  cases strategy with
  | document =>
    unfold readTable at reads
    simp only at reads
    split at reads
    · cases reads
    · split at reads
      · cases reads
      · rename_i found
        cases reads
        have sendable := Symbols.sendable_read? found
        split
        · exact sendable
        · exact sendable
  | sources =>
    cases reads
    exact List.foldlRecOn _ _ SymbolTable.sendable_empty fun current holds unit _ => sendable_addUnit holds unit

/-- Every record of a catalog can be sent. -/
theorem sendable_catalog {tree : FileTree} {root : Path} {withProcedures : Bool} {table : SymbolTable}
    (reads : catalog tree root withProcedures = .ok table) : table.Sendable := by
  unfold catalog at reads
  split at reads
  · cases reads
  · rename_i strategy _
    cases found : readTable tree root withProcedures strategy with
    | error cause => simp [found, bind, Except.bind] at reads
    | ok first =>
      have sendable := sendable_readTable found
      simp only [found, bind, Except.bind] at reads
      split at reads
      · cases reads
        exact sendable
      · cases reads
        exact sendable

end Source

end SymbolCache
