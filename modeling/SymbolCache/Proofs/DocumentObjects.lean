import SymbolCache.Proofs.DocumentKeys
import SymbolCache.Proofs.JsonReadback
import SymbolCache.Proofs.LookupAgreement
import SymbolCache.Proofs.StoreRefinement

/-! What a symbol document declares: the objects of its containers one after the other, each container before its
namespaces. The catalog has a record for each object with a name, and of several objects of one kind and name the last
one with methods says which procedures there are. -/

namespace SymbolCache.Symbols

mutual

/-- A container with these objects, in which arrays and objects are nested at most so deep: first come its own, then those
of its namespaces from left to right. -/
inductive Lists : Nat → Json → List Listed → Prop where
  | flat {levels : Nat} {json : Json} {known : List (String × Json)} {own : List Listed}
      (keys : KeyedContainer json known) (objects : OwnObjects ⟨levels, known⟩ own)
      (absent : known.lookup "Namespaces" = none) : Lists (levels + 1) json own
  | nested {levels : Nat} {json : Json} {known : List (String × Json)} {own others : List Listed} {spaces : List Json}
      (keys : KeyedContainer json known) (objects : OwnObjects ⟨levels + 1, known⟩ own)
      (listed : known.lookup "Namespaces" = some (.array spaces)) (inner : ListsAll levels spaces others) :
      Lists (levels + 2) json (own ++ others)

inductive ListsAll : Nat → List Json → List Listed → Prop where
  | nil {levels : Nat} : ListsAll levels [] []
  | cons {levels : Nat} {space : Json} {spaces : List Json} {objects others : List Listed}
      (first : Lists levels space objects) (rest : ListsAll levels spaces others) :
      ListsAll levels (space :: spaces) (objects ++ others)

end

section Decoding

def Group.listing (group : Group) : List Listed := group.entries.map (Listed.mk group.kind)

mutual

def Container.listing : Container → List Listed
  | .mk groups namespaces => groups.flatMap Group.listing ++ listings namespaces

def listings : List Container → List Listed
  | [] => []
  | first :: rest => first.listing ++ listings rest

end

private def group? (fields : Json.Fields) (named : String × ObjectKind) : Option Group :=
  (fields.orDefault named.1 (Json.Decoder.list entry) []).map (Group.mk named.2)

/-- The arrays of a container as groups. -/
private def groups? (fields : Json.Fields) : Option (List Group) :=
  groupNames.mapM fun (name, kind) => (fields.orDefault name (Json.Decoder.list entry) []).map (Group.mk kind)

private theorem arrays_iff {fields : Json.Fields} {names : List (String × ObjectKind)} {own : List Listed} :
    Arrays fields names own ↔ ∃ groups, names.mapM (group? fields) = some groups ∧ groups.flatMap Group.listing = own := by
  constructor
  · intro arrays
    induction arrays with
    | nil => exact ⟨[], rfl, rfl⟩
    | cons first rest ih =>
      rename_i name kind names entries others
      obtain ⟨groups, reads, rfl⟩ := ih
      refine ⟨⟨kind, entries⟩ :: groups, ?_, rfl⟩
      rw [List.mapM_cons, group?, (items_iff entry_iff).2 first, reads]
      rfl
  · rintro ⟨groups, reads, rfl⟩
    rw [mapM_eq_some_iff] at reads
    induction reads with
    | nil => exact .nil
    | cons first rest ih =>
      obtain ⟨entries, reads, rfl⟩ := Option.map_eq_some_iff.1 first
      exact .cons ((items_iff entry_iff).1 reads) ih

private theorem ownObjects_iff {fields : Json.Fields} {own : List Listed} :
    OwnObjects fields own ↔ ∃ groups, groups? fields = some groups ∧ groups.flatMap Group.listing = own :=
  arrays_iff

/-- The namespaces of a container, each with so many levels left. -/
private def namespaces? : Nat → Json → Option (List Container)
  | inner + 1, .array spaces => spaces.mapM (container inner)
  | _, _ => none

private theorem containerWith_eq (namespaces : Json → Option (List Container)) (levels : Nat) (json : Json) :
    containerWith namespaces levels json =
      (containerFields json).bind fun known => (groups? ⟨levels, known⟩).bind fun groups =>
        ((match known.lookup "Namespaces" with
          | some listed => namespaces listed
          | none => some []).map (Container.mk groups)) := by
  simp only [containerWith, groups?, Option.map_eq_bind, Json.Fields.orDefault]
  rfl

private theorem container_succ (levels : Nat) (json : Json) :
    container (levels + 1) json = containerWith (namespaces? levels) levels json := by
  cases levels with
  | zero => rfl
  | succ levels =>
    rw [container]
    exact congrArg (containerWith · (levels + 1) json) (funext fun listed => by cases listed <;> rfl)

private theorem listsAll_of_mapM {levels : Nat}
    (each : ∀ space root, container levels space = some root → Lists levels space root.listing) {spaces : List Json}
    {roots : List Container} (reads : spaces.mapM (container levels) = some roots) :
    ListsAll levels spaces (listings roots) := by
  induction spaces generalizing roots with
  | nil =>
    cases reads
    exact .nil
  | cons space spaces ih =>
    rw [List.mapM_cons] at reads
    obtain ⟨root, first, reads⟩ := Option.bind_eq_some_iff.1 reads
    obtain ⟨others, rest, same⟩ := Option.bind_eq_some_iff.1 reads
    cases same
    exact .cons (each space root first) (ih rest)

/-- What is decoded lists its objects. -/
theorem lists_of_container {levels : Nat} {json : Json} {root : Container} (reads : container levels json = some root) :
    Lists levels json root.listing := by
  induction levels using Nat.strongRecOn generalizing json root with
  | ind levels ih =>
    cases levels with
    | zero => cases reads
    | succ levels =>
      rw [container_succ, containerWith_eq] at reads
      obtain ⟨known, fields, reads⟩ := Option.bind_eq_some_iff.1 reads
      obtain ⟨groups, arrays, reads⟩ := Option.bind_eq_some_iff.1 reads
      obtain ⟨inner, found, rfl⟩ := Option.map_eq_some_iff.1 reads
      have keys := containerFields_iff.1 fields
      have objects : OwnObjects ⟨levels, known⟩ (groups.flatMap Group.listing) := ownObjects_iff.2 ⟨groups, arrays, rfl⟩
      split at found
      · rename_i listed lookup
        unfold namespaces? at found
        split at found
        · exact .nested keys objects lookup (listsAll_of_mapM (fun _ _ => ih _ (by omega)) found)
        · cases found
      · rename_i absent
        cases found
        rw [Container.listing, listings, List.append_nil]
        exact .flat keys objects absent

mutual

/-- What lists its objects is decoded. -/
theorem Lists.exists_container {levels : Nat} {json : Json} {objects : List Listed} :
    Lists levels json objects → ∃ root, container levels json = some root ∧ root.listing = objects
  | .flat keys objects absent => by
    have fields := containerFields_iff.2 keys
    obtain ⟨groups, arrays, same⟩ := ownObjects_iff.1 objects
    refine ⟨.mk groups [], ?_, ?_⟩
    · rw [container_succ, containerWith_eq, fields, Option.bind_some, arrays, Option.bind_some, absent]
      rfl
    · rw [Container.listing, listings, List.append_nil, same]
  | .nested keys objects listed inner => by
    have fields := containerFields_iff.2 keys
    obtain ⟨groups, arrays, same⟩ := ownObjects_iff.1 objects
    obtain ⟨roots, reads, others⟩ := inner.exists_containers
    refine ⟨.mk groups roots, ?_, ?_⟩
    · rw [container_succ, containerWith_eq, fields, Option.bind_some, arrays, Option.bind_some, listed]
      simp only [namespaces?, reads, Option.map_some]
    · rw [Container.listing, same, others]

theorem ListsAll.exists_containers {levels : Nat} {spaces : List Json} {objects : List Listed} :
    ListsAll levels spaces objects → ∃ roots, spaces.mapM (container levels) = some roots ∧ listings roots = objects
  | .nil => ⟨[], rfl, rfl⟩
  | .cons first rest => by
    obtain ⟨root, reads, same⟩ := first.exists_container
    obtain ⟨roots, others, sameOthers⟩ := rest.exists_containers
    refine ⟨root :: roots, ?_, ?_⟩
    · rw [List.mapM_cons, reads, others]
      rfl
    · rw [listings, same, sameOthers]

end

end Decoding

section Collecting

/-- An object that has a name, with its name. -/
structure Named where
  kind : ObjectKind
  name : String
  entry : Entry

def Listed.named? (listed : Listed) : Option Named :=
  match listed.entry.name with
  | none | some "" => none
  | some name => some ⟨listed.kind, name, listed.entry⟩

def named (objects : List Listed) : List Named := objects.filterMap Listed.named?

namespace Named

def record (object : Named) : ObjectRecord := object.entry.record object.kind object.name

/-- The methods of an object that are not local. -/
def procedures (object : Named) : List ProcedureRecord :=
  (object.entry.methods.filter fun method => !method.isLocal).map Method.record

/-- Whether an object says which procedures there are of this kind and name. -/
def tells (kind : ObjectKind) (name : String) (object : Named) : Bool :=
  object.kind == kind && object.name == name && !object.entry.methods.isEmpty

/-- What a record says of the object it has been made from. -/
structure Describes (object : Named) (record : ObjectRecord) : Prop where
  kind : record.kind = object.kind
  name : record.name = object.name
  id : record.id = object.entry.id
  extended : record.metadata.get? "extends" = object.entry.target.map .text

variable {object : Named}

theorem Describes.withMeta {record : ObjectRecord} (describes : object.Describes record) {key : String}
    (other : key ≠ "extends") (value : Json) : object.Describes (record.withMeta key value) where
  kind := describes.kind
  name := describes.name
  id := describes.id
  extended := by rw [ObjectRecord.get?_withMeta, if_neg (Ne.symm other), describes.extended]

/-- No property of an object takes the place of what it extends. -/
theorem describes_record (object : Named) : object.Describes object.record := by
  have base : object.Describes ((ObjectRecord.ofDeclaration object.kind object.entry.id object.name).withMeta? "extends"
      (object.entry.target.map .text)) := by
    refine ⟨by simp [ObjectRecord.ofDeclaration], by simp [ObjectRecord.ofDeclaration], by simp [ObjectRecord.ofDeclaration], ?_⟩
    rw [ObjectRecord.get?_withMeta?, if_pos rfl]
    exact Option.or_none
  unfold record Entry.record
  extract_lets _ withProperties
  have properties : object.Describes withProperties := by
    refine List.foldlRecOn _ _ base fun record describes property _ => ?_
    split
    · rename_i key kept
      refine describes.withMeta ?_ _
      rintro rfl
      unfold metaKey? at kept
      split at kept
      · exact absurd (Option.some.inj kept) (by decide)
      · split at kept
        · exact absurd (Option.some.inj kept) (by decide)
        · cases kept
    · exact describes
  split
  · exact properties
  · exact properties.withMeta (by decide) _

end Named

def addListed (table : SymbolTable) (listed : Listed) : SymbolTable := addEntry listed.kind table listed.entry

theorem addListed_eq (table : SymbolTable) (listed : Listed) : addListed table listed =
    match listed.named? with
    | none => table
    | some object => ⟨table.objects ++ [object.record],
        if object.entry.methods.isEmpty then table.procedures
        else table.procedures.insert (procedureKey object.kind object.name) object.procedures⟩ := by
  unfold addListed addEntry
  split
  · rename_i absent
    simp only [Listed.named?, absent]
  · rename_i empty
    simp only [Listed.named?, empty]
  · rename_i name filled found
    have object : listed.named? = some ⟨listed.kind, name, listed.entry⟩ := by
      unfold Listed.named?
      rw [found]
      split
      · rename_i absent
        cases absent
      · rename_i empty
        exact absurd (Option.some.inj empty) filled
      · rename_i same
        cases same
        rfl
    rw [object]
    dsimp only [Named.record]
    split <;> rfl

private theorem addGroups_eq (table : SymbolTable) (groups : List Group) :
    groups.foldl addGroup table = (groups.flatMap Group.listing).foldl addListed table := by
  induction groups generalizing table with
  | nil => rfl
  | cons group groups ih =>
    have first : addGroup table group = group.listing.foldl addListed table := by
      rw [addGroup, Group.listing, List.foldl_map]
      rfl
    rw [List.foldl_cons, List.flatMap_cons, List.foldl_append, first, ih]

mutual

/-- A container is collected object by object, in the order of its listing. -/
theorem addContainer_eq (table : SymbolTable) :
    ∀ root : Container, addContainer table root = root.listing.foldl addListed table
  | .mk groups namespaces => by
    rw [addContainer, Container.listing, List.foldl_append, addGroups_eq, addContainers_eq]

theorem addContainers_eq (table : SymbolTable) :
    ∀ roots : List Container, addContainers table roots = (listings roots).foldl addListed table
  | [] => rfl
  | first :: rest => by
    rw [addContainers, listings, List.foldl_append, addContainer_eq, addContainers_eq]

end

/-- The catalog of a listing. -/
def collect (objects : List Listed) : SymbolTable := objects.foldl addListed .empty

theorem collect_concat (objects : List Listed) (listed : Listed) :
    collect (objects ++ [listed]) = addListed (collect objects) listed := List.foldl_concat ..

theorem named_concat (objects : List Listed) (listed : Listed) :
    named (objects ++ [listed]) = named objects ++ listed.named?.toList := by
  rw [named, List.filterMap_append, ← named]
  cases same : listed.named? <;> simp [same]

theorem objects_collect (objects : List Listed) : (collect objects).objects = (named objects).map Named.record := by
  induction objects using List.reverseRecOn with
  | nil => rfl
  | append_singleton objects listed ih =>
    rw [collect_concat, named_concat, addListed_eq]
    cases listed.named? with
    | none => simp [ih]
    | some object => simp [ih]

theorem procedureKey_inj {kind other : ObjectKind} {name second : String} :
    procedureKey kind name = procedureKey other second ↔ kind = other ∧ name = second := by
  rw [← procedurePair?_eq_some_iff, procedurePair?_eq_some_iff.2 rfl]
  simp only [Option.some.injEq, Prod.mk.injEq]

/-- The last object with methods decides, and one without any changes nothing. -/
theorem procedures_collect (objects : List Listed) (kind : ObjectKind) (name : String) :
    (collect objects).procedures.get? (procedureKey kind name) =
      (((named objects).filter (Named.tells kind name)).getLast?).map Named.procedures := by
  induction objects using List.reverseRecOn with
  | nil => rfl
  | append_singleton objects listed ih =>
    rw [collect_concat, named_concat, addListed_eq]
    cases listed.named? with
    | none => simpa using ih
    | some object =>
      rw [Option.toList_some, List.filter_append]
      dsimp only
      cases silent : object.entry.methods.isEmpty with
      | true =>
        have passed : Named.tells kind name object = false := by rw [Named.tells, silent, Bool.not_true, Bool.and_false]
        rw [if_pos rfl, List.filter_cons_of_neg (ne_true_of_eq_false passed), List.filter_nil, List.append_nil, ih]
      | false =>
        rw [if_neg Bool.false_ne_true, Dict.get?_insert]
        by_cases same : kind = object.kind ∧ name = object.name
        · obtain ⟨rfl, rfl⟩ := same
          have last : Named.tells object.kind object.name object = true := by simp [Named.tells, silent]
          rw [if_pos rfl, List.filter_cons_of_pos last, List.filter_nil, List.getLast?_concat, Option.map_some]
        · have passed : Named.tells kind name object = false := by
            rw [Named.tells, silent, Bool.not_false, Bool.and_true, Bool.and_eq_false_imp]
            intro kinds
            rw [beq_iff_eq] at kinds
            rw [beq_eq_false_iff_ne]
            intro names
            exact same ⟨kinds.symm, names.symm⟩
          rw [if_neg (fun keys => same (procedureKey_inj.1 keys)), ih,
            List.filter_cons_of_neg (ne_true_of_eq_false passed), List.filter_nil, List.append_nil]

theorem exists_of_procedures_collect {objects : List Listed} {key : String} {list : List ProcedureRecord}
    (found : (collect objects).procedures.get? key = some list) : ∃ kind name, key = procedureKey kind name := by
  induction objects using List.reverseRecOn with
  | nil => cases found
  | append_singleton objects listed ih =>
    rw [collect_concat, addListed_eq] at found
    split at found
    · exact ih found
    · rename_i object _
      dsimp only at found
      split at found
      · exact ih found
      · rw [Dict.get?_insert] at found
        split at found
        · rename_i same
          exact ⟨_, _, same⟩
        · exact ih found

end Collecting

theorem read?_eq {text : List Char} {json : Json} {objects : List Listed}
    (parses : Json.parse? (Text.dropByteOrderMarks text) = some json) (lists : Lists Json.maxNesting json objects) :
    read? text = if (collect objects).objects.isEmpty then none else some (collect objects) := by
  obtain ⟨root, reads, rfl⟩ := lists.exists_container
  rw [read?, parses]
  simp only [Option.bind_eq_bind, Option.bind_some, Json.decode?, reads, addContainer_eq]
  rfl

theorem named_eq_nil_iff {objects : List Listed} : named objects = [] ↔ ∀ listed ∈ objects, listed.entry.name.getD "" = "" := by
  have unnamed (listed : Listed) : listed.named? = none ↔ listed.entry.name.getD "" = "" := by
    unfold Listed.named?
    split
    · rename_i absent
      simp [absent]
    · rename_i empty
      simp [empty]
    · rename_i name filled found
      simpa [found] using filled
  rw [named, List.filterMap_eq_nil_iff]
  exact forall₂_congr fun listed _ => unnamed listed

/-- A document is read completely: its catalog has the named objects in the order of the listing, with kind, number and what
they extend, and the procedures of the last object with methods of each kind and name. -/
theorem read?_of_lists {text : List Char} {json : Json} {objects : List Listed}
    (parses : Json.parse? (Text.dropByteOrderMarks text) = some json) (lists : Lists Json.maxNesting json objects) :
    (read? text = none ↔ ∀ listed ∈ objects, listed.entry.name.getD "" = "") ∧
    ∀ table, read? text = some table →
      table.objects = (named objects).map Named.record ∧
      (∀ object ∈ named objects, object.Describes object.record) ∧
      (∀ kind name, table.procedures.get? (procedureKey kind name) =
        (((named objects).filter (Named.tells kind name)).getLast?).map Named.procedures) ∧
      ∀ key list, table.procedures.get? key = some list → ∃ kind name, key = procedureKey kind name := by
  rw [read?_eq parses lists, ← named_eq_nil_iff]
  have records := objects_collect objects
  refine ⟨?_, fun table found => ?_⟩
  · rw [ite_eq_left_iff, records, List.isEmpty_iff, List.map_eq_nil_iff]
    simp
  · split at found
    · cases found
    · cases found
      exact ⟨records, fun object _ => object.describes_record, procedures_collect objects,
        fun key list held => exists_of_procedures_collect held⟩

private theorem printable_array_iff {levels : Nat} {items : List Json} :
    Json.Printable (levels + 1) (.array items) ↔ ∀ item ∈ items, Json.Printable levels item :=
  ⟨fun | .array inside => inside, .array⟩

private theorem printable_object_iff {levels : Nat} {entries : List (String × Json)} :
    Json.Printable (levels + 1) (.object entries) ↔ ∀ entry ∈ entries, Json.Printable levels entry.2 :=
  ⟨fun | .object inside => inside, .object⟩

theorem parse?_document {levels : Nat} {entries : List (String × Json)} (printable : Json.Printable levels (.object entries)) :
    Json.parse? (Text.dropByteOrderMarks (Json.compactChars (.object entries))) = some (.object entries) := by
  have unmarked : Text.dropByteOrderMarks (Json.compactChars (.object entries)) = Json.compactChars (.object entries) := by
    rw [Json.compactChars]
    rfl
  rw [unmarked, Json.parse?_compactChars printable]

/-- A table that is listed again in a namespace, where its only method is local, and a table without a name. -/
def repeatedTable : List (String × Json) :=
  [("Namespaces", .array [.object [("Tables", .array [.object [("Id", .int 18), ("Name", .text "Item"),
      ("Methods", .array [.object [("Name", .text "Check"), ("IsLocal", .bool true)]])]])]]),
    ("Tables", .array [.object [("Name", .text "Item"), ("Methods", .array [.object [("Name", .text "Open")]])],
      .object [("Id", .int 3)]])]

def repeatedObjects : List Listed :=
  [⟨.table, ⟨none, some "Item", none, [], [], [⟨"Open", [], none, false⟩]⟩⟩,
    ⟨.table, ⟨some 3, none, none, [], [], []⟩⟩,
    ⟨.table, ⟨some 18, some "Item", none, [], [], [⟨"Check", [], none, true⟩]⟩⟩]

theorem read?_of_repeatedTable :
    ∃ table, read? (Json.compactChars (.object repeatedTable)) = some table ∧
      table.objects.map (fun record => record.id) = [none, some 18] ∧
      table.procedures.get? (procedureKey .table "Item") = some [] := by
  have printable : Json.Printable 8 (.object repeatedTable) := by
    simp [repeatedTable, printable_array_iff, printable_object_iff, Json.Printable.text, Json.Printable.bool, Json.Printable.int]
  have lists : Lists Json.maxNesting (.object repeatedTable) repeatedObjects := by
    have decoded : (container Json.maxNesting (.object repeatedTable)).map Container.listing = some repeatedObjects := rfl
    obtain ⟨root, reads, same⟩ := Option.map_eq_some_iff.1 decoded
    exact same ▸ lists_of_container reads
  obtain ⟨unnamed, rest⟩ := read?_of_lists (parse?_document printable) lists
  cases found : read? (Json.compactChars (.object repeatedTable)) with
  | none =>
    have named := unnamed.1 found ⟨.table, ⟨none, some "Item", none, [], [], [⟨"Open", [], none, false⟩]⟩⟩ (.head _)
    exact absurd named (by decide)
  | some table =>
    obtain ⟨records, -, procedures, -⟩ := rest table found
    refine ⟨table, rfl, ?_, ?_⟩
    · rw [records]
      rfl
    · rw [procedures]
      rfl

/-- A table in so many namespaces, one in the other. -/
def buried : Nat → List (String × Json)
  | 0 => [("Tables", .array [.object [("Name", .text "Item")]])]
  | outer + 1 => [("Namespaces", .array [.object (buried outer)])]

theorem printable_buried (outer : Nat) : Json.Printable (2 * outer + 3) (.object (buried outer)) := by
  induction outer with
  | zero => simp [buried, printable_array_iff, printable_object_iff, Json.Printable.text]
  | succ outer ih =>
    rw [buried, show 2 * (outer + 1) + 3 = 2 * outer + 3 + 1 + 1 by omega, printable_object_iff, List.forall_mem_singleton,
      printable_array_iff, List.forall_mem_singleton]
    exact ih

/-- The reader gives up on arrays and objects that are nested too deep, whatever stands in them. -/
theorem not_read?_at_every_depth :
    ¬ ∀ (text : List Char) (json : Json) (levels : Nat) (objects : List Listed),
      Json.parse? (Text.dropByteOrderMarks text) = some json → Lists levels json objects →
        (read? text = none ↔ ∀ listed ∈ objects, listed.entry.name.getD "" = "") := by
  intro every
  have parses := parse?_document (printable_buried 64)
  have decoded : (container 131 (.object (buried 64))).map (fun root => root.listing.map fun listed => listed.entry.name) =
      some [some "Item"] := by decide +kernel
  obtain ⟨root, reads, names⟩ := Option.map_eq_some_iff.1 decoded
  have refused : (container Json.maxNesting (.object (buried 64))).isNone := by decide +kernel
  have nothing : read? (Json.compactChars (.object (buried 64))) = none := by
    rw [read?, parses, Option.bind_eq_bind, Option.bind_some, Json.decode?, Option.isNone_iff_eq_none.1 refused]
    rfl
  have unnamed := (every _ _ _ _ parses (lists_of_container reads)).1 nothing
  obtain ⟨listed, member, name⟩ := List.mem_map.1 (names ▸ List.mem_singleton_self (some "Item"))
  have empty := unnamed listed member
  rw [name] at empty
  exact absurd empty (by decide)

end SymbolCache.Symbols
