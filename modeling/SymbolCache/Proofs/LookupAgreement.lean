import SymbolCache.Proofs.FieldHistory
import SymbolCache.Query.Lookup
import SymbolCache.Source.Definition

/-! The field index and the store answer alike about units of modern source text. One side joins the
contributions of files under any spelling of a table, the other searches the records of tables and
extensions; both are brought down to what a single unit says about a table or a page. -/

namespace SymbolCache.Dict

variable {α : Type}

/-- With distinct keys every entry stays. -/
theorem get?_ofList_eq_some_iff {entries : List (String × α)} (distinct : (entries.map Prod.fst).Nodup)
    {key : String} {value : α} : (ofList entries).get? key = some value ↔ (key, value) ∈ entries := by
  have single : ∀ start : Dict α, (start.insertAll entries).get? key = some value ↔
      (key, value) ∈ entries ∨ (key ∉ entries.map Prod.fst ∧ start.get? key = some value) := by
    induction entries with
    | nil => intro start; simp [insertAll]
    | cons entry rest ih =>
      intro start
      obtain ⟨fresh, others⟩ := List.nodup_cons.1 distinct
      have step : start.insertAll (entry :: rest) = (start.insert entry.1 entry.2).insertAll rest := rfl
      rw [step, ih others, get?_insert]
      by_cases here : key = entry.1
      · have outside : (key, value) ∉ rest := by
          intro inside
          exact fresh (here ▸ List.mem_map_of_mem inside)
        rw [here] at outside ⊢
        simp only [List.mem_cons, List.map_cons, Prod.ext_iff, true_and, outside, fresh, not_true_eq_false,
          not_false_eq_true, false_or, if_true, Option.some.injEq, false_and, or_false]
        exact eq_comm
      · simp [here, Prod.ext_iff]
  rw [ofList, single]
  simp

end SymbolCache.Dict

namespace SymbolCache.ObjectRecord

theorem get?_withMeta (record : ObjectRecord) (key other : String) (value : Json) :
    (record.withMeta key value).metadata.get? other =
      if other = key then some value else record.metadata.get? other :=
  Dict.get?_insert ..

theorem get?_withMeta? (record : ObjectRecord) (key other : String) (value : Option Json) :
    (record.withMeta? key value).metadata.get? other =
      if other = key then value.or (record.metadata.get? other) else record.metadata.get? other := by
  cases value with
  | none => simp [withMeta?]
  | some json => simp [withMeta?, get?_withMeta]

@[simp] theorem kind_withMeta (record : ObjectRecord) (key : String) (value : Json) :
    (record.withMeta key value).kind = record.kind :=
  rfl

@[simp] theorem name_withMeta (record : ObjectRecord) (key : String) (value : Json) :
    (record.withMeta key value).name = record.name :=
  rfl

@[simp] theorem id_withMeta (record : ObjectRecord) (key : String) (value : Json) :
    (record.withMeta key value).id = record.id :=
  rfl

@[simp] theorem kind_withMeta? (record : ObjectRecord) (key : String) (value : Option Json) :
    (record.withMeta? key value).kind = record.kind := by
  cases value <;> rfl

@[simp] theorem name_withMeta? (record : ObjectRecord) (key : String) (value : Option Json) :
    (record.withMeta? key value).name = record.name := by
  cases value <;> rfl

@[simp] theorem id_withMeta? (record : ObjectRecord) (key : String) (value : Option Json) :
    (record.withMeta? key value).id = record.id := by
  cases value <;> rfl

end SymbolCache.ObjectRecord

namespace SymbolCache.Source

/-- The declaration of a unit and the text after it. -/
def opening? (text : List Char) : Option (Declaration × List Char) :=
  (declaration? (Lexical.stripComments .modern text)).map fun declaration =>
    (declaration, (Text.dropBytes declaration.endOffset (Lexical.stripComments .modern text)).getD [])

/-- The record of a declaration before the sections of its body are read. -/
def headRecord (declaration : Declaration) (body : List Char) : ObjectRecord :=
  ((ObjectRecord.ofDeclaration declaration.kind declaration.id declaration.name).withMeta? "extends"
    (declaration.extends?.map .text)).withMeta? "caption" ((caption? body).map .text)

theorem modernRecord?_eq (text : List Char) :
    modernRecord? text = (opening? text).map fun opening => withBody (headRecord opening.1 opening.2) opening.2 := by
  unfold modernRecord? opening?
  dsimp only
  cases declaration? (Lexical.stripComments .modern text) <;> rfl

@[simp] theorem headRecord_kind (declaration : Declaration) (body : List Char) :
    (headRecord declaration body).kind = declaration.kind := by
  simp [headRecord, ObjectRecord.ofDeclaration]

@[simp] theorem headRecord_name (declaration : Declaration) (body : List Char) :
    (headRecord declaration body).name = declaration.name := by
  simp [headRecord, ObjectRecord.ofDeclaration]

theorem headRecord_get? (declaration : Declaration) (body : List Char) (key : String) (other : key ≠ "caption") :
    (headRecord declaration body).metadata.get? key =
      if key = "extends" then declaration.extends?.map .text else none := by
  rw [headRecord, ObjectRecord.get?_withMeta?, if_neg other, ObjectRecord.get?_withMeta?]
  simp [ObjectRecord.ofDeclaration]

theorem headRecord_caption (declaration : Declaration) (body : List Char) :
    (headRecord declaration body).metadata.get? "caption" = (caption? body).map .text := by
  rw [headRecord, ObjectRecord.get?_withMeta?, if_pos rfl, ObjectRecord.get?_withMeta?, if_neg (by decide)]
  exact Option.or_none

/-- The body of a unit adds to the metadata of its record only. -/
theorem exists_withBody (record : ObjectRecord) (body : List Char) :
    ∃ metadata, withBody record body = { record with metadata } := by
  unfold withBody
  split
  · dsimp only
    split
    · exact ⟨_, rfl⟩
    · exact ⟨_, rfl⟩
  · dsimp only
    split
    · exact ⟨_, rfl⟩
    · exact ⟨_, rfl⟩
  · cases sourceTable? body with
    | none => exact ⟨_, rfl⟩
    | some table => exact ⟨_, rfl⟩
  · split
    · exact ⟨_, rfl⟩
    · exact ⟨_, rfl⟩
  · split
    · exact ⟨_, rfl⟩
    · exact ⟨_, rfl⟩
  · exact ⟨_, rfl⟩

@[simp] theorem withBody_kind (record : ObjectRecord) (body : List Char) : (withBody record body).kind = record.kind := by
  obtain ⟨metadata, same⟩ := exists_withBody record body
  rw [same]

@[simp] theorem withBody_name (record : ObjectRecord) (body : List Char) : (withBody record body).name = record.name := by
  obtain ⟨metadata, same⟩ := exists_withBody record body
  rw [same]

theorem withBody_fields {record : ObjectRecord} (body : List Char)
    (tabular : record.kind = .table ∨ record.kind = .tableExtension) (key : String) :
    (withBody record body).metadata.get? key =
      if key = "fields" ∧ fieldNames body ≠ [] then some (.ofTexts (fieldNames body)) else record.metadata.get? key := by
  have same : withBody record body =
      if (fieldNames body).isEmpty then record else record.withMeta "fields" (.ofTexts (fieldNames body)) := by
    unfold withBody
    rcases tabular with kind | kind <;> rw [kind]
  rw [same]
  by_cases none : fieldNames body = []
  · simp [none]
  · rw [if_neg (by simpa using none), ObjectRecord.get?_withMeta]
    simp [none]

theorem withBody_source {record : ObjectRecord} (body : List Char) (page : record.kind = .page) (key : String) :
    (withBody record body).metadata.get? key =
      if key = "sourceTable" then ((sourceTable? body).map Json.text).or (record.metadata.get? key)
      else record.metadata.get? key := by
  have same : withBody record body = record.withMeta? "sourceTable" ((sourceTable? body).map .text) := by
    unfold withBody
    rw [page]
  rw [same, ObjectRecord.get?_withMeta?]

/-- Apart from fields and data items a body adds only the source table, and that to a page. -/
theorem withBody_get? (record : ObjectRecord) (body : List Char) {key : String} (noFields : key ≠ "fields")
    (noItems : key ≠ "dataItems") :
    (withBody record body).metadata.get? key =
      if key = "sourceTable" ∧ record.kind = .page then ((sourceTable? body).map Json.text).or (record.metadata.get? key)
      else record.metadata.get? key := by
  by_cases page : record.kind = .page
  · simp only [withBody_source body page key, page, and_true]
  · rw [if_neg fun both => page both.2]
    unfold withBody
    split
    · dsimp only
      split
      · rfl
      · rw [ObjectRecord.get?_withMeta, if_neg noFields]
    · dsimp only
      split
      · rfl
      · rw [ObjectRecord.get?_withMeta, if_neg noFields]
    · rename_i kind
      exact absurd kind page
    · split
      · rw [ObjectRecord.get?_withMeta, if_neg noItems]
      · rfl
    · split
      · rw [ObjectRecord.get?_withMeta, if_neg noItems]
      · rfl
    · rfl

/-- A record is what a declaration says of its unit. -/
structure Declares (found : Declaration) (record : ObjectRecord) : Prop where
  kind : record.kind = found.kind
  id : record.id = found.id
  name : record.name = found.name
  extended : record.metadata.get? "extends" = found.extends?.map .text

theorem withBody_declares (found : Declaration) (body : List Char) :
    Declares found (withBody (headRecord found body) body) where
  kind := by rw [withBody_kind, headRecord_kind]
  id := by
    obtain ⟨metadata, same⟩ := exists_withBody (headRecord found body) body
    rw [same]
    simp [headRecord, ObjectRecord.ofDeclaration]
  name := by rw [withBody_name, headRecord_name]
  extended := by
    rw [withBody_get? _ _ (by decide) (by decide), if_neg (fun both => absurd both.1 (by decide)),
      headRecord_get? _ _ _ (by decide), if_pos rfl]

/-- Behind what opens neither like a document nor with a byte order mark, the lines of a text decide how it is read. -/
theorem definition?_of_source {text : List Char} (unmarked : text.head? ≠ some Text.byteOrderMark)
    (unbraced : (Text.trimStart text).head? ≠ some '{') :
    definition? text = if Legacy.isLegacy text then ((Legacy.readObject? text).bind legacyRecord?).map .unit
      else (modernRecord? text).map .unit := by
  have kept : Text.dropByteOrderMarks text = text := by
    unfold Text.dropByteOrderMarks
    cases text with
    | nil => rfl
    | cons first rest =>
      have other : first ≠ Text.byteOrderMark := by
        rintro rfl
        exact unmarked rfl
      rw [List.dropWhile_cons_of_neg (by simpa using other)]
  unfold definition?
  dsimp only
  rw [kept, if_neg (by simpa using unbraced)]

end SymbolCache.Source

namespace SymbolCache.Contribution

/-- What a declaration and the text after it contribute. -/
def ofOpening (declaration : Source.Declaration) (body : List Char) : Contribution :=
  let fields := TextSet.ofList (Source.fieldNames body)
  match declaration.kind with
  | .table => ⟨Dict.empty.insert declaration.name fields, .empty, some declaration.name⟩
  | .tableExtension => match declaration.extends? with
    | some target => ⟨Dict.empty.insert target fields, .empty, none⟩
    | none => empty
  | .page => ⟨.empty, Dict.empty.insert declaration.name (Source.sourceTable? body), none⟩
  | _ => empty

theorem ofSource_eq (text : List Char) :
    ofSource text = ((Source.opening? text).map fun opening => ofOpening opening.1 opening.2).getD empty := by
  unfold ofSource Source.opening?
  dsimp only
  cases Source.declaration? (Lexical.stripComments .modern text) <;> rfl

end SymbolCache.Contribution

namespace SymbolCache.Query
open FieldIndex

/-- A unit of source text with the path of its file. -/
structure SourceUnit where
  path : Path
  text : List Char

/-- A text that is taken for a modern unit: no byte order mark stands before it, it does not open
like a symbol document, and it is no legacy object. -/
structure IsModern (text : List Char) : Prop where
  unmarked : text.head? ≠ some Text.byteOrderMark
  unbraced : (Text.trimStart text).head? ≠ some '{'
  current : Legacy.isLegacy text = false

/-- The record that the definition in a unit gives. -/
def SourceUnit.record? (unit : SourceUnit) : Option ObjectRecord :=
  match Source.definition? unit.text with
  | some (.unit record) => some record
  | _ => none

/-- A store with the records of units, each under its name. -/
def cachedUnits (dir : Path) (units : List SourceUnit) : Store :=
  (Store.new dir).replaceObjects
    (.ofList ((units.filterMap SourceUnit.record?).map fun record => (record.name, record)))

/-- A field index with what each unit contributes under its path. -/
def indexedUnits (units : List SourceUnit) : FieldIndex :=
  units.foldl (fun index unit => index.apply unit.path (.ofSource unit.text)) .empty

theorem IsModern.definition? {text : List Char} (modern : IsModern text) :
    Source.definition? text = (Source.modernRecord? text).map .unit := by
  rw [Source.definition?_of_source modern.unmarked modern.unbraced, modern.current]
  rfl

theorem IsModern.record? {unit : SourceUnit} (modern : IsModern unit.text) :
    unit.record? = Source.modernRecord? unit.text := by
  unfold SourceUnit.record?
  rw [modern.definition?]
  cases Source.modernRecord? unit.text <;> rfl

private theorem get?_single {α : Type} {name other : String} {value found : α} :
    ((Dict.empty : Dict α).insert name value).get? other = some found ↔ other = name ∧ value = found := by
  rw [Dict.get?_insert, Dict.get?_empty]
  by_cases same : other = name <;> simp [same]

theorem recordFields_withBody {declaration : Source.Declaration} (body : List Char)
    (tabular : declaration.kind = .table ∨ declaration.kind = .tableExtension) :
    recordFields (Source.withBody (Source.headRecord declaration body) body) = Source.fieldNames body := by
  have kind : (Source.headRecord declaration body).kind = .table ∨
      (Source.headRecord declaration body).kind = .tableExtension := by
    rwa [Source.headRecord_kind]
  have nothing : (Source.headRecord declaration body).metadata.get? "fields" = none := by
    rw [Source.headRecord_get? declaration body "fields" (by decide), if_neg (by decide)]
  unfold recordFields
  rw [Source.withBody_fields body kind]
  by_cases none : Source.fieldNames body = []
  · rw [if_neg (by simp [none]), nothing, none]
  · have texts : ∀ names : List String, (names.map Json.text).filterMap Json.asText? = names := by
      intro names
      rw [List.filterMap_map]
      exact List.filterMap_some
    rw [if_pos ⟨rfl, none⟩]
    exact texts _

theorem extends_withBody {declaration : Source.Declaration} (body : List Char)
    (extension : declaration.kind = .tableExtension) :
    (Source.withBody (Source.headRecord declaration body) body).metaText? "extends" = declaration.extends? := by
  unfold ObjectRecord.metaText?
  rw [Source.withBody_fields body (.inr (by rw [Source.headRecord_kind, extension])), if_neg (by simp),
    Source.headRecord_get? declaration body "extends" (by decide), if_pos rfl]
  cases declaration.extends? <;> rfl

theorem sourceTable_withBody {declaration : Source.Declaration} (body : List Char) (page : declaration.kind = .page) :
    (Source.withBody (Source.headRecord declaration body) body).metaText? "sourceTable" = Source.sourceTable? body := by
  unfold ObjectRecord.metaText?
  rw [Source.withBody_source body (by rw [Source.headRecord_kind, page]), if_pos rfl,
    Source.headRecord_get? declaration body "sourceTable" (by decide), if_neg (by decide)]
  cases Source.sourceTable? body <;> rfl

/-- A unit contributes to a table the fields that its record brings to it. -/
theorem contributed_iff {text : List Char} {table field : String} :
    (∃ name set, (Contribution.ofSource text).tables.get? name = some set ∧ sameTable name table = true ∧
      field ∈ set.toList) ↔
    ∃ record, Source.modernRecord? text = some record ∧ contributesTo record table = true ∧
      field ∈ recordFields record := by
  rw [Contribution.ofSource_eq, Source.modernRecord?_eq]
  cases Source.opening? text with
  | none => simp [Contribution.empty]
  | some opening =>
    obtain ⟨declaration, body⟩ := opening
    simp only [Option.map_some, Option.getD_some, Option.some.injEq, exists_eq_left']
    unfold contributesTo Contribution.ofOpening
    simp only [Source.withBody_kind, Source.headRecord_kind]
    cases kind : declaration.kind with
    | table =>
      simp only [get?_single, Source.withBody_name, Source.headRecord_name,
        recordFields_withBody body (.inl kind)]
      constructor
      · rintro ⟨name, set, ⟨rfl, rfl⟩, same, member⟩
        exact ⟨same, TextSet.mem_toList_ofList.1 member⟩
      · rintro ⟨same, member⟩
        exact ⟨_, _, ⟨rfl, rfl⟩, same, TextSet.mem_toList_ofList.2 member⟩
    | tableExtension =>
      simp only [extends_withBody body kind, recordFields_withBody body (.inr kind)]
      cases declaration.extends? with
      | none => simp [Contribution.empty]
      | some target =>
        simp only [get?_single, Option.any_some]
        constructor
        · rintro ⟨name, set, ⟨rfl, rfl⟩, same, member⟩
          exact ⟨same, TextSet.mem_toList_ofList.1 member⟩
        · rintro ⟨same, member⟩
          exact ⟨_, _, ⟨rfl, rfl⟩, same, TextSet.mem_toList_ofList.2 member⟩
    | _ => simp [Contribution.empty]

/-- A unit gives a page the source table that its record names. -/
theorem given_iff {text : List Char} {page : String} {source : Option String} :
    (Contribution.ofSource text).pages.get? page = some source ↔
    ∃ record, Source.modernRecord? text = some record ∧ record.kind = .page ∧ record.name = page ∧
      record.metaText? "sourceTable" = source := by
  rw [Contribution.ofSource_eq, Source.modernRecord?_eq]
  cases Source.opening? text with
  | none => simp [Contribution.empty]
  | some opening =>
    obtain ⟨declaration, body⟩ := opening
    simp only [Option.map_some, Option.getD_some, Option.some.injEq, exists_eq_left', Source.withBody_kind,
      Source.headRecord_kind, Source.withBody_name, Source.headRecord_name]
    unfold Contribution.ofOpening
    cases kind : declaration.kind with
    | page =>
      rw [get?_single, sourceTable_withBody body kind]
      simp [eq_comm]
    | tableExtension => cases declaration.extends? <;> simp [Contribution.empty]
    | _ => simp [Contribution.empty]

/-- The units of a project: one for each path, all of them modern, and no two objects of one name. -/
structure IsProject (units : List SourceUnit) : Prop where
  paths : (units.map SourceUnit.path).Nodup
  modern : ∀ unit ∈ units, IsModern unit.text
  names : ((units.filterMap SourceUnit.record?).map ObjectRecord.name).Nodup

theorem indexedUnits_derived (units : List SourceUnit) :
    Derived (indexedUnits units) ∧ (indexedUnits units).contributions =
      .ofList (units.map fun unit => (unit.path, .ofSource unit.text)) := by
  have steps (start : FieldIndex) (derived : Derived start) :
      let final := units.foldl (fun index unit => index.apply unit.path (.ofSource unit.text)) start
      Derived final ∧ final.contributions =
        start.contributions.insertAll (units.map fun unit => (unit.path, .ofSource unit.text)) := by
    induction units generalizing start with
    | nil => exact ⟨derived, rfl⟩
    | cons unit rest ih =>
      have later := ih (start.apply unit.path (.ofSource unit.text)) (apply_preserves derived _ _)
      rw [apply_contributions] at later
      exact later
  exact steps .empty empty_derived

namespace IsProject

variable {units : List SourceUnit} (project : IsProject units)

include project

theorem get?_contributions {path : String} {contribution : Contribution} :
    (indexedUnits units).contributions.get? path = some contribution ↔
      ∃ unit ∈ units, unit.path = path ∧ Contribution.ofSource unit.text = contribution := by
  have keys : (units.map fun unit => (unit.path, Contribution.ofSource unit.text)).map Prod.fst =
      units.map SourceUnit.path := by simp
  rw [(indexedUnits_derived units).2, Dict.get?_ofList_eq_some_iff (by rw [keys]; exact project.paths)]
  simp

theorem object?_eq_some_iff (dir : Path) {name : String} {record : ObjectRecord} :
    (cachedUnits dir units).object? name = some record ↔
      ∃ unit ∈ units, Source.modernRecord? unit.text = some record ∧ record.name = name := by
  have keys : ((units.filterMap SourceUnit.record?).map fun record => (record.name, record)).map Prod.fst =
      (units.filterMap SourceUnit.record?).map ObjectRecord.name := by simp
  have stored : (name, record) ∈ (units.filterMap SourceUnit.record?).map (fun record => (record.name, record)) ↔
      ∃ unit ∈ units, Source.modernRecord? unit.text = some record ∧ record.name = name := by
    simp only [List.mem_map, List.mem_filterMap, Prod.mk.injEq]
    constructor
    · rintro ⟨record, ⟨unit, inside, found⟩, named, rfl⟩
      rw [(project.modern unit inside).record?] at found
      exact ⟨unit, inside, found, named⟩
    · rintro ⟨unit, inside, found, named⟩
      rw [← (project.modern unit inside).record?] at found
      exact ⟨record, ⟨unit, inside, found⟩, named, rfl⟩
  exact (Dict.get?_ofList_eq_some_iff (by rw [keys]; exact project.names)).trans stored

theorem mem_values (dir : Path) {record : ObjectRecord} :
    record ∈ (cachedUnits dir units).objects.values ↔
      ∃ unit ∈ units, Source.modernRecord? unit.text = some record := by
  rw [Dict.mem_values_iff]
  constructor
  · intro ⟨key, found⟩
    obtain ⟨unit, inside, read, -⟩ := (project.object?_eq_some_iff dir).1 found
    exact ⟨unit, inside, read⟩
  · intro ⟨unit, inside, read⟩
    exact ⟨record.name, (project.object?_eq_some_iff dir).2 ⟨unit, inside, read, rfl⟩⟩

theorem mem_fields_iff {dir : Path} {table name : String} {fields : List String} (same : sameTable name table = true)
    (union : UnionOf (indexedUnits units).contributions name fields) (field : String) :
    field ∈ fields ↔ field ∈ fieldsOf (cachedUnits dir units) .empty table := by
  have stored : field ∈ fieldsOf (cachedUnits dir units) .empty table ↔
      ∃ unit ∈ units, ∃ record, Source.modernRecord? unit.text = some record ∧ contributesTo record table = true ∧
        field ∈ recordFields record := by
    have unknown : (FieldIndex.empty).fieldsOf? table = none := rfl
    rw [fieldsOf, unknown, TextSet.mem_toList_ofList]
    simp only [List.mem_flatMap, List.mem_filter, project.mem_values dir]
    constructor
    · rintro ⟨record, ⟨⟨unit, inside, read⟩, contributes⟩, member⟩
      exact ⟨unit, inside, record, read, contributes, member⟩
    · rintro ⟨unit, inside, record, read, contributes, member⟩
      exact ⟨record, ⟨⟨unit, inside, read⟩, contributes⟩, member⟩
  rw [union.members, stored]
  simp only [← contributed_iff]
  constructor
  · rintro ⟨path, spelling, set, ⟨contribution, found, spelled⟩, equal, member⟩
    obtain ⟨unit, inside, -, rfl⟩ := project.get?_contributions.1 found
    exact ⟨unit, inside, spelling, set, spelled, sameTable_trans equal same, member⟩
  · rintro ⟨unit, inside, spelling, set, spelled, equal, member⟩
    have found := project.get?_contributions.2 ⟨unit, inside, rfl, rfl⟩
    exact ⟨unit.path, spelling, set, ⟨_, found, spelled⟩, sameTable_trans equal (sameTable_symm same), member⟩

end IsProject

theorem exists_of_fieldsOf? {index : FieldIndex} {table : String} {fields : List String}
    (found : index.fieldsOf? table = some fields) :
    ∃ name, index.tableFields.get? name = some fields ∧ sameTable name table = true := by
  unfold FieldIndex.fieldsOf? at found
  split at found
  · rename_i held here
    cases found
    exact ⟨table, here, sameTable_refl table⟩
  · obtain ⟨⟨name, held⟩, first, rfl⟩ := Option.map_eq_some_iff.1 found
    have same : sameTable name table = true := by simpa using List.find?_some first
    exact ⟨name, Dict.get?_eq_some_iff.2 (List.mem_of_find?_eq_some first), same⟩

/-- A project is answered about alike by its field index and by its store alone. -/
theorem lookups_agree (dir : Path) (units : List SourceUnit) (project : IsProject units) (query : String) :
    fieldsOf (cachedUnits dir units) (indexedUnits units) query = fieldsOf (cachedUnits dir units) .empty query ∧
    sourceTable? (cachedUnits dir units) (indexedUnits units) query =
      sourceTable? (cachedUnits dir units) .empty query := by
  have reflects := (indexedUnits_derived units).1.reflects
  constructor
  · cases found : (indexedUnits units).fieldsOf? query with
    | none =>
      rw [fieldsOf, found]
      rfl
    | some fields =>
      obtain ⟨name, held, same⟩ := exists_of_fieldsOf? found
      have union := ((reflects.tables name fields).1 held).2
      rw [fieldsOf, found]
      exact Dict.eq_of_sorted_texts union.sorted (TextSet.toList_sorted _) (project.mem_fields_iff same union)
  · cases found : (indexedUnits units).sourceOf? query with
    | none =>
      rw [sourceTable?, found]
      rfl
    | some source =>
      have known : ∃ path, Gives (indexedUnits units).contributions path query source := by
        cases (reflects.pages query source).1 found with
        | given path text gives last => exact ⟨path, gives⟩
        | absent path gives never => exact ⟨path, gives⟩
      obtain ⟨path, contribution, held, gives⟩ := known
      obtain ⟨unit, inside, -, rfl⟩ := project.get?_contributions.1 held
      obtain ⟨record, read, -, named, same⟩ := given_iff.1 gives
      have unknown : (FieldIndex.empty).sourceOf? query = none := rfl
      rw [sourceTable?, found, sourceTable?, unknown,
        (project.object?_eq_some_iff dir).2 ⟨unit, inside, read, named⟩]
      exact same.symm

def itemUnits : List SourceUnit :=
  [⟨"/src/a.al", "table 27 Item { field(1; No; Code[20]) { } }".toList⟩,
    ⟨"/src/b.al", "tableextension 50 Extra extends ITEM { field(2; Note; Text[9]) { } }".toList⟩,
    ⟨"/src/c.al", "page 30 Card { SourceTable = Item; }".toList⟩]

theorem lookups_agree_item : IsProject itemUnits ∧
    fieldsOf (cachedUnits "/c" itemUnits) (indexedUnits itemUnits) "item" =
      fieldsOf (cachedUnits "/c" itemUnits) .empty "item" := by
  have names : (itemUnits.filterMap SourceUnit.record?).map ObjectRecord.name = ["Item", "Extra", "Card"] := by
    decide +kernel
  have openings : itemUnits.all (fun unit => unit.text.head? != some Text.byteOrderMark &&
      (Text.trimStart unit.text).head? != some '{' && !Legacy.isLegacy unit.text) = true := by
    decide +kernel
  have project : IsProject itemUnits := by
    refine ⟨by decide, ?_, by rw [names]; decide⟩
    intro unit inside
    have opening := List.all_eq_true.1 openings unit inside
    simp only [Bool.and_eq_true, bne_iff_ne, ne_eq, Bool.not_eq_true'] at opening
    exact ⟨opening.1.1, opening.1.2, opening.2⟩
  exact ⟨project, (lookups_agree "/c" itemUnits project "item").1⟩

end SymbolCache.Query
