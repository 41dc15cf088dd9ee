import SymbolCache.FieldIndex.Basic
import SymbolCache.Proofs.DictLookup

/-! Tables and pages of a field index are a function of its ledger. Every change recomputes only the
names that one file touches, so the invariant is stated entry by entry: a name holds what the whole
ledger says about it. -/

namespace SymbolCache.FieldIndex

theorem sameTable_iff {a b : String} :
    sameTable a b = true ↔ a.toList.map Char.toLower = b.toList.map Char.toLower := by
  rw [sameTable, Text.sameWord, beq_iff_eq]

theorem sameTable_refl (a : String) : sameTable a a = true := sameTable_iff.2 rfl

theorem sameTable_symm {a b : String} (same : sameTable a b = true) : sameTable b a = true :=
  sameTable_iff.2 (sameTable_iff.1 same).symm

theorem sameTable_trans {a b c : String} (first : sameTable a b = true) (second : sameTable b c = true) :
    sameTable a c = true :=
  sameTable_iff.2 ((sameTable_iff.1 first).trans (sameTable_iff.1 second))

theorem sameTable_congr {a b : String} (same : sameTable a b = true) (name : String) :
    sameTable name a = sameTable name b := by
  rw [Bool.eq_iff_iff]
  exact ⟨fun first => sameTable_trans first same, fun first => sameTable_trans first (sameTable_symm same)⟩

/-- What one file contributes to a table under any of its spellings. -/
def sharesIn (table : String) (contribution : Contribution) : List TableShare :=
  (contribution.tables.entries.filter fun (name, _) => sameTable name table).map fun (name, fields) =>
    ⟨name, fields.toList, contribution.declaredTable == some name⟩

theorem tableShares_eq (ledger : Dict Contribution) (table : String) :
    tableShares ledger table = ledger.values.flatMap (sharesIn table) := rfl

theorem pageShares_eq (ledger : Dict Contribution) (page : String) :
    pageShares ledger page = ledger.values.flatMap fun contribution => (contribution.pages.get? page).toList := by
  unfold pageShares
  induction ledger.values with
  | nil => rfl
  | cons contribution rest ih =>
    cases found : contribution.pages.get? page <;> simp [found, ih]

theorem mem_sharesIn {table : String} {contribution : Contribution} {share : TableShare} :
    share ∈ sharesIn table contribution ↔
      ∃ name fields, contribution.tables.get? name = some fields ∧ sameTable name table = true ∧
        share = ⟨name, fields.toList, contribution.declaredTable == some name⟩ := by
  simp only [sharesIn, List.mem_map, List.mem_filter, Prod.exists, Dict.get?_eq_some_iff]
  constructor
  · rintro ⟨name, fields, ⟨member, same⟩, rfl⟩
    exact ⟨name, fields, member, same, rfl⟩
  · rintro ⟨name, fields, member, same, rfl⟩
    exact ⟨name, fields, ⟨member, same⟩, rfl⟩

theorem mem_tableShares {ledger : Dict Contribution} {table : String} {share : TableShare} :
    share ∈ tableShares ledger table ↔
      ∃ path contribution, ledger.get? path = some contribution ∧ share ∈ sharesIn table contribution := by
  rw [tableShares_eq, List.mem_flatMap]
  constructor
  · rintro ⟨contribution, member, inside⟩
    obtain ⟨path, found⟩ := Dict.mem_values_iff.1 member
    exact ⟨path, contribution, found, inside⟩
  · rintro ⟨path, contribution, found, inside⟩
    exact ⟨contribution, Dict.mem_values_iff.2 ⟨path, found⟩, inside⟩

theorem tableShares_congr {a b : String} (same : sameTable a b = true) (ledger : Dict Contribution) :
    tableShares ledger a = tableShares ledger b := by
  simp only [tableShares, sameTable_congr same]

theorem least?_eq_some_iff {texts : List String} {text : String} :
    least? texts = some text ↔ text ∈ texts ∧ ∀ other ∈ texts, text ≤ other := by
  have bound (rest : List String) (first : String) :
      let best := rest.foldl (fun best text => if text < best then text else best) first
      best ∈ first :: rest ∧ ∀ other ∈ first :: rest, best ≤ other := by
    induction rest generalizing first with
    | nil => simp
    | cons head rest ih =>
      obtain ⟨member, below⟩ := ih (if head < first then head else first)
      simp only [List.foldl_cons]
      by_cases less : head < first
      · simp only [if_pos less, List.mem_cons] at member below ⊢
        refine ⟨.inr member, ?_⟩
        rintro other (rfl | older)
        · exact String.le_trans (below head (.inl rfl)) (String.not_lt.1 (String.lt_asymm less))
        · exact below other older
      · simp only [if_neg less, List.mem_cons] at member below ⊢
        refine ⟨member.elim .inl fun later => .inr (.inr later), ?_⟩
        rintro other (rfl | rfl | older)
        · exact below other (.inl rfl)
        · exact String.le_trans (below first (.inl rfl)) (String.not_lt.1 less)
        · exact below other (.inr older)
  cases texts with
  | nil => simp [least?]
  | cons first rest =>
    obtain ⟨member, below⟩ := bound rest first
    simp only [least?, Option.some.injEq]
    constructor
    · rintro rfl
      exact ⟨member, below⟩
    · rintro ⟨inside, least⟩
      exact String.le_antisymm (below text inside) (least _ member)

theorem mem_unionFields {shares : List TableShare} {field : String} :
    field ∈ unionFields shares ↔ ∃ share ∈ shares, field ∈ share.fields := by
  have collect (set : TextSet) :
      field ∈ (shares.foldl (fun set share => TextSet.union set share.fields) set).toList ↔
        field ∈ set.toList ∨ ∃ share ∈ shares, field ∈ share.fields := by
    induction shares generalizing set with
    | nil => simp
    | cons share rest ih =>
      rw [List.foldl_cons, ih, TextSet.mem_toList_union, or_assoc]
      simp only [List.mem_cons, exists_eq_or_imp]
  rw [unionFields, collect]
  simp [TextSet.toList, Dict.keys, Dict.empty]

theorem unionFields_sorted (shares : List TableShare) : (unionFields shares).Pairwise (· < ·) :=
  TextSet.toList_sorted _

theorem mem_of_tableName? {shares : List TableShare} {name : String} (named : tableName? shares = some name) :
    ∃ share ∈ shares, share.name = name := by
  unfold tableName? at named
  split at named
  · rename_i share last
    cases named
    exact ⟨share, (List.mem_filter.1 (List.mem_of_getLast? last)).1, rfl⟩
  · obtain ⟨share, member, same⟩ := List.mem_map.1 (least?_eq_some_iff.1 named).1
    exact ⟨share, member, same⟩

theorem sameTable_of_tableName? {ledger : Dict Contribution} {table name : String}
    (named : tableName? (tableShares ledger table) = some name) : sameTable name table = true := by
  obtain ⟨share, member, rfl⟩ := mem_of_tableName? named
  obtain ⟨_, contribution, _, inside⟩ := mem_tableShares.1 member
  obtain ⟨name, fields, _, same, rfl⟩ := mem_sharesIn.1 inside
  exact same

/-- What the ledger says about a table under one name: its fields, or nothing when the table goes by
another name. -/
def tableValue? (ledger : Dict Contribution) (name : String) : Option (List String) :=
  if tableName? (tableShares ledger name) = some name then some (unionFields (tableShares ledger name))
  else none

def pageValue? (ledger : Dict Contribution) (page : String) : Option (Option String) :=
  if (pageShares ledger page).isEmpty then none
  else some ((pageShares ledger page).filterMap id).getLast?

/-- Every entry of an index is what its ledger says. -/
structure Derived (index : FieldIndex) : Prop where
  tables : ∀ name, index.tableFields.get? name = tableValue? index.contributions name
  pages : ∀ page, index.pageSources.get? page = pageValue? index.contributions page

theorem get?_recomputeTable (index : FieldIndex) (table name : String) :
    (index.recomputeTable table).tableFields.get? name =
      if sameTable name table then tableValue? index.contributions name else index.tableFields.get? name := by
  have others : (index.tableFields.filter fun key _ => !sameTable key table).get? name =
      if sameTable name table then none else index.tableFields.get? name := by
    rw [Dict.get?_filter]
    cases sameTable name table <;> cases index.tableFields.get? name <;> simp
  simp only [recomputeTable]
  cases named : tableName? (tableShares index.contributions table) with
  | none =>
    rw [others]
    by_cases same : sameTable name table = true
    · rw [if_pos same, if_pos same, tableValue?, tableShares_congr same, named, if_neg nofun]
    · rw [if_neg same, if_neg same]
  | some key =>
    have keySame := sameTable_of_tableName? named
    rw [Dict.get?_insert, others]
    by_cases same : sameTable name table = true
    · simp only [tableValue?, tableShares_congr same, named, if_pos same, Option.some.injEq]
      by_cases here : name = key
      · rw [if_pos here, if_pos here.symm]
      · rw [if_neg here, if_neg (Ne.symm here)]
    · have elsewhere : name ≠ key := by
        rintro rfl
        exact same keySame
      rw [if_neg elsewhere, if_neg same, if_neg same]

theorem get?_recomputePage (index : FieldIndex) (page other : String) :
    (index.recomputePage page).pageSources.get? other =
      if other = page then pageValue? index.contributions other else index.pageSources.get? other := by
  by_cases here : other = page
  · subst here
    simp only [recomputePage, pageValue?]
    split <;> simp
  · simp only [recomputePage, if_neg here]
    split
    · rw [Dict.get?_erase, if_neg here]
    · rw [Dict.get?_insert_ne here]

/-- Recomputing changes nothing but tables and pages, and these only under the given names. -/
structure Recomputed (tables pages : List String) (before after : FieldIndex) : Prop where
  contributions : after.contributions = before.contributions
  watermarks : after.watermarks = before.watermarks
  tableFields : ∀ name, after.tableFields.get? name =
    if tables.any (sameTable name) then tableValue? before.contributions name else before.tableFields.get? name
  pageSources : ∀ page, after.pageSources.get? page =
    if page ∈ pages then pageValue? before.contributions page else before.pageSources.get? page

theorem recomputeTables (tables : List String) (index : FieldIndex) :
    Recomputed tables [] index (tables.foldl recomputeTable index) := by
  induction tables generalizing index with
  | nil => exact ⟨rfl, rfl, fun _ => by simp, fun _ => by simp⟩
  | cons table rest ih =>
    have later := ih (index.recomputeTable table)
    refine ⟨later.contributions, later.watermarks, ?_, later.pageSources⟩
    intro name
    have ledger : (index.recomputeTable table).contributions = index.contributions := rfl
    rw [List.foldl_cons, later.tableFields, ledger, get?_recomputeTable, List.any_cons]
    cases sameTable name table <;> cases rest.any (sameTable name) <;> simp

theorem recomputePages (pages : List String) (index : FieldIndex) :
    Recomputed [] pages index (pages.foldl recomputePage index) := by
  induction pages generalizing index with
  | nil => exact ⟨rfl, rfl, fun _ => by simp, fun _ => by simp⟩
  | cons page rest ih =>
    have later := ih (index.recomputePage page)
    refine ⟨later.contributions, later.watermarks, later.tableFields, ?_⟩
    intro other
    have ledger : (index.recomputePage page).contributions = index.contributions := rfl
    rw [List.foldl_cons, later.pageSources, ledger, get?_recomputePage]
    by_cases here : other = page
    · simp [here]
    · simp [here]

theorem recompute_recomputed (index : FieldIndex) (tables pages : List String) :
    Recomputed tables pages index (index.recompute tables pages) := by
  have first := recomputeTables tables index
  have second := recomputePages pages (tables.foldl recomputeTable index)
  refine ⟨second.contributions.trans first.contributions, second.watermarks.trans first.watermarks, ?_, ?_⟩
  · intro name
    rw [recompute, second.tableFields, first.contributions]
    simpa using first.tableFields name
  · intro page
    rw [recompute, second.pageSources, first.contributions, first.pageSources]
    simp

/-- A table that a contribution does not name under any spelling gets nothing from it. -/
theorem sharesIn_eq_nil {table : String} {contribution : Contribution}
    (unnamed : ∀ name ∈ contribution.tables.keys, sameTable table name = false) :
    sharesIn table contribution = [] := by
  rw [List.eq_nil_iff_forall_not_mem]
  intro share member
  obtain ⟨name, fields, found, same, -⟩ := mem_sharesIn.1 member
  have distinct := unnamed name (Dict.mem_keys_iff.2 ⟨fields, found⟩)
  rw [sameTable_symm same] at distinct
  cases distinct

theorem pages_get?_eq_none {page : String} {contribution : Contribution}
    (unnamed : page ∉ contribution.pages.keys) : (contribution.pages.get? page).toList = [] := by
  cases found : contribution.pages.get? page with
  | none => rfl
  | some source => exact absurd (Dict.mem_keys_iff.2 ⟨source, found⟩) unnamed

/-- After a change of the ledger every entry is what the new ledger says, or has stayed under a name of
which both ledgers say the same. -/
structure Patched (before after : FieldIndex) : Prop where
  tables : ∀ name, after.tableFields.get? name = tableValue? after.contributions name ∨
    after.tableFields.get? name = before.tableFields.get? name ∧
      tableValue? after.contributions name = tableValue? before.contributions name
  pages : ∀ page, after.pageSources.get? page = pageValue? after.contributions page ∨
    after.pageSources.get? page = before.pageSources.get? page ∧
      pageValue? after.contributions page = pageValue? before.contributions page

/-- Exchanging ledgers patches an index when every name whose shares differ is recomputed. -/
theorem Patched.recompute {index changed : FieldIndex} {tables pages : List String}
    (sameTables : changed.tableFields = index.tableFields) (samePages : changed.pageSources = index.pageSources)
    (otherTables : ∀ name, tables.any (sameTable name) = false →
      tableShares changed.contributions name = tableShares index.contributions name)
    (otherPages : ∀ page, page ∉ pages →
      pageShares changed.contributions page = pageShares index.contributions page) :
    Patched index (changed.recompute tables pages) := by
  have effect := recompute_recomputed changed tables pages
  constructor
  · intro name
    rw [effect.tableFields, effect.contributions]
    split
    · exact .inl rfl
    · rename_i untouched
      rw [sameTables, tableValue?, tableValue?, otherTables name (by simpa using untouched)]
      exact .inr ⟨rfl, rfl⟩
  · intro page
    rw [effect.pageSources, effect.contributions]
    split
    · exact .inl rfl
    · rename_i untouched
      rw [samePages, pageValue?, pageValue?, otherPages page untouched]
      exact .inr ⟨rfl, rfl⟩

theorem apply_patches (index : FieldIndex) (path : String) (contribution : Contribution) :
    Patched index (index.apply path contribution) := by
  refine Patched.recompute rfl rfl ?_ ?_
  · intro name untouched
    have distinct : ∀ table ∈ contribution.tables.keys ++
        ((index.contributions.get? path).getD .empty).tables.keys, sameTable name table = false := by
      intro table member
      simpa using List.any_eq_false.1 untouched table (TextSet.mem_toList_ofList.2 member)
    rw [tableShares_eq, tableShares_eq]
    refine Dict.flatMap_values_insert (sharesIn_eq_nil fun table member =>
      distinct table (List.mem_append_left _ member)) ?_
    intro previous found
    refine sharesIn_eq_nil fun table member => distinct table (List.mem_append_right _ ?_)
    rw [found]
    exact member
  · intro page untouched
    rw [TextSet.mem_toList_ofList, List.mem_append, not_or] at untouched
    rw [pageShares_eq, pageShares_eq]
    refine Dict.flatMap_values_insert (pages_get?_eq_none untouched.1) ?_
    intro previous found
    rw [found] at untouched
    exact pages_get?_eq_none untouched.2

theorem retract_patches (index : FieldIndex) (path : String) : Patched index (index.retract path) := by
  unfold retract
  split
  · exact ⟨fun _ => .inr ⟨rfl, rfl⟩, fun _ => .inr ⟨rfl, rfl⟩⟩
  · rename_i previous found
    refine Patched.recompute rfl rfl ?_ ?_
    · intro name untouched
      rw [tableShares_eq, tableShares_eq]
      refine Dict.flatMap_values_erase ?_
      intro removed same
      cases found.symm.trans same
      exact sharesIn_eq_nil fun table member => by simpa using List.any_eq_false.1 untouched table member
    · intro page untouched
      rw [pageShares_eq, pageShares_eq]
      refine Dict.flatMap_values_erase ?_
      intro removed same
      cases found.symm.trans same
      exact pages_get?_eq_none untouched

theorem Derived.patched {before after : FieldIndex} (derived : Derived before) (patched : Patched before after) :
    Derived after := by
  constructor
  · intro name
    rcases patched.tables name with new | ⟨stayed, same⟩
    · exact new
    · rw [stayed, derived.tables, same]
  · intro page
    rcases patched.pages page with new | ⟨stayed, same⟩
    · exact new
    · rw [stayed, derived.pages, same]

theorem apply_preserves {index : FieldIndex} (derived : Derived index) (path : String)
    (contribution : Contribution) : Derived (index.apply path contribution) :=
  derived.patched (apply_patches index path contribution)

theorem retract_preserves {index : FieldIndex} (derived : Derived index) (path : String) :
    Derived (index.retract path) := derived.patched (retract_patches index path)

theorem Derived.withWatermarks {index : FieldIndex} (derived : Derived index) (watermarks : Dict Binary64) :
    Derived { index with watermarks } := ⟨derived.tables, derived.pages⟩

@[simp] theorem apply_contributions (index : FieldIndex) (path : String) (contribution : Contribution) :
    (index.apply path contribution).contributions = index.contributions.insert path contribution :=
  (recompute_recomputed _ _ _).contributions

@[simp] theorem apply_watermarks (index : FieldIndex) (path : String) (contribution : Contribution) :
    (index.apply path contribution).watermarks = index.watermarks :=
  (recompute_recomputed _ _ _).watermarks

@[simp] theorem retract_contributions (index : FieldIndex) (path : String) :
    (index.retract path).contributions = index.contributions.erase path := by
  unfold retract
  split
  · rename_i absent
    apply Dict.ext_get?
    intro key
    rw [Dict.get?_erase]
    split
    · rename_i same
      rw [same, absent]
    · rfl
  · exact (recompute_recomputed _ _ _).contributions

@[simp] theorem retract_watermarks (index : FieldIndex) (path : String) :
    (index.retract path).watermarks = index.watermarks.erase path := by
  unfold retract
  split
  · rfl
  · exact (recompute_recomputed _ _ _).watermarks

theorem empty_derived : Derived empty := ⟨fun _ => rfl, fun _ => rfl⟩

/-- The ledger and the watermarks decide a derived index. -/
theorem Derived.ext {first second : FieldIndex} (derived : Derived first) (derived' : Derived second)
    (ledger : first.contributions = second.contributions) (marks : first.watermarks = second.watermarks) :
    first = second := by
  have tables : first.tableFields = second.tableFields := Dict.ext_get? fun name => by
    rw [derived.tables, derived'.tables, ledger]
  have pages : first.pageSources = second.pageSources := Dict.ext_get? fun page => by
    rw [derived.pages, derived'.pages, ledger]
  cases first
  cases second
  cases tables
  cases pages
  cases ledger
  cases marks
  rfl

end SymbolCache.FieldIndex
