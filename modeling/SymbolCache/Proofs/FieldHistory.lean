import SymbolCache.Proofs.FieldLedger

/-! What a field index says after any history of changes, read off its ledger alone: which name a
table goes by, which fields it has and where a page takes its rows from. -/

namespace SymbolCache.FieldIndex

inductive Change where
  | apply (path : String) (contribution : Contribution)
  | retract (path : String)

def change (index : FieldIndex) : Change → FieldIndex
  | .apply path contribution => index.apply path contribution
  | .retract path => index.retract path

def replay (history : List Change) : FieldIndex := history.foldl change empty

section Reading

variable (ledger : Dict Contribution)

/-- A file contributes fields to a table under one spelling. -/
def Contributes (path table : String) (fields : TextSet) : Prop :=
  ∃ contribution, ledger.get? path = some contribution ∧ contribution.tables.get? table = some fields

def Spelled (table : String) : Prop := ∃ path fields, Contributes ledger path table fields

/-- A file contributes to a table under the name by which it declares one. -/
def Declares (path table : String) : Prop :=
  ∃ contribution, ledger.get? path = some contribution ∧ contribution.declaredTable = some table ∧
    ∃ fields, contribution.tables.get? table = some fields

/-- The name a table goes by: that of its last declaration in the order of paths, or its least
spelling when no file declares it. -/
inductive Names (table : String) : Prop where
  | declared (path : String) (declares : Declares ledger path table)
      (last : ∀ other name, Declares ledger other name → sameTable name table → other ≤ path)
  | spelled (spelled : Spelled ledger table)
      (undeclared : ∀ path name, Declares ledger path name → ¬ sameTable name table)
      (least : ∀ other, Spelled ledger other → sameTable other table → table ≤ other)

/-- The fields contributed to a table under all its spellings, in strictly increasing order. -/
structure UnionOf (table : String) (fields : List String) : Prop where
  sorted : fields.Pairwise (· < ·)
  members : ∀ field, field ∈ fields ↔
    ∃ path name set, Contributes ledger path name set ∧ sameTable name table ∧ field ∈ set.toList

/-- A file says of a page that it has this source, or none. -/
def Gives (path page : String) (source : Option String) : Prop :=
  ∃ contribution, ledger.get? path = some contribution ∧ contribution.pages.get? page = some source

/-- The source of a contributed page: the last one given in the order of paths, if any is. -/
inductive Sources (page : String) : Option String → Prop where
  | given (path source : String) (gives : Gives ledger path page (some source))
      (last : ∀ other text, Gives ledger other page (some text) → other ≤ path) :
      Sources page (some source)
  | absent (path : String) (known : Gives ledger path page none)
      (never : ∀ other text, ¬ Gives ledger other page (some text)) : Sources page none

end Reading

/-- Tables and pages of an index are those its ledger describes, with one name for each class of
spellings. -/
structure Reflects (index : FieldIndex) : Prop where
  tables : ∀ table fields, index.tableFields.get? table = some fields ↔
    Names index.contributions table ∧ UnionOf index.contributions table fields
  spelled : ∀ table, index.tableFields.contains table → Spelled index.contributions table
  single : ∀ spelling, Spelled index.contributions spelling →
    ∃ table, (index.tableFields.contains table ∧ sameTable table spelling) ∧
      ∀ other, index.tableFields.contains other → sameTable other spelling → other = table
  pages : ∀ page source, index.pageSources.get? page = some source ↔ Sources index.contributions page source

theorem mem_spellings {ledger : Dict Contribution} {table name : String} :
    name ∈ (tableShares ledger table).map TableShare.name ↔ Spelled ledger name ∧ sameTable name table = true := by
  rw [List.mem_map]
  constructor
  · rintro ⟨share, member, rfl⟩
    obtain ⟨path, contribution, found, inside⟩ := mem_tableShares.1 member
    obtain ⟨name, fields, spelled, same, rfl⟩ := mem_sharesIn.1 inside
    exact ⟨⟨path, fields, contribution, found, spelled⟩, same⟩
  · rintro ⟨⟨path, fields, contribution, found, spelled⟩, same⟩
    exact ⟨_, mem_tableShares.2 ⟨path, contribution, found, mem_sharesIn.2 ⟨name, fields, spelled, same, rfl⟩⟩, rfl⟩

theorem mem_contributed {ledger : Dict Contribution} {table field : String} :
    field ∈ unionFields (tableShares ledger table) ↔
      ∃ path name set, Contributes ledger path name set ∧ sameTable name table = true ∧ field ∈ set.toList := by
  rw [mem_unionFields]
  constructor
  · rintro ⟨share, member, contained⟩
    obtain ⟨path, contribution, found, inside⟩ := mem_tableShares.1 member
    obtain ⟨name, set, spelled, same, rfl⟩ := mem_sharesIn.1 inside
    exact ⟨path, name, set, ⟨contribution, found, spelled⟩, same, contained⟩
  · rintro ⟨path, name, set, ⟨contribution, found, spelled⟩, same, contained⟩
    exact ⟨_, mem_tableShares.2 ⟨path, contribution, found, mem_sharesIn.2 ⟨name, set, spelled, same, rfl⟩⟩, contained⟩

/-- The name by which a file declares a table, if it contributes to the table under that name. -/
def declaredIn (table : String) (contribution : Contribution) : Option String :=
  contribution.declaredTable.filter fun name => contribution.tables.contains name && sameTable name table

theorem declaredIn_eq_some_iff {table name : String} {contribution : Contribution} :
    declaredIn table contribution = some name ↔ contribution.declaredTable = some name ∧
      (∃ fields, contribution.tables.get? name = some fields) ∧ sameTable name table = true := by
  rw [declaredIn, Option.filter_eq_some_iff, Bool.and_eq_true, Dict.contains_iff]

private theorem declaredShares_in (table : String) (contribution : Contribution) :
    ((sharesIn table contribution).filter TableShare.declared).map TableShare.name =
      (declaredIn table contribution).toList := by
  have shape : ((sharesIn table contribution).filter TableShare.declared).map TableShare.name =
      contribution.tables.keys.filter fun name =>
        sameTable name table && contribution.declaredTable == some name := by
    simp only [sharesIn, Dict.keys, List.filter_map, List.map_map, List.filter_filter]
    congr 1
    apply List.filter_congr
    intro entry _
    exact Bool.and_comm ..
  rw [shape, declaredIn]
  cases contribution.declaredTable with
  | none => simp
  | some declared =>
    have only : (contribution.tables.keys.filter fun name => sameTable name table && some declared == some name) =
        (contribution.tables.keys.filter (· == declared)).filter fun name => sameTable name table := by
      rw [List.filter_filter]
      apply List.filter_congr
      intro name _
      rw [Option.some_beq_some, Bool.beq_comm]
    rw [only, Dict.filter_keys]
    cases held : contribution.tables.contains declared <;> cases same : sameTable declared table <;>
      simp [Option.filter, held, same]

/-- The declarations of a table in the order of paths, one for each file at most. -/
theorem declaredShares_eq (ledger : Dict Contribution) (table : String) :
    ((tableShares ledger table).filter TableShare.declared).map TableShare.name =
      ledger.values.filterMap (declaredIn table) := by
  rw [tableShares_eq, List.filter_flatMap, List.map_flatMap]
  induction ledger.values with
  | nil => rfl
  | cons contribution rest ih =>
    rw [List.flatMap_cons, ih, declaredShares_in]
    cases found : declaredIn table contribution <;> simp [found]

theorem lastDeclaration_iff {ledger : Dict Contribution} {table name : String} :
    (ledger.values.filterMap (declaredIn table)).getLast? = some name ↔
      ∃ path, Declares ledger path name ∧ sameTable name table = true ∧
        ∀ other spelling, Declares ledger other spelling → sameTable spelling table = true → other ≤ path := by
  rw [Dict.getLast?_filterMap_values]
  constructor
  · rintro ⟨path, contribution, found, declared, last⟩
    obtain ⟨declares, fields, same⟩ := declaredIn_eq_some_iff.1 declared
    refine ⟨path, ⟨contribution, found, declares, fields⟩, same, ?_⟩
    rintro other spelling ⟨later, found', declares', fields'⟩ same'
    exact last other later found' (by rw [declaredIn_eq_some_iff.2 ⟨declares', fields', same'⟩]; rfl)
  · rintro ⟨path, ⟨contribution, found, declares, fields⟩, same, last⟩
    refine ⟨path, contribution, found, declaredIn_eq_some_iff.2 ⟨declares, fields, same⟩, ?_⟩
    intro other later found' present
    obtain ⟨spelling, declared⟩ := Option.isSome_iff_exists.1 present
    obtain ⟨declares', fields', same'⟩ := declaredIn_eq_some_iff.1 declared
    exact last other spelling ⟨later, found', declares', fields'⟩ same'

theorem tableName?_eq_some_iff {ledger : Dict Contribution} {table : String} :
    tableName? (tableShares ledger table) = some table ↔ Names ledger table := by
  have declarations := congrArg List.getLast? (declaredShares_eq ledger table)
  rw [List.getLast?_map] at declarations
  unfold tableName?
  cases found : ((tableShares ledger table).filter TableShare.declared).getLast? with
  | some share =>
    rw [found] at declarations
    simp only [Option.some.injEq]
    constructor
    · rintro rfl
      obtain ⟨path, declares, -, last⟩ := lastDeclaration_iff.1 declarations.symm
      exact .declared path declares last
    · rintro (⟨path, declares, last⟩ | ⟨-, undeclared, -⟩)
      · have winner := lastDeclaration_iff.2 ⟨path, declares, sameTable_refl table, last⟩
        exact Option.some.inj (declarations.trans winner)
      · obtain ⟨path, declares, same, -⟩ := lastDeclaration_iff.1 declarations.symm
        exact absurd same (undeclared path _ declares)
  | none =>
    rw [found] at declarations
    have undeclared : ∀ path name, Declares ledger path name → ¬ sameTable name table := by
      rintro path name ⟨contribution, member, declares, fields⟩ same
      have nothing := List.filterMap_eq_nil_iff.1 (List.getLast?_eq_none_iff.1 declarations.symm) contribution
        (Dict.mem_values_iff.2 ⟨path, member⟩)
      rw [declaredIn_eq_some_iff.2 ⟨declares, fields, same⟩] at nothing
      cases nothing
    simp only [least?_eq_some_iff, mem_spellings]
    constructor
    · rintro ⟨⟨spelled, -⟩, least⟩
      exact .spelled spelled undeclared fun other spelling same => least other ⟨spelling, same⟩
    · rintro (⟨path, declares, -⟩ | ⟨spelled, -, least⟩)
      · exact absurd (sameTable_refl table) (undeclared path table declares)
      · exact ⟨⟨spelled, sameTable_refl table⟩, fun other both => least other both.1 both.2⟩

theorem unionFields_eq_iff {ledger : Dict Contribution} {table : String} {fields : List String} :
    unionFields (tableShares ledger table) = fields ↔ UnionOf ledger table fields := by
  constructor
  · rintro rfl
    exact ⟨unionFields_sorted _, fun _ => mem_contributed⟩
  · intro union
    refine Dict.eq_of_sorted_texts (unionFields_sorted _) union.sorted fun field => ?_
    rw [union.members, mem_contributed]

theorem tableValue?_eq_some_iff {ledger : Dict Contribution} {table : String} {fields : List String} :
    tableValue? ledger table = some fields ↔ Names ledger table ∧ UnionOf ledger table fields := by
  rw [tableValue?, Option.ite_none_right_eq_some, tableName?_eq_some_iff, Option.some.injEq, unionFields_eq_iff]

theorem exists_name {ledger : Dict Contribution} {spelling : String} (spelled : Spelled ledger spelling) :
    ∃ table, Names ledger table ∧ sameTable table spelling = true := by
  have member := mem_spellings.2 ⟨spelled, sameTable_refl spelling⟩
  cases named : tableName? (tableShares ledger spelling) with
  | some table =>
    have same := sameTable_of_tableName? named
    exact ⟨table, tableName?_eq_some_iff.1 (by rw [tableShares_congr same, named]), same⟩
  | none =>
    unfold tableName? at named
    split at named
    · cases named
    · cases shares : (tableShares ledger spelling).map TableShare.name with
      | nil => rw [shares] at member; cases member
      | cons first rest => rw [shares] at named; cases named

theorem Names.unique {ledger : Dict Contribution} {first second : String} (named : Names ledger first)
    (named' : Names ledger second) (same : sameTable first second = true) : first = second := by
  have one := tableName?_eq_some_iff.2 named
  rw [tableShares_congr same, tableName?_eq_some_iff.2 named'] at one
  exact (Option.some.inj one).symm

theorem Names.isSpelled {ledger : Dict Contribution} {table : String} (named : Names ledger table) :
    Spelled ledger table := by
  cases named with
  | declared path declares _ =>
    obtain ⟨contribution, found, -, fields, spelled⟩ := declares
    exact ⟨path, fields, contribution, found, spelled⟩
  | spelled spelled _ _ => exact spelled

theorem lastSource_iff {ledger : Dict Contribution} {page source : String} :
    ((pageShares ledger page).filterMap id).getLast? = some source ↔
      ∃ path, Gives ledger path page (some source) ∧
        ∀ other text, Gives ledger other page (some text) → other ≤ path := by
  have given (contribution : Contribution) (text : String) :
      (contribution.pages.get? page).bind id = some text ↔ contribution.pages.get? page = some (some text) := by
    rw [Option.bind_eq_some_iff]
    exact ⟨fun ⟨_, found, same⟩ => found.trans (congrArg some same), fun found => ⟨_, found, rfl⟩⟩
  rw [pageShares, List.filterMap_filterMap, Dict.getLast?_filterMap_values]
  constructor
  · rintro ⟨path, contribution, found, gives, last⟩
    refine ⟨path, ⟨contribution, found, (given _ _).1 gives⟩, ?_⟩
    rintro other text ⟨later, found', gives'⟩
    exact last other later found' (by rw [(given _ _).2 gives']; rfl)
  · rintro ⟨path, ⟨contribution, found, gives⟩, last⟩
    refine ⟨path, contribution, found, (given _ _).2 gives, ?_⟩
    intro other later found' present
    obtain ⟨text, gives'⟩ := Option.isSome_iff_exists.1 present
    exact last other text ⟨later, found', (given _ _).1 gives'⟩

theorem mem_pageShares {ledger : Dict Contribution} {page : String} {source : Option String} :
    source ∈ pageShares ledger page ↔ ∃ path, Gives ledger path page source := by
  rw [pageShares, List.mem_filterMap]
  constructor
  · rintro ⟨contribution, member, gives⟩
    obtain ⟨path, found⟩ := Dict.mem_values_iff.1 member
    exact ⟨path, contribution, found, gives⟩
  · rintro ⟨path, contribution, found, gives⟩
    exact ⟨contribution, Dict.mem_values_iff.2 ⟨path, found⟩, gives⟩

theorem pageValue?_eq_some_iff {ledger : Dict Contribution} {page : String} {source : Option String} :
    pageValue? ledger page = some source ↔ Sources ledger page source := by
  rw [pageValue?, Option.ite_none_left_eq_some, Option.some.injEq]
  constructor
  · rintro ⟨known, rfl⟩
    cases found : ((pageShares ledger page).filterMap id).getLast? with
    | some text =>
      obtain ⟨path, gives, last⟩ := lastSource_iff.1 found
      exact .given path text gives last
    | none =>
      have never : ∀ other text, ¬ Gives ledger other page (some text) := by
        intro other text gives
        have nothing := List.filterMap_eq_nil_iff.1 (List.getLast?_eq_none_iff.1 found) _
          (mem_pageShares.2 ⟨other, gives⟩)
        cases nothing
      obtain ⟨source, member⟩ := List.exists_mem_of_ne_nil _ fun empty => known (List.isEmpty_iff.2 empty)
      obtain ⟨path, gives⟩ := mem_pageShares.1 member
      cases source with
      | none => exact .absent path gives never
      | some text => exact absurd gives (never path text)
  · intro sources
    have known {path : String} {given : Option String} (gives : Gives ledger path page given) :
        ¬ (pageShares ledger page).isEmpty = true := by
      intro empty
      have member := mem_pageShares.2 ⟨path, gives⟩
      rw [List.isEmpty_iff.1 empty] at member
      cases member
    cases sources with
    | given path text gives last => exact ⟨known gives, lastSource_iff.2 ⟨path, gives, last⟩⟩
    | absent path gives never =>
      refine ⟨known gives, ?_⟩
      cases found : ((pageShares ledger page).filterMap id).getLast? with
      | none => rfl
      | some text =>
        obtain ⟨other, gives', -⟩ := lastSource_iff.1 found
        exact absurd gives' (never other text)

theorem Derived.reflects {index : FieldIndex} (derived : Derived index) : Reflects index := by
  have tables (table : String) (fields : List String) : index.tableFields.get? table = some fields ↔
      Names index.contributions table ∧ UnionOf index.contributions table fields := by
    rw [derived.tables, tableValue?_eq_some_iff]
  have contains (table : String) : index.tableFields.contains table = true ↔ Names index.contributions table := by
    rw [Dict.contains_iff]
    constructor
    · rintro ⟨fields, found⟩
      exact ((tables table fields).1 found).1
    · intro named
      exact ⟨_, (tables table _).2 ⟨named, unionFields_eq_iff.1 rfl⟩⟩
  refine ⟨tables, fun table held => ((contains table).1 held).isSpelled, ?_, ?_⟩
  · intro spelling spelled
    obtain ⟨table, named, same⟩ := exists_name spelled
    refine ⟨table, ⟨(contains table).2 named, same⟩, ?_⟩
    intro other held sameOther
    exact ((contains other).1 held).unique named (sameTable_trans sameOther (sameTable_symm same))
  · intro page source
    rw [derived.pages, pageValue?_eq_some_iff]

theorem change_preserves {index : FieldIndex} (derived : Derived index) (step : Change) :
    Derived (index.change step) := by
  cases step with
  | apply path contribution => exact apply_preserves derived path contribution
  | retract path => exact retract_preserves derived path

theorem change_watermarks {index : FieldIndex} (unmarked : index.watermarks = .empty) (step : Change) :
    (index.change step).watermarks = .empty := by
  cases step with
  | apply path contribution => rw [change, apply_watermarks, unmarked]
  | retract path =>
    rw [change, retract_watermarks, unmarked]
    rfl

theorem replay_derived (history : List Change) :
    Derived (replay history) ∧ (replay history).watermarks = .empty := by
  have steps (start : FieldIndex) (derived : Derived start) (unmarked : start.watermarks = .empty) :
      Derived (history.foldl change start) ∧ (history.foldl change start).watermarks = .empty := by
    induction history generalizing start with
    | nil => exact ⟨derived, unmarked⟩
    | cons step rest ih => exact ih _ (change_preserves derived step) (change_watermarks unmarked step)
  exact steps empty empty_derived rfl

/-- After any history, tables and pages are what the ledger says; so the ledger decides the index,
and a file that comes and goes leaves no trace. -/
theorem replay_reflects_ledger (history : List Change) :
    Reflects (replay history) ∧
    (∀ other, (replay other).contributions = (replay history).contributions → replay other = replay history) ∧
    (∀ path contribution, (replay history).contributions.contains path = false →
      ((replay history).apply path contribution).retract path = replay history) := by
  obtain ⟨derived, unmarked⟩ := replay_derived history
  refine ⟨derived.reflects, ?_, ?_⟩
  · intro other ledger
    obtain ⟨derived', unmarked'⟩ := replay_derived other
    exact derived'.ext derived ledger (unmarked'.trans unmarked.symm)
  · intro path contribution fresh
    refine (retract_preserves (apply_preserves derived path contribution) path).ext derived ?_ ?_
    · apply Dict.ext_get?
      intro key
      rw [retract_contributions, apply_contributions, Dict.get?_erase, Dict.get?_insert]
      split
      · rename_i same
        rw [same]
        cases found : (replay history).contributions.get? path with
        | none => rfl
        | some old => simp [Dict.contains, found] at fresh
      · rfl
    · rw [retract_watermarks, apply_watermarks, unmarked]
      rfl

/-- A file that declares a table under another spelling comes and goes. -/
theorem replay_retracts_declaration :
    let declaring (name field : String) : Contribution := ⟨.ofList [(name, .ofList [field])], .empty, some name⟩
    let base := replay [.apply "a.al" (declaring "Item" "No")]
    base.contributions.contains "b.al" = false ∧
      (base.apply "b.al" (declaring "ITEM" "Name")).retract "b.al" = base := by
  intro declaring base
  have fresh : base.contributions.contains "b.al" = false := by decide
  exact ⟨fresh, (replay_reflects_ledger _).2.2 _ _ fresh⟩

end SymbolCache.FieldIndex
