import SymbolCache.Dict

/-! Finite maps through their lookups: what each operation does to `get?`, and that lookups decide
a map. Later proofs use these laws and never open the list of entries. -/

namespace SymbolCache.Dict

variable {α : Type}

private theorem lookup_head (key k : String) (v : α) (rest : List (String × α)) :
    ((k, v) :: rest).lookup key = if key = k then some v else rest.lookup key := by
  by_cases same : key = k
  · simp [same]
  · rw [List.lookup_cons, beq_false_of_ne same, if_neg same]

theorem get?_eq_some_iff {dict : Dict α} {key : String} {value : α} :
    dict.get? key = some value ↔ (key, value) ∈ dict.entries := by
  obtain ⟨entries, sorted⟩ := dict
  simp only [get?]
  induction entries with
  | nil => simp
  | cons head rest ih =>
    obtain ⟨k, v⟩ := head
    obtain ⟨first, others⟩ := List.pairwise_cons.1 sorted
    by_cases same : key = k
    · subst same
      simp only [List.lookup_cons_self, Option.some.injEq, List.mem_cons, Prod.mk.injEq, true_and]
      constructor
      · intro equal
        exact .inl equal.symm
      · rintro (equal | later)
        · exact equal.symm
        · exact absurd (first _ later) (String.lt_irrefl _)
    · simp only [lookup_head, List.mem_cons, Prod.mk.injEq, same, false_and, false_or]
      exact ih others

theorem mem_keys_iff {dict : Dict α} {key : String} :
    key ∈ dict.keys ↔ ∃ value, dict.get? key = some value := by
  simp only [keys, List.mem_map, Prod.exists, get?_eq_some_iff]
  constructor
  · rintro ⟨k, value, member, rfl⟩
    exact ⟨value, member⟩
  · rintro ⟨value, member⟩
    exact ⟨key, value, member, rfl⟩

theorem mem_values_iff {dict : Dict α} {value : α} :
    value ∈ dict.values ↔ ∃ key, dict.get? key = some value := by
  simp only [values, List.mem_map, Prod.exists, get?_eq_some_iff]
  constructor
  · rintro ⟨key, v, member, rfl⟩
    exact ⟨key, member⟩
  · rintro ⟨key, member⟩
    exact ⟨key, value, member, rfl⟩

theorem contains_iff {dict : Dict α} {key : String} :
    dict.contains key = true ↔ ∃ value, dict.get? key = some value := by
  rw [contains, Option.isSome_iff_exists]

theorem keys_sorted (dict : Dict α) : dict.keys.Pairwise (· < ·) :=
  List.pairwise_map.2 dict.sorted

/-- Strictly increasing lists with the same members are equal. -/
theorem eq_of_sorted {β : Type} {order : β → β → Prop} (irreflexive : ∀ a, ¬ order a a)
    (asymmetric : ∀ a b, order a b → ¬ order b a) {first second : List β}
    (sorted : first.Pairwise order) (sorted' : second.Pairwise order)
    (same : ∀ item, item ∈ first ↔ item ∈ second) : first = second := by
  have distinct {list : List β} (sorted : list.Pairwise order) : list.Nodup := by
    refine List.Pairwise.imp ?_ sorted
    intro a b less equal
    subst equal
    exact irreflexive a less
  refine List.Perm.eq_of_pairwise ?_ sorted sorted'
    ((List.perm_ext_iff_of_nodup (distinct sorted) (distinct sorted')).2 same)
  intro a b _ _ less greater
  exact absurd greater (asymmetric a b less)

theorem eq_of_sorted_texts {first second : List String} (sorted : first.Pairwise (· < ·))
    (sorted' : second.Pairwise (· < ·)) (same : ∀ text, text ∈ first ↔ text ∈ second) :
    first = second :=
  eq_of_sorted String.lt_irrefl (fun _ _ => String.lt_asymm) sorted sorted' same

theorem ext_get? {first second : Dict α} (same : ∀ key, first.get? key = second.get? key) :
    first = second := by
  have entries : first.entries = second.entries := by
    refine eq_of_sorted (fun entry => String.lt_irrefl entry.1) (fun _ _ => String.lt_asymm)
      first.sorted second.sorted ?_
    intro entry
    rw [← get?_eq_some_iff, ← get?_eq_some_iff, same]
  cases first
  cases second
  cases entries
  rfl

@[simp] theorem get?_empty (key : String) : (empty : Dict α).get? key = none := rfl

theorem get?_insert (dict : Dict α) (key other : String) (value : α) :
    (dict.insert key value).get? other = if other = key then some value else dict.get? other := by
  obtain ⟨entries, sorted⟩ := dict
  simp only [get?, insert]
  induction entries with
  | nil => rw [insertEntry, lookup_head]
  | cons head rest ih =>
    obtain ⟨k, v⟩ := head
    have later := ih (List.pairwise_cons.1 sorted).2
    simp only [insertEntry]
    split
    · rw [lookup_head]
    · split
      · rename_i equal
        subst equal
        rw [lookup_head, lookup_head]
        by_cases same : other = key <;> simp only [same, if_true, if_false]
      · rename_i distinct
        rw [lookup_head, lookup_head, later]
        by_cases here : other = k
        · subst here
          rw [if_pos rfl, if_pos rfl, if_neg (Ne.symm distinct)]
        · rw [if_neg here, if_neg here]

@[simp] theorem get?_insert_self (dict : Dict α) (key : String) (value : α) :
    (dict.insert key value).get? key = some value := by
  rw [get?_insert, if_pos rfl]

theorem get?_insert_ne {dict : Dict α} {key other : String} {value : α} (distinct : other ≠ key) :
    (dict.insert key value).get? other = dict.get? other := by
  rw [get?_insert, if_neg distinct]

theorem get?_filter (p : String → α → Bool) (dict : Dict α) (key : String) :
    (dict.filter p).get? key = (dict.get? key).filter (p key) := by
  apply Option.ext
  intro value
  rw [Option.filter_eq_some_iff, get?_eq_some_iff, get?_eq_some_iff]
  simp [filter]

theorem get?_erase (dict : Dict α) (key other : String) :
    (dict.erase key).get? other = if other = key then none else dict.get? other := by
  rw [erase, get?_filter]
  by_cases same : other = key
  · simp [same]
  · rw [if_neg same]
    cases dict.get? other <;> simp [same]

@[simp] theorem get?_erase_self (dict : Dict α) (key : String) : (dict.erase key).get? key = none := by
  rw [get?_erase, if_pos rfl]

/-- Of several entries with one key the last one stays. -/
theorem get?_insertAll (dict : Dict α) (entries : List (String × α)) (key : String) :
    (dict.insertAll entries).get? key =
      ((entries.filter fun entry => entry.1 == key).getLast?.map Prod.snd).or (dict.get? key) := by
  induction entries generalizing dict with
  | nil => rfl
  | cons entry rest ih =>
    have step : dict.insertAll (entry :: rest) = (dict.insert entry.1 entry.2).insertAll rest := rfl
    rw [step, ih, get?_insert]
    by_cases same : entry.1 = key
    · rw [if_pos same.symm, List.filter_cons_of_pos (by simpa using same), List.getLast?_cons]
      cases (rest.filter fun entry => entry.1 == key).getLast? <;> simp
    · rw [if_neg (Ne.symm same), List.filter_cons_of_neg (by simpa using same)]

/-- The last value in the order of keys for which something is there. -/
theorem getLast?_filterMap_values {β : Type} {dict : Dict α} {pick : α → Option β} {item : β} :
    (dict.values.filterMap pick).getLast? = some item ↔
      ∃ key value, dict.get? key = some value ∧ pick value = some item ∧
        ∀ other later, dict.get? other = some later → (pick later).isSome → other ≤ key := by
  simp only [get?_eq_some_iff]
  rw [values, List.filterMap_map, List.getLast?_filterMap, List.findSome?_eq_some_iff]
  constructor
  · rintro ⟨later, ⟨key, value⟩, earlier, split, found, nothing⟩
    have order : dict.entries = earlier.reverse ++ (key, value) :: later.reverse := by
      rw [← List.reverse_reverse dict.entries, split]
      simp
    refine ⟨key, value, by simp [order], found, ?_⟩
    intro other candidate member present
    rw [order] at member
    rcases List.mem_append.1 member with before | after
    · have sorted := List.pairwise_append.1 (order ▸ dict.sorted)
      exact String.not_lt.1 (String.lt_asymm (sorted.2.2 _ before (key, value) (List.mem_cons_self ..)))
    · rcases List.mem_cons.1 after with same | after
      · cases same
        exact String.le_refl _
      · have absent := nothing _ (List.mem_reverse.1 after)
        simp only [Function.comp_apply] at absent
        simp [absent] at present
  · rintro ⟨key, value, member, found, last⟩
    obtain ⟨earlier, later, split⟩ := List.append_of_mem member
    refine ⟨later.reverse, (key, value), earlier.reverse, by simp [split], found, ?_⟩
    intro entry after
    rw [List.mem_reverse] at after
    have sorted := List.pairwise_append.1 (split ▸ dict.sorted)
    have greater := List.rel_of_pairwise_cons sorted.2.1 after
    cases picked : pick entry.2 with
    | none => exact picked
    | some chosen =>
      have bounded := last entry.1 entry.2 (by simp [split, after]) (by simp [picked])
      exact absurd greater (String.not_lt.2 bounded)

/-- An entry that adds nothing may come and go. -/
theorem flatMap_values_insert {β : Type} {dict : Dict α} {key : String} {value : α}
    {share : α → List β} (added : share value = [])
    (replaced : ∀ previous, dict.get? key = some previous → share previous = []) :
    (dict.insert key value).values.flatMap share = dict.values.flatMap share := by
  obtain ⟨entries, sorted⟩ := dict
  simp only [values, insert, get?] at replaced ⊢
  induction entries with
  | nil => simp [insertEntry, added]
  | cons head rest ih =>
    obtain ⟨k, v⟩ := head
    simp only [insertEntry]
    split
    · simp [added]
    · split
      · rename_i equal
        have old := replaced v (by simp [equal])
        simp [added, old]
      · rename_i distinct
        have later := ih (List.pairwise_cons.1 sorted).2 fun previous found =>
          replaced previous (by rw [lookup_head, if_neg distinct, found])
        simp only [List.map_cons, List.flatMap_cons, later]

theorem flatMap_values_erase {β : Type} {dict : Dict α} {key : String} {share : α → List β}
    (removed : ∀ previous, dict.get? key = some previous → share previous = []) :
    (dict.erase key).values.flatMap share = dict.values.flatMap share := by
  have empty : ∀ entry ∈ dict.entries, entry.1 = key → share entry.2 = [] := by
    intro entry member same
    exact removed entry.2 (get?_eq_some_iff.2 (same ▸ member))
  simp only [values, erase, filter]
  generalize dict.entries = entries at empty
  induction entries with
  | nil => rfl
  | cons head rest ih =>
    have later := ih fun entry member => empty entry (List.mem_cons_of_mem _ member)
    by_cases same : head.1 = key
    · have gone := empty head (List.mem_cons_self ..) same
      rw [List.filter_cons_of_neg (by simpa using same), later]
      simp [gone]
    · rw [List.filter_cons_of_pos (by simpa using same), List.map_cons, List.map_cons,
        List.flatMap_cons, List.flatMap_cons, later]

/-- The keys equal to a given one: at most one, since keys are distinct. -/
theorem filter_keys (dict : Dict α) (key : String) :
    dict.keys.filter (· == key) = if dict.contains key then [key] else [] := by
  have sorted : (dict.keys.filter (· == key)).Pairwise (· < ·) := (keys_sorted dict).filter _
  have present : dict.contains key = true ↔ key ∈ dict.keys := contains_iff.trans mem_keys_iff.symm
  split
  · rename_i found
    apply eq_of_sorted_texts sorted (List.pairwise_singleton _ _)
    intro text
    simp only [List.mem_filter, beq_iff_eq, List.mem_singleton, and_iff_right_iff_imp]
    rintro rfl
    exact present.1 found
  · rename_i missing
    rw [List.filter_eq_nil_iff]
    intro text member same
    rw [beq_iff_eq] at same
    exact missing (present.2 (same ▸ member))

end SymbolCache.Dict

namespace SymbolCache.TextSet

theorem toList_sorted (set : TextSet) : set.toList.Pairwise (· < ·) := Dict.keys_sorted set

theorem mem_toList_union {set : TextSet} {texts : List String} {text : String} :
    text ∈ (set.union texts).toList ↔ text ∈ set.toList ∨ text ∈ texts := by
  simp only [toList, Dict.mem_keys_iff, union, Dict.get?_insertAll]
  cases found : ((texts.map fun text => (text, ())).filter fun entry => entry.1 == text).getLast? with
  | none =>
    rw [List.getLast?_eq_none_iff, List.filter_eq_nil_iff] at found
    have absent : text ∉ texts := by
      intro member
      exact found (text, ()) (List.mem_map.2 ⟨text, member, rfl⟩) (by simp)
    simp [absent]
  | some entry =>
    have member := List.mem_filter.1 (List.mem_of_getLast? found)
    obtain ⟨original, inside, rfl⟩ := List.mem_map.1 member.1
    have equal : original = text := by simpa using member.2
    simp [equal ▸ inside]

theorem mem_toList_ofList {texts : List String} {text : String} :
    text ∈ (ofList texts).toList ↔ text ∈ texts := by
  have nothing : text ∉ toList Dict.empty := by simp [toList, Dict.keys, Dict.empty]
  exact (@mem_toList_union Dict.empty texts text).trans (or_iff_right nothing)

end SymbolCache.TextSet
