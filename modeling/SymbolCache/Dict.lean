/-!
Finite maps with text keys, kept in the order of their keys, and sets of texts.
-/

namespace SymbolCache

/-- A finite map as its entries in strictly increasing order of keys. -/
structure Dict (α : Type) where
  entries : List (String × α)
  sorted : entries.Pairwise fun a b => a.1 < b.1
  deriving DecidableEq

namespace Dict

variable {α β : Type}

instance [Repr α] : Repr (Dict α) where
  reprPrec dict := reprPrec dict.entries

def empty : Dict α := ⟨[], .nil⟩

instance : Inhabited (Dict α) := ⟨empty⟩

def isEmpty (dict : Dict α) : Bool := dict.entries.isEmpty

def size (dict : Dict α) : Nat := dict.entries.length

def keys (dict : Dict α) : List String := dict.entries.map Prod.fst

def values (dict : Dict α) : List α := dict.entries.map Prod.snd

def get? (dict : Dict α) (key : String) : Option α := dict.entries.lookup key

def contains (dict : Dict α) (key : String) : Bool := (dict.get? key).isSome

/-- Puts an entry in its place, replacing the one with the same key. -/
def insertEntry (key : String) (value : α) : List (String × α) → List (String × α)
  | [] => [(key, value)]
  | (k, v) :: rest =>
    if key < k then (key, value) :: (k, v) :: rest
    else if key = k then (key, value) :: rest
    else (k, v) :: insertEntry key value rest

theorem mem_insertEntry {key : String} {value : α} {entry : String × α}
    {entries : List (String × α)} (member : entry ∈ insertEntry key value entries) :
    entry = (key, value) ∨ entry ∈ entries := by
  induction entries with
  | nil => exact .inl (by simpa [insertEntry] using member)
  | cons head rest ih =>
    obtain ⟨k, v⟩ := head
    unfold insertEntry at member
    split at member
    · rcases List.mem_cons.1 member with same | older
      · exact .inl same
      · exact .inr older
    · split at member
      · rcases List.mem_cons.1 member with same | older
        · exact .inl same
        · exact .inr (List.mem_cons_of_mem _ older)
      · rcases List.mem_cons.1 member with same | older
        · exact .inr (by simp [same])
        · rcases ih older with same | kept
          · exact .inl same
          · exact .inr (List.mem_cons_of_mem _ kept)

theorem lt_of_not_lt_of_ne {a b : String} (order : ¬ a < b) (distinct : a ≠ b) : b < a := by
  rcases Decidable.em (b < a) with less | notLess
  · exact less
  · exact absurd (String.le_antisymm (String.not_lt.1 notLess) (String.not_lt.1 order)) distinct

theorem insertEntry_sorted {key : String} {value : α} {entries : List (String × α)}
    (sorted : entries.Pairwise fun a b => a.1 < b.1) :
    (insertEntry key value entries).Pairwise fun a b => a.1 < b.1 := by
  induction entries with
  | nil => simp [insertEntry]
  | cons head rest ih =>
    obtain ⟨k, v⟩ := head
    obtain ⟨first, others⟩ := List.pairwise_cons.1 sorted
    unfold insertEntry
    split
    · rename_i less
      refine List.pairwise_cons.2 ⟨?_, sorted⟩
      intro entry member
      rcases List.mem_cons.1 member with same | older
      · simpa [same] using less
      · exact String.lt_trans less (first entry older)
    · rename_i notLess
      split
      · rename_i same
        subst same
        exact List.pairwise_cons.2 ⟨first, others⟩
      · rename_i distinct
        refine List.pairwise_cons.2 ⟨?_, ih others⟩
        intro entry member
        rcases mem_insertEntry member with same | older
        · simpa [same] using lt_of_not_lt_of_ne notLess distinct
        · exact first entry older

/-- Assigns a value to a key. -/
def insert (dict : Dict α) (key : String) (value : α) : Dict α :=
  ⟨insertEntry key value dict.entries, insertEntry_sorted dict.sorted⟩

/-- Keeps the entries that pass a test. -/
def filter (p : String → α → Bool) (dict : Dict α) : Dict α :=
  ⟨dict.entries.filter fun entry => p entry.1 entry.2, dict.sorted.filter _⟩

def erase (dict : Dict α) (key : String) : Dict α := dict.filter fun k _ => k != key

/-- Assigns entries one after the other, so that the last of several with one key stays. -/
def insertAll (dict : Dict α) (entries : List (String × α)) : Dict α :=
  entries.foldl (fun acc entry => acc.insert entry.1 entry.2) dict

def ofList (entries : List (String × α)) : Dict α := empty.insertAll entries

/-- Assigns all entries of a second map. -/
def union (dict other : Dict α) : Dict α := dict.insertAll other.entries

theorem map_sorted {entries : List (String × α)} {f : α → β}
    (sorted : entries.Pairwise fun a b => a.1 < b.1) :
    (entries.map fun entry => (entry.1, f entry.2)).Pairwise fun a b => a.1 < b.1 :=
  List.pairwise_map.2 sorted

def map (f : α → β) (dict : Dict α) : Dict β :=
  ⟨dict.entries.map fun entry => (entry.1, f entry.2), map_sorted dict.sorted⟩

def foldl {σ : Type} (f : σ → String → α → σ) (init : σ) (dict : Dict α) : σ :=
  dict.entries.foldl (fun acc entry => f acc entry.1 entry.2) init

end Dict

/-- Sets of texts, as maps to the unit. -/
abbrev TextSet := Dict Unit

namespace TextSet

def ofList (texts : List String) : TextSet := Dict.ofList (texts.map fun text => (text, ()))

def toList (set : TextSet) : List String := set.keys

def union (set : TextSet) (texts : List String) : TextSet :=
  set.insertAll (texts.map fun text => (text, ()))

end TextSet

end SymbolCache
