import SymbolCache.Files.Path
import SymbolCache.Object.Record

/-!
The cache of objects and procedures in memory, with a second index that leads from a kind and an id to
the name of an object.
-/

namespace SymbolCache

/-- Names by kind and id, under distinct keys. -/
structure IdIndex where
  entries : List ((ObjectKind × Int) × String)
  distinct : entries.Pairwise fun a b => a.1 ≠ b.1

namespace IdIndex

instance : Repr IdIndex where
  reprPrec index := reprPrec index.entries

def empty : IdIndex := ⟨[], .nil⟩

def get? (index : IdIndex) (kind : ObjectKind) (id : Int) : Option String := index.entries.lookup (kind, id)

def insert (index : IdIndex) (kind : ObjectKind) (id : Int) (name : String) : IdIndex where
  entries := ((kind, id), name) :: index.entries.filter fun entry => entry.1 != (kind, id)
  distinct := by
    refine List.pairwise_cons.2 ⟨fun entry inside => ?_, index.distinct.filter _⟩
    exact (bne_iff_ne.1 (List.mem_filter.1 inside).2).symm

/-- Takes in an object, if it has an id. -/
def add (index : IdIndex) (record : ObjectRecord) : IdIndex :=
  match record.id with
  | some id => index.insert record.kind id record.name
  | none => index

/-- Of several objects with one kind and id the last one stays. -/
def ofRecords (records : List ObjectRecord) : IdIndex := records.foldl add .empty

@[simp] theorem get?_empty (kind : ObjectKind) (id : Int) : empty.get? kind id = none := rfl

private theorem lookup_filter_of_ne {key other : ObjectKind × Int} (apart : other ≠ key)
    (entries : List ((ObjectKind × Int) × String)) :
    (entries.filter fun entry => entry.1 != key).lookup other = entries.lookup other := by
  induction entries with
  | nil => rfl
  | cons entry rest ih =>
    by_cases dropped : entry.1 = key
    · have missed : (other == entry.1) = false := beq_eq_false_iff_ne.2 (dropped ▸ apart)
      rw [List.filter_cons_of_neg (by simp [dropped]), ih, List.lookup_cons, missed]
    · rw [List.filter_cons_of_pos (by simpa using dropped), List.lookup_cons, List.lookup_cons, ih]

theorem get?_insert (index : IdIndex) (kind other : ObjectKind) (id number : Int) (name : String) :
    (index.insert kind id name).get? other number =
      if (other, number) = (kind, id) then some name else index.get? other number := by
  rw [get?, insert, List.lookup_cons]
  by_cases here : (other, number) = (kind, id)
  · rw [beq_iff_eq.2 here, if_pos here]
  · rw [beq_eq_false_iff_ne.2 here, if_neg here]
    exact lookup_filter_of_ne here index.entries

end IdIndex

structure Store where
  /-- Directory of the saved copies. -/
  dir : Path
  objects : Dict ObjectRecord
  ids : IdIndex
  procedures : Dict (List ProcedureRecord)
  deriving Repr

namespace Store

def new (dir : Path) : Store := ⟨dir, .empty, .empty, .empty⟩

def replaceObjects (store : Store) (objects : Dict ObjectRecord) : Store :=
  { store with objects, ids := .ofRecords objects.values }

/-- Assigns procedure lists key by key; other keys keep theirs. -/
def mergeProcedures (store : Store) (procedures : List (String × List ProcedureRecord)) : Store :=
  { store with procedures := store.procedures.insertAll procedures }

def setProcedures (store : Store) (kind : ObjectKind) (name : String)
    (procedures : List ProcedureRecord) : Store :=
  store.mergeProcedures [(procedureKey kind name, procedures)]

def object? (store : Store) (name : String) : Option ObjectRecord := store.objects.get? name

def objectId? (store : Store) (name : String) : Option Int :=
  (store.object? name).bind ObjectRecord.id

def byId? (store : Store) (kind : ObjectKind) (id : Int) : Option ObjectRecord :=
  (store.ids.get? kind id).bind store.object?

def proceduresOf (store : Store) (kind : ObjectKind) (name : String) : List ProcedureRecord :=
  (store.procedures.get? (procedureKey kind name)).getD []

/-- Number of procedures of all objects. -/
def procedureCount (store : Store) : Nat :=
  store.procedures.values.foldl (fun count procedures => count + procedures.length) 0

def cleared (store : Store) : Store :=
  { store with objects := .empty, ids := .empty, procedures := .empty }

end Store

end SymbolCache
