import Mathlib.Data.List.Forall2
import SymbolCache.Symbols.Document

/-! What the values of a symbol document say under their keys: the twelve arrays of a container, the objects in them and the
methods of those. The decoders read exactly what is said here. -/

namespace SymbolCache.Json

/-- The entries of a value under these keys, each of which may be absent: in an object none of them stands twice and others
are passed over, in an array they stand in this order. -/
inductive Keyed (keys : List String) : Json → List (String × Json) → Prop where
  | object {entries : List (String × Json)} (distinct : ((entries.filter fun entry => entry.1 ∈ keys).map Prod.fst).Nodup) :
      Keyed keys (.object entries) (entries.filter fun entry => entry.1 ∈ keys)
  | array {items : List Json} (few : items.length ≤ keys.length) : Keyed keys (.array items) (keys.zip items)

/-- The items of the array under a key, one after the other; without the key there are none. -/
inductive Items {α : Type} (tells : Nat → Json → α → Prop) (fields : Fields) (key : String) : List α → Prop where
  | absent (missing : fields.entries.lookup key = none) : Items tells fields key []
  | array {levels : Nat} {items : List Json} {values : List α} (inside : fields.levels = levels + 1)
      (found : fields.entries.lookup key = some (.array items)) (each : List.Forall₂ (tells levels) items values) :
      Items tells fields key values

end SymbolCache.Json

namespace SymbolCache.Symbols
open Json (Decoder Fields Keyed Items)

structure TellsMethod (fields : Fields) (method : Method) : Prop where
  name : fields.orDefault "Name" Decoder.text "" = some method.name
  parameters : fields.orDefault "Parameters" (Decoder.list parameter) [] = some method.parameters
  returnType : fields.optional "ReturnTypeDefinition" Decoder.value = some method.returnType
  isLocal : fields.orDefault "IsLocal" Decoder.bool false = some method.isLocal

inductive IsMethod : Nat → Json → Method → Prop where
  | keyed {levels : Nat} {json : Json} {known : List (String × Json)} {method : Method}
      (keys : Keyed ["Name", "Parameters", "ReturnTypeDefinition", "IsLocal"] json known)
      (tells : TellsMethod ⟨levels, known⟩ method) : IsMethod (levels + 1) json method

structure TellsEntry (fields : Fields) (entry : Entry) : Prop where
  id : fields.optional "Id" Decoder.int64 = some entry.id
  name : fields.optional "Name" Decoder.text = some entry.name
  target : fields.optional "TargetObject" Decoder.text = some entry.target
  properties : fields.orDefault "Properties" (Decoder.list property) [] = some entry.properties
  names : fields.orDefault "Fields" (Decoder.list fieldName) [] = some entry.fields
  methods : Items IsMethod fields "Methods" entry.methods

/-- An object as it stands in an array of its kind. -/
inductive IsEntry : Nat → Json → Entry → Prop where
  | keyed {levels : Nat} {json : Json} {known : List (String × Json)} {entry : Entry}
      (keys : Keyed ["Id", "Name", "TargetObject", "Properties", "Fields", "Methods"] json known)
      (tells : TellsEntry ⟨levels, known⟩ entry) : IsEntry (levels + 1) json entry

/-- An object of a document and the kind of the array in which it stands. -/
structure Listed where
  kind : ObjectKind
  entry : Entry

def KeyedContainer (json : Json) (known : List (String × Json)) : Prop :=
  Keyed ["Tables", "TableExtensions", "Pages", "PageExtensions", "Reports", "ReportExtensions", "Codeunits", "Queries",
    "XmlPorts", "EnumTypes", "EnumExtensionTypes", "Interfaces", "Namespaces"] json known

/-- The objects in the arrays of these names, array by array, each of the kind beside the name. -/
inductive Arrays (fields : Fields) : List (String × ObjectKind) → List Listed → Prop where
  | nil : Arrays fields [] []
  | cons {name : String} {kind : ObjectKind} {names : List (String × ObjectKind)} {entries : List Entry} {others : List Listed}
      (first : Items IsEntry fields name entries) (rest : Arrays fields names others) :
      Arrays fields ((name, kind) :: names) (entries.map (.mk kind) ++ others)

/-- The objects in the arrays of a container. -/
def OwnObjects (fields : Fields) (own : List Listed) : Prop :=
  Arrays fields [("Tables", .table), ("TableExtensions", .tableExtension), ("Pages", .page), ("PageExtensions", .pageExtension),
    ("Reports", .report), ("ReportExtensions", .reportExtension), ("Codeunits", .codeunit), ("Queries", .query),
    ("XmlPorts", .xmlPort), ("EnumTypes", .enumeration), ("EnumExtensionTypes", .enumExtension),
    ("Interfaces", .interface)] own

section Decoding
variable {α β : Type}

theorem mapM_eq_some_iff {read : α → Option β} {items : List α} {values : List β} :
    items.mapM read = some values ↔ List.Forall₂ (fun item value => read item = some value) items values := by
  induction items generalizing values with
  | nil => simp [eq_comm]
  | cons item items ih =>
    simp only [List.mapM_cons, Option.bind_eq_bind, Option.bind_eq_some_iff, ih, List.forall₂_cons_left_iff, Option.pure_def,
      Option.some.injEq]
    constructor
    · rintro ⟨value, first, values, rest, rfl⟩
      exact ⟨value, values, first, rest, rfl⟩
    · rintro ⟨value, values, first, rest, rfl⟩
      exact ⟨value, first, values, rest, rfl⟩

theorem positional?_iff {keys : List String} {items : List Json} {known : List (String × Json)} :
    Fields.positional? (defaulted keys) items = some known ↔ items.length ≤ keys.length ∧ keys.zip items = known := by
  induction keys generalizing items known with
  | nil => cases items <;> simp [defaulted, Fields.positional?]
  | cons key keys ih =>
    cases items with
    | nil => simp [defaulted, Fields.positional?]
    | cons item items =>
      rw [defaulted, List.map_cons, Fields.positional?, ← defaulted, Option.map_eq_some_iff]
      simp only [ih, List.length_cons, Nat.add_le_add_iff_right, List.zip_cons_cons, and_assoc, exists_and_left, exists_eq_left']

theorem known?_iff {keys : List String} {entries known : List (String × Json)} :
    Fields.known? (defaulted keys) entries = some known ↔
      ((entries.filter fun entry => entry.1 ∈ keys).map Prod.fst).Nodup ∧ (entries.filter fun entry => entry.1 ∈ keys) = known := by
  have same : (fun entry : String × Json => (defaulted keys).any fun field => field.name == entry.1) =
      fun entry => decide (entry.1 ∈ keys) := by
    funext entry
    rw [Bool.eq_iff_iff]
    simp [defaulted]
  rw [Fields.known?]
  dsimp only
  rw [same, Option.ite_none_right_eq_some, Option.some.injEq]

theorem record_iff {keys : List String} {build : Fields → Option α} {levels : Nat} {json : Json} {value : α} :
    Decoder.record (defaulted keys) build levels json = some value ↔
      ∃ inner known, levels = inner + 1 ∧ Keyed keys json known ∧ build ⟨inner, known⟩ = some value := by
  constructor
  · intro reads
    unfold Decoder.record at reads
    split at reads
    · obtain ⟨known, found, built⟩ := Option.bind_eq_some_iff.1 reads
      obtain ⟨distinct, rfl⟩ := known?_iff.1 found
      exact ⟨_, _, rfl, .object distinct, built⟩
    · obtain ⟨known, found, built⟩ := Option.bind_eq_some_iff.1 reads
      obtain ⟨few, rfl⟩ := positional?_iff.1 found
      exact ⟨_, _, rfl, .array few, built⟩
    · cases reads
  · rintro ⟨inner, known, rfl, keyed, built⟩
    cases keyed with
    | object distinct => exact Option.bind_eq_some_iff.2 ⟨_, known?_iff.2 ⟨distinct, rfl⟩, built⟩
    | array few => exact Option.bind_eq_some_iff.2 ⟨_, positional?_iff.2 ⟨few, rfl⟩, built⟩

theorem containerFields_iff {json : Json} {known : List (String × Json)} :
    containerFields json = some known ↔ KeyedContainer json known := by
  constructor
  · intro reads
    unfold containerFields at reads
    dsimp only at reads
    split at reads
    · obtain ⟨distinct, rfl⟩ := known?_iff.1 reads
      exact .object distinct
    · obtain ⟨few, rfl⟩ := positional?_iff.1 reads
      exact .array few
    · cases reads
  · intro keyed
    cases keyed with
    | object distinct => exact known?_iff.2 ⟨distinct, rfl⟩
    | array few => exact positional?_iff.2 ⟨few, rfl⟩

/-- An array that may be absent is read item by item. -/
theorem items_iff {read : Decoder α} {tells : Nat → Json → α → Prop}
    (item : ∀ levels json value, read levels json = some value ↔ tells levels json value) {fields : Fields} {key : String}
    {values : List α} : fields.orDefault key (Decoder.list read) [] = some values ↔ Items tells fields key values := by
  constructor
  · intro reads
    unfold Fields.orDefault at reads
    split at reads
    · rename_i listed found
      unfold Decoder.list at reads
      split at reads
      · rename_i inside
        exact .array inside found ((mapM_eq_some_iff.1 reads).imp fun _ _ => (item _ _ _).1)
      · cases reads
    · rename_i missing
      cases reads
      exact .absent missing
  · rintro (missing | ⟨inside, found, each⟩)
    · rw [Fields.orDefault, missing]
    · rw [Fields.orDefault, found]
      dsimp only
      rw [inside, Decoder.list]
      exact mapM_eq_some_iff.2 (each.imp fun _ _ => (item _ _ _).2)

theorem method_iff (levels : Nat) (json : Json) (found : Method) :
    method levels json = some found ↔ IsMethod levels json found := by
  rw [method, record_iff]
  simp only [Option.bind_eq_bind, Option.bind_eq_some_iff, Option.pure_def, Option.some.injEq]
  constructor
  · rintro ⟨inner, known, rfl, keyed, name, first, parameters, second, returnType, third, isLocal, fourth, rfl⟩
    exact .keyed keyed ⟨first, second, third, fourth⟩
  · rintro ⟨keyed, tells⟩
    exact ⟨_, _, rfl, keyed, _, tells.name, _, tells.parameters, _, tells.returnType, _, tells.isLocal, rfl⟩

theorem entry_iff (levels : Nat) (json : Json) (found : Entry) : entry levels json = some found ↔ IsEntry levels json found := by
  rw [entry, record_iff]
  simp only [Option.bind_eq_bind, Option.bind_eq_some_iff, Option.pure_def, Option.some.injEq]
  constructor
  · rintro ⟨inner, known, rfl, keyed, id, first, name, second, target, third, properties, fourth, names, fifth, methods, sixth,
      rfl⟩
    exact .keyed keyed ⟨first, second, third, fourth, fifth, (items_iff method_iff).1 sixth⟩
  · rintro ⟨keyed, tells⟩
    exact ⟨_, _, rfl, keyed, _, tells.id, _, tells.name, _, tells.target, _, tells.properties, _, tells.names, _,
      (items_iff method_iff).2 tells.methods, rfl⟩

end Decoding

end SymbolCache.Symbols
