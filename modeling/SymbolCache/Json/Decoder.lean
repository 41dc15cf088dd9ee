import SymbolCache.Json.Value

/-!
Decoders from JSON values to typed data. A record may be written as an object, where unknown
entries are ignored and a repeated known one is refused, or as an array of its fields in order.
Arrays and objects that are decoded may be nested only so deep.
-/

namespace SymbolCache.Json

/-- Decodes a value in which so many levels of arrays and objects are still allowed. -/
abbrev Decoder (α : Type) := Nat → Json → Option α

def maxNesting : Nat := 127

namespace Decoder

def value : Decoder Json := plain?

def text : Decoder String := fun _ json => json.asText?

def bool : Decoder Bool := fun _ json => json.asBool?

/-- An integer within bounds; a float is none, whatever its value. -/
def intBetween (low high : Int) : Decoder Int := fun _ json =>
  match json with
  | .int n => if low ≤ n && n ≤ high then some n else none
  | _ => none

def int64 : Decoder Int := intBetween (-Nat.pow 2 63) (Nat.pow 2 63 - 1)

def word64 : Decoder Nat := fun levels json =>
  (intBetween 0 (Nat.pow 2 64 - 1) levels json).map Int.toNat

def float : Decoder Binary64 := fun _ json =>
  match json with
  | .int n => some (.ofInt n)
  | .float x => some x
  | _ => none

def option {α : Type} (decoder : Decoder α) : Decoder (Option α) := fun levels json =>
  match json with
  | .null => some none
  | _ => (decoder levels json).map some

def list {α : Type} (decoder : Decoder α) : Decoder (List α) := fun levels json =>
  match levels, json with
  | inner + 1, .array items => items.mapM (decoder inner)
  | _, _ => none

/-- An object whose keys are data; the last of several equal keys counts. -/
def dict {α : Type} (decoder : Decoder α) : Decoder (Dict α) := fun levels json =>
  match levels, json with
  | inner + 1, .object entries =>
    (entries.mapM fun entry => (decoder inner entry.2).map (Prod.mk entry.1)).map Dict.ofList
  | _, _ => none

def textSet : Decoder TextSet := fun levels json => (list text levels json).map TextSet.ofList

end Decoder

structure Field where
  name : String
  hasDefault : Bool

structure Fields where
  levels : Nat
  entries : List (String × Json)

namespace Fields

/-- The entries with known names; `none` when one of them is repeated. -/
def known? (fields : List Field) (entries : List (String × Json)) : Option (List (String × Json)) :=
  let known := entries.filter fun (key, _) => fields.any fun field => field.name == key
  if (known.map Prod.fst).Nodup then some known else none

/-- Names the items of an array by position; `none` when there are too many, or too few to reach
the fields with default values. -/
def positional? : List Field → List Json → Option (List (String × Json))
  | [], [] => some []
  | [], _ :: _ => none
  | fields, [] => if fields.all Field.hasDefault then some [] else none
  | field :: fields, item :: items => (positional? fields items).map ((field.name, item) :: ·)

def required {α : Type} (fields : Fields) (name : String) (decoder : Decoder α) : Option α :=
  match fields.entries.lookup name with
  | some item => decoder fields.levels item
  | none => none

/-- The entry of a field that may be absent or null. -/
def optional {α : Type} (fields : Fields) (name : String) (decoder : Decoder α) :
    Option (Option α) :=
  match fields.entries.lookup name with
  | some item => Decoder.option decoder fields.levels item
  | none => some none

def orDefault {α : Type} (fields : Fields) (name : String) (decoder : Decoder α) (absent : α) :
    Option α :=
  match fields.entries.lookup name with
  | some item => decoder fields.levels item
  | none => some absent

end Fields

def Decoder.record {α : Type} (fields : List Field) (build : Fields → Option α) : Decoder α :=
  fun levels json =>
    match levels, json with
    | inner + 1, .object entries =>
      (Fields.known? fields entries).bind fun known => build ⟨inner, known⟩
    | inner + 1, .array items =>
      (Fields.positional? fields items).bind fun known => build ⟨inner, known⟩
    | _, _ => none

def decode? {α : Type} (decoder : Decoder α) (json : Json) : Option α := decoder maxNesting json

end SymbolCache.Json
