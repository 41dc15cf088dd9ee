import SymbolCache.Object.Kind
import SymbolCache.Lexical.Block

/-!
Legacy objects: an `OBJECT` header and a body of named sections between braces. Records keep their
text as written, so that an object can be written back without change.
-/

namespace SymbolCache.Legacy

structure Property where
  name : String
  value : String
  deriving DecidableEq, Repr

structure Trigger where
  name : String
  code : String
  deriving DecidableEq, Repr

structure Entry where
  id : Option Int
  properties : List Property
  triggers : List Trigger
  /-- The record as written, from brace to brace. -/
  verbatim : String
  leading : String
  deriving DecidableEq, Repr

structure Field extends Entry where
  name : String
  dataType : String
  deriving DecidableEq, Repr

structure Control extends Entry where
  indentation : Option Nat
  type : String
  sourceExpr : Option String
  deriving DecidableEq, Repr

structure Action extends Entry where
  level : Option Nat
  type : String
  deriving DecidableEq, Repr

structure Section where
  keyword : String
  inner : String
  deriving DecidableEq, Repr

inductive SectionKind where
  | objectProperties
  | properties
  | fields
  | controls
  | code
  | other
  deriving DecidableEq, Repr

def Section.kind (part : Section) : SectionKind :=
  match String.ofList (part.keyword.toList.map Char.toUpper) with
  | "OBJECT-PROPERTIES" => .objectProperties
  | "PROPERTIES" => .properties
  | "FIELDS" => .fields
  | "CONTROLS" => .controls
  | "CODE" => .code
  | _ => .other

structure Object where
  objectType : String
  id : Int
  name : String
  objectProperties : List Property
  properties : List Property
  triggers : List Trigger
  fields : List Field
  controls : List Control
  actions : List Action
  /-- The code section without its documentation. -/
  code : Option String
  /-- What stands between the braces of the closing `BEGIN { } END.` -/
  documentation : Option String
  /-- Sections whose braces never balance. -/
  malformedSections : List String
  sections : List Section
  /-- The text from the first section on that could not be read. -/
  unreadTail : Option String
  deriving DecidableEq, Repr

def Property.isNamed (property : Property) (name : String) : Bool :=
  Text.sameWord property.name.toList name.toList

def propertyValue? (properties : List Property) (name : String) : Option String :=
  (properties.find? fun property => property.isNamed name).map Property.value

namespace Object

def kind? (object : Object) : Option ObjectKind := ObjectKind.parse? object.objectType.toList

def property? (object : Object) (name : String) : Option String :=
  propertyValue? object.properties name

end Object

structure IdRange where
  first : Int
  last : Int
  deriving DecidableEq, Repr

namespace IdRange

def between (a b : Int) : IdRange := ⟨min a b, max a b⟩

def contains (range : IdRange) (id : Int) : Bool := range.first ≤ id && id ≤ range.last

def render (range : IdRange) : String := toString range.first ++ ".." ++ toString range.last

structure Invalid where
  text : String
  deriving DecidableEq, Repr

def Invalid.message (invalid : Invalid) : String :=
  "invalid id range '" ++ invalid.text ++ "', expected FROM..TO, FROM-TO or a single id"

def cutAtDots? : List Char → Option (List Char × List Char)
  | '.' :: '.' :: rest => some ([], rest)
  | c :: rest => (cutAtDots? rest).map fun (before, after) => (c :: before, after)
  | [] => none

/-- Reads `FROM..TO`, `FROM-TO` or a single id. -/
def parse (raw : List Char) : Except Invalid IdRange :=
  let text := Text.trim raw
  let (first, last) := match cutAtDots? text, Text.cutAt? '-' text with
    | some (a, b), _ => (Text.trim a, Text.trim b)
    | none, some (a, b) => (Text.trim a, Text.trim b)
    | none, none => (text, text)
  match Text.readInt64? first, Text.readInt64? last with
  | some a, some b => .ok (between a b)
  | _, _ => .error ⟨String.ofList text⟩

end IdRange

/-- Whether a record with this id stays; one without a number always does. -/
def keeps (ranges : List IdRange) (id : Option Int) : Bool :=
  match id with
  | none => true
  | some id => ranges.any fun range => range.contains id

def Object.filterById (object : Object) (ranges : List IdRange) : Object :=
  { object with
    fields := object.fields.filter fun field => keeps ranges field.id
    controls := object.controls.filter fun control => keeps ranges control.id
    actions := object.actions.filter fun action => keeps ranges action.id }

end SymbolCache.Legacy
