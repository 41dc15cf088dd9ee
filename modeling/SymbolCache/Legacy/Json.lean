import SymbolCache.Json.Value
import SymbolCache.Legacy.Object

/-!
The JSON form of legacy objects.
-/

namespace SymbolCache.Json

def ofLegacyProperties (properties : List Legacy.Property) : Json :=
  .array (properties.map fun property =>
    .object [("name", .text property.name), ("value", .text property.value)])

def ofLegacyTriggers (triggers : List Legacy.Trigger) : Json :=
  .array (triggers.map fun trigger =>
    .object [("name", .text trigger.name), ("code", .text trigger.code)])

/-- A number that may be absent. -/
def ofNat? (number : Option Nat) : Json := ofOption (fun n => .int n) number

def ofLegacyField (field : Legacy.Field) : Json :=
  .object [("id", ofOption .int field.id), ("name", .text field.name),
    ("dataType", .text field.dataType), ("properties", ofLegacyProperties field.properties),
    ("triggers", ofLegacyTriggers field.triggers), ("originalText", .text field.verbatim)]

def ofLegacyControl (control : Legacy.Control) : Json :=
  .object [("id", ofOption .int control.id), ("indentation", ofNat? control.indentation),
    ("type", .text control.type), ("properties", ofLegacyProperties control.properties),
    ("triggers", ofLegacyTriggers control.triggers),
    ("sourceExpr", ofOption .text control.sourceExpr), ("originalText", .text control.verbatim)]

def ofLegacyAction (action : Legacy.Action) : Json :=
  .object [("id", ofOption .int action.id), ("level", ofNat? action.level),
    ("type", .text action.type), ("properties", ofLegacyProperties action.properties),
    ("triggers", ofLegacyTriggers action.triggers), ("originalText", .text action.verbatim)]

/-- An object without the text of its sections. -/
def ofLegacyObject (object : Legacy.Object) : Json :=
  .object [("objectType", .text object.objectType), ("id", .int object.id),
    ("name", .text object.name), ("objectProperties", ofLegacyProperties object.objectProperties),
    ("properties", ofLegacyProperties object.properties),
    ("triggers", ofLegacyTriggers object.triggers),
    ("fields", .array (object.fields.map ofLegacyField)),
    ("controls", .array (object.controls.map ofLegacyControl)),
    ("actions", .array (object.actions.map ofLegacyAction)),
    ("code", ofOption .text object.code),
    ("documentation", ofOption .text object.documentation),
    ("malformedSections", ofTexts object.malformedSections)]

end SymbolCache.Json
