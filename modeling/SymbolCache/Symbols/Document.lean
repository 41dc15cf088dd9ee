import SymbolCache.Object.Record
import SymbolCache.Json.Reader
import SymbolCache.Json.Printer
import SymbolCache.Source.Name
import SymbolCache.Text.Utf8

/-!
Symbol documents of compiled packages: JSON containers with one array per kind of object and with
nested namespaces.
-/

namespace SymbolCache.Symbols

structure Property where
  name : String
  value : Json

structure Parameter where
  name : String
  isVar : Bool
  type : Option Json

structure Method where
  name : String
  parameters : List Parameter
  returnType : Option Json
  isLocal : Bool

structure Entry where
  id : Option Int
  name : Option String
  target : Option String
  properties : List Property
  fields : List String
  methods : List Method

structure Group where
  kind : ObjectKind
  entries : List Entry

inductive Container where
  | mk (groups : List Group) (namespaces : List Container)

/-- The arrays of a container, in the order in which they are listed. -/
def groupNames : List (String × ObjectKind) :=
  [("Tables", .table), ("TableExtensions", .tableExtension), ("Pages", .page),
    ("PageExtensions", .pageExtension), ("Reports", .report),
    ("ReportExtensions", .reportExtension), ("Codeunits", .codeunit), ("Queries", .query),
    ("XmlPorts", .xmlPort), ("EnumTypes", .enumeration), ("EnumExtensionTypes", .enumExtension),
    ("Interfaces", .interface)]

open Json in
def defaulted (names : List String) : List Field := names.map fun name => ⟨name, true⟩

open Json.Decoder in
def property : Json.Decoder Property :=
  record (defaulted ["Name", "Value"]) fun fields => do
    let name ← fields.orDefault "Name" text ""
    let value ← fields.orDefault "Value" value .null
    return ⟨name, value⟩

open Json.Decoder in
def parameter : Json.Decoder Parameter :=
  record (defaulted ["Name", "IsVar", "TypeDefinition"]) fun fields => do
    let name ← fields.orDefault "Name" text ""
    let isVar ← fields.orDefault "IsVar" bool false
    let type ← fields.optional "TypeDefinition" value
    return ⟨name, isVar, type⟩

open Json.Decoder in
def method : Json.Decoder Method :=
  record (defaulted ["Name", "Parameters", "ReturnTypeDefinition", "IsLocal"]) fun fields => do
    let name ← fields.orDefault "Name" text ""
    let parameters ← fields.orDefault "Parameters" (list parameter) []
    let returnType ← fields.optional "ReturnTypeDefinition" value
    let isLocal ← fields.orDefault "IsLocal" bool false
    return ⟨name, parameters, returnType, isLocal⟩

open Json.Decoder in
def fieldName : Json.Decoder String :=
  record (defaulted ["Name"]) fun fields => fields.orDefault "Name" text ""

open Json.Decoder in
def entry : Json.Decoder Entry :=
  record (defaulted ["Id", "Name", "TargetObject", "Properties", "Fields", "Methods"])
    fun fields => do
      let id ← fields.optional "Id" int64
      let name ← fields.optional "Name" text
      let target ← fields.optional "TargetObject" text
      let properties ← fields.orDefault "Properties" (list property) []
      let names ← fields.orDefault "Fields" (list fieldName) []
      let methods ← fields.orDefault "Methods" (list method) []
      return ⟨id, name, target, properties, names, methods⟩

/-- The known entries of a container. -/
def containerFields (json : Json) : Option (List (String × Json)) :=
  let fields := defaulted (groupNames.map Prod.fst ++ ["Namespaces"])
  match json with
  | .object entries => Json.Fields.known? fields entries
  | .array items => Json.Fields.positional? fields items
  | _ => none

/-- Decodes a container whose namespaces are read in a given way. -/
def containerWith (namespaces : Json → Option (List Container)) : Json.Decoder Container :=
  fun levels json => do
    let fields : Json.Fields := ⟨levels, ← containerFields json⟩
    let groups ← groupNames.mapM fun (name, kind) => do
      let entries ← fields.orDefault name (Json.Decoder.list entry) []
      return (⟨kind, entries⟩ : Group)
    let inner ← fields.orDefault "Namespaces" (fun _ => namespaces) []
    return ⟨groups, inner⟩

def container : Json.Decoder Container
  | 0, _ => none
  | 1, json => containerWith (fun _ => none) 0 json
  | inner + 2, json =>
    containerWith
      (fun listed => match listed with
        | .array items => items.mapM (container inner)
        | _ => none)
      (inner + 1) json

def typeText? (definition : Json) : Option String := do
  let name ← (← definition.get? "Name").asText?
  let subtype := ((definition.get? "Subtype").bind (·.get? "Name")).bind Json.asText?
  let target := match subtype with
    | some text => " " ++ String.ofList (Source.quoteName text.toList)
    | none => ""
  let temporary := (definition.get? "Temporary").bind Json.asBool? == some true
  return name ++ target ++ (if temporary then " temporary" else "")

def Parameter.render (parameter : Parameter) : String :=
  let type := (parameter.type.bind typeText?).getD ""
  let text := (if parameter.isVar then "var " else "").toList ++
    Source.quoteName parameter.name.toList ++ ": ".toList ++ type.toList
  String.ofList (Text.dropEndWhile (fun c => c == ':' || c == ' ') text)

def Method.record (method : Method) : ProcedureRecord :=
  ⟨method.name, method.parameters.map Parameter.render, method.returnType.bind typeText?⟩

def metaKey? (name : String) : Option String :=
  if name == "Caption" then some "caption"
  else if name == "SourceTable" then some "sourceTable"
  else none

def Property.metaText (property : Property) : String :=
  match property.value with
  | .text value => value
  | other => other.compact

def Entry.record (entry : Entry) (kind : ObjectKind) (name : String) : ObjectRecord :=
  let base := (ObjectRecord.ofDeclaration kind entry.id name).withMeta? "extends"
    (entry.target.map .text)
  let withProperties := entry.properties.foldl
    (fun record property => match metaKey? property.name with
      | some key => record.withMeta key (.text property.metaText)
      | none => record)
    base
  if entry.fields.isEmpty then withProperties
  else withProperties.withMeta "fields" (.ofTexts entry.fields)

/-- Adds one object and its procedures. Objects without a name are passed over. -/
def addEntry (kind : ObjectKind) (table : SymbolTable) (entry : Entry) : SymbolTable :=
  match entry.name with
  | none | some "" => table
  | some name =>
    let added := table.addObject (entry.record kind name)
    if entry.methods.isEmpty then added
    else
      let exported := (entry.methods.filter fun method => !method.isLocal).map Method.record
      { added with procedures := added.procedures.insert (procedureKey kind name) exported }

def addGroup (table : SymbolTable) (group : Group) : SymbolTable :=
  group.entries.foldl (addEntry group.kind) table

mutual

/-- Adds all objects of a container: its own by kind, then those of its namespaces in order. -/
def addContainer (table : SymbolTable) : Container → SymbolTable
  | .mk groups namespaces => addContainers (groups.foldl addGroup table) namespaces

def addContainers (table : SymbolTable) : List Container → SymbolTable
  | [] => table
  | first :: rest => addContainers (addContainer table first) rest

end

def read? (text : List Char) : Option SymbolTable := do
  let json ← Json.parse? (Text.dropByteOrderMarks text)
  let root ← Json.decode? container json
  let table := addContainer .empty root
  if table.objects.isEmpty then none else return table

end SymbolCache.Symbols
