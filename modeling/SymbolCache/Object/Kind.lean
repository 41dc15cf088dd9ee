import SymbolCache.Text.Basic

/-!
Kinds of application objects.
-/

namespace SymbolCache

inductive ObjectKind where
  | table
  | tableExtension
  | page
  | pageExtension
  | report
  | reportExtension
  | codeunit
  | query
  | xmlPort
  | enumeration
  | enumExtension
  | interface
  deriving DecidableEq, Repr

namespace ObjectKind

def all : List ObjectKind :=
  [.table, .tableExtension, .page, .pageExtension, .report, .reportExtension, .codeunit, .query,
    .xmlPort, .enumeration, .enumExtension, .interface]

def keyword : ObjectKind → String
  | .table => "table"
  | .tableExtension => "tableextension"
  | .page => "page"
  | .pageExtension => "pageextension"
  | .report => "report"
  | .reportExtension => "reportextension"
  | .codeunit => "codeunit"
  | .query => "query"
  | .xmlPort => "xmlport"
  | .enumeration => "enum"
  | .enumExtension => "enumextension"
  | .interface => "interface"

/-- The kind with exactly this keyword. -/
def ofKeyword? (text : String) : Option ObjectKind := all.find? fun kind => kind.keyword == text

theorem ofKeyword?_eq_some_iff {text : String} {kind : ObjectKind} : ofKeyword? text = some kind ↔ text = kind.keyword := by
  constructor
  · intro found
    unfold ofKeyword? at found
    exact (beq_iff_eq.1 (List.find?_some found :)).symm
  · rintro rfl
    cases kind <;> rfl

/-- The kind whose keyword a text is, regardless of ASCII case and of blanks around it. -/
def parse? (text : List Char) : Option ObjectKind :=
  ofKeyword? (String.ofList ((Text.trim text).map Char.toLower))

def isExtension : ObjectKind → Bool
  | .tableExtension | .pageExtension | .reportExtension | .enumExtension => true
  | _ => false

end ObjectKind

end SymbolCache
