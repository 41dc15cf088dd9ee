import SymbolCache.Text.Basic

/-!
Lexical states of brace-delimited source. A dialect says which comments and strings exist; a scan
assigns to every character of a text the state it belongs to.
-/

namespace SymbolCache.Lexical

structure Dialect where
  lineComments : Bool
  slashStarComments : Bool
  /-- Braces enclose comments instead of blocks. -/
  braceComments : Bool
  quotes : List Char
  deriving DecidableEq, Repr

namespace Dialect

def modern : Dialect := ⟨true, true, false, ['\'', '"']⟩

/-- Code of legacy objects, where braces enclose comments. -/
def legacyCode : Dialect := ⟨true, false, true, ['\'']⟩

/-- Sections of legacy objects, where only braces count. -/
def outline : Dialect := ⟨false, false, false, []⟩

end Dialect

inductive State where
  | normal
  | lineComment
  | blockComment
  | string (quote : Char)
  deriving DecidableEq, Repr

/-- Where a scan stands between two characters. Inside a block comment it remembers that the next
character still completes the opening or the closing mark. -/
inductive Phase where
  | normal
  | lineComment
  | blockComment
  | opening
  | closing
  | string (quote : Char)
  deriving DecidableEq, Repr

def step (dialect : Dialect) (phase : Phase) (c : Char) (next : Option Char) : State × Phase :=
  match phase with
  | .normal =>
    if dialect.lineComments && c == '/' && next == some '/' then (.lineComment, .lineComment)
    else if dialect.slashStarComments && c == '/' && next == some '*' then (.blockComment, .opening)
    else if dialect.braceComments && c == '{' then (.blockComment, .blockComment)
    else if dialect.quotes.contains c then (.string c, .string c)
    else (.normal, .normal)
  | .lineComment => (.lineComment, if c == '\n' then .normal else .lineComment)
  | .blockComment =>
    if dialect.braceComments && c == '}' then (.blockComment, .normal)
    else if dialect.slashStarComments && c == '*' && next == some '/' then (.blockComment, .closing)
    else (.blockComment, .blockComment)
  | .opening => (.blockComment, .blockComment)
  | .closing => (.blockComment, .normal)
  | .string quote => (.string quote, if c == quote then .normal else .string quote)

structure Mark where
  offset : Nat
  char : Char
  state : State
  rest : List Char
  deriving DecidableEq, Repr

namespace Mark

def text (mark : Mark) : List Char := mark.char :: mark.rest

def isNormal (mark : Mark) : Bool := mark.state == .normal

def isComment (mark : Mark) : Bool := mark.state == .lineComment || mark.state == .blockComment

end Mark

def marksFrom (dialect : Dialect) (phase : Phase) (offset : Nat) : List Char → List Mark
  | [] => []
  | c :: rest =>
    let (state, after) := step dialect phase c rest.head?
    ⟨offset, c, state, rest⟩ :: marksFrom dialect after (offset + c.utf8Size) rest

theorem rest_length_lt_of_mem_marksFrom {dialect : Dialect} {phase : Phase} {offset : Nat}
    {text : List Char} {mark : Mark} (member : mark ∈ marksFrom dialect phase offset text) :
    mark.rest.length < text.length := by
  induction text generalizing phase offset with
  | nil => simp [marksFrom] at member
  | cons c rest ih =>
    rcases List.mem_cons.1 member with same | later
    · simp [same]
    · have := ih later
      simp
      omega

def marks (dialect : Dialect) (text : List Char) : List Mark := marksFrom dialect .normal 0 text

/-- Scans a text from a byte position, at most its end; a position inside a character scans
nothing. -/
def marksAt (dialect : Dialect) (text : List Char) (start : Nat) : List Mark :=
  match Text.dropBytes start text with
  | some rest => marksFrom dialect .normal start rest
  | none => []

def stateChanges (scan : List Mark) : List (Nat × State) :=
  let changes := scan.foldl
    (fun (acc : List (Nat × State)) mark => match acc with
      | (_, state) :: _ => if state = mark.state then acc else (mark.offset, mark.state) :: acc
      | [] => [(mark.offset, mark.state)])
    []
  changes.reverse

/-- Blanks out comments: line feeds stay, every other comment byte becomes a space. -/
def stripComments (dialect : Dialect) (text : List Char) : List Char :=
  (marks dialect text).flatMap fun mark =>
    if mark.isComment && mark.char != '\n' then List.replicate mark.char.utf8Size ' '
    else [mark.char]

end SymbolCache.Lexical
