import SymbolCache.Lexical.State

/-!
Blocks and records between braces, and words in normal state. A brace counts only where the scan
is in normal state, so braces in comments and strings never open or close a block.
-/

namespace SymbolCache.Lexical

/-- The first closing brace in normal state that is not matched by an opening one before it. -/
def closingBrace? (depth : Nat) : List Mark → Option Mark
  | [] => none
  | mark :: rest =>
    if mark.isNormal && mark.char == '{' then closingBrace? (depth + 1) rest
    else if mark.isNormal && mark.char == '}' then
      match depth with
      | 0 => some mark
      | outer + 1 => closingBrace? outer rest
    else closingBrace? depth rest

theorem mem_of_closingBrace? {depth : Nat} {scan : List Mark} {close : Mark}
    (closes : closingBrace? depth scan = some close) : close ∈ scan := by
  induction scan generalizing depth with
  | nil => simp [closingBrace?] at closes
  | cons mark rest ih =>
    unfold closingBrace? at closes
    split at closes
    · exact List.mem_cons_of_mem _ (ih closes)
    · split at closes
      · split at closes
        · simp at closes
          simp [closes]
        · exact List.mem_cons_of_mem _ (ih closes)
      · exact List.mem_cons_of_mem _ (ih closes)

theorem rest_length_lt_of_closingBrace? {depth : Nat} {dialect : Dialect} {phase : Phase}
    {offset : Nat} {text : List Char} {close : Mark}
    (closes : closingBrace? depth (marksFrom dialect phase offset text) = some close) :
    close.rest.length < text.length :=
  rest_length_lt_of_mem_marksFrom (mem_of_closingBrace? closes)

def matchingBrace? (dialect : Dialect) (text : List Char) (position : Nat) : Option Nat :=
  match Text.dropBytes position text with
  | some ('{' :: body) =>
    (closingBrace? 0 (marksFrom dialect .normal (position + 1) body)).map Mark.offset
  | _ => none

structure Block where
  keyword : Nat
  opening : Nat
  closing : Nat
  deriving DecidableEq, Repr

def Block.inner (block : Block) (text : List Char) : List Char :=
  Text.slice text (block.opening + 1) block.closing

inductive Lookup where
  | found (block : Block)
  | missing
  /-- Keyword and opening brace are there, but the braces never balance. -/
  | malformed (keyword : Nat)
  deriving DecidableEq, Repr

def Lookup.block? : Lookup → Option Block
  | .found block => some block
  | _ => none

def isWordChar (c : Char) : Bool := Text.isAlphanumeric c || c == '_' || c == '-'

/-- Number of bytes between a keyword at the start of a text and the brace after it, and the text
after that brace. The keyword is compared regardless of ASCII case and must be a whole word. -/
def openingAfter? (keyword text : List Char) : Option (Nat × List Char) :=
  match Text.stripWord? keyword text with
  | none => none
  | some rest =>
    if rest.head?.any isWordChar then none
    else match Text.trimStart rest with
      | '{' :: body =>
        some (Text.byteLength keyword + Text.byteLength (rest.takeWhile Text.isBlank), body)
      | _ => none

def locateIn (body : Dialect) (keyword : List Char) (previous : Option Char) :
    List Mark → Lookup
  | [] => .missing
  | mark :: rest =>
    let candidate :=
      if mark.isNormal && !previous.any isWordChar then openingAfter? keyword mark.text else none
    match candidate with
    | none => locateIn body keyword (some mark.char) rest
    | some (distance, inside) =>
      let position := mark.offset + distance
      match closingBrace? 0 (marksFrom body .normal (position + 1) inside) with
      | some close => .found ⟨mark.offset, position, close.offset⟩
      | none => .malformed mark.offset

/-- Finds a keyword and its block from a byte position on, scanning outside the block in one
dialect and inside it in another. -/
def locateWith (outside body : Dialect) (keyword text : List Char) (start : Nat) : Lookup :=
  locateIn body keyword none (marksAt outside text (min start (Text.byteLength text)))

def locate (dialect : Dialect) (keyword text : List Char) : Lookup :=
  locateWith dialect dialect keyword text 0

/-- Records at the top level of a text that starts at a byte offset, as offsets of their braces.
The first record that never closes ends the list. -/
def recordsFrom (dialect : Dialect) (offset : Nat) : List Char → List (Nat × Nat)
  | [] => []
  | c :: rest =>
    if c == '{' then
      match _closes : closingBrace? 0 (marksFrom dialect .normal (offset + 1) rest) with
      | none => []
      | some close => (offset, close.offset) :: recordsFrom dialect (close.offset + 1) close.rest
    else recordsFrom dialect (offset + c.utf8Size) rest
termination_by text => text.length
decreasing_by
  · have := rest_length_lt_of_closingBrace? _closes
    simp
    omega
  · simp

def records (dialect : Dialect) (text : List Char) : List (Nat × Nat) := recordsFrom dialect 0 text

/-- The words in normal state along a scan, each with the offset of its first character. -/
def wordsIn : Option (Nat × List Char) → List Mark → List (Nat × List Char)
  | none, [] => []
  | some (start, word), [] => [(start, word.reverse)]
  | current, mark :: rest =>
    if mark.isNormal && isWordChar mark.char then
      match current with
      | none => wordsIn (some (mark.offset, [mark.char])) rest
      | some (start, word) => wordsIn (some (start, mark.char :: word)) rest
    else match current with
      | none => wordsIn none rest
      | some (start, word) => (start, word.reverse) :: wordsIn none rest

def keywordPositions (dialect : Dialect) (keyword text : List Char) : List Nat :=
  ((wordsIn none (marks dialect text)).filter fun (_, word) => Text.sameWord word keyword).map
    Prod.fst

end SymbolCache.Lexical
