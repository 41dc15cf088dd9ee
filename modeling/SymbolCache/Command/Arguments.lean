import SymbolCache.Text.Basic

/-!
Reading the arguments of a command: options with and without values, short ones also run together,
and positional arguments. Two dashes end the options.
-/

namespace SymbolCache.Command

inductive Halt where
  | misuse
  | help
  | version
  deriving DecidableEq, Repr

structure OptionRule where
  long : String
  short : Option Char
  takesValue : Bool
  repeats : Bool
  accepts : String → Bool
  /-- Set when nothing after the option is read. -/
  halt : Option Halt

namespace OptionRule

def flag (long : String) (short : Option Char) : OptionRule :=
  ⟨long, short, false, false, fun _ => true, none⟩

def valued (long : String) (short : Char) : OptionRule :=
  ⟨long, some short, true, false, fun _ => true, none⟩

def tested (long : String) (short : Char) (repeats : Bool) (accepts : String → Bool) : OptionRule :=
  ⟨long, some short, true, repeats, accepts, none⟩

def halting (long : String) (short : Char) (halt : Halt) : OptionRule :=
  ⟨long, some short, false, false, fun _ => true, some halt⟩

end OptionRule

structure Grammar where
  options : List OptionRule
  /-- One test for each positional argument; all of them are required. -/
  positionals : List (String → Bool)

structure Given where
  /-- Options by their long names, in order; an option without a value has the empty text. -/
  options : List (String × String)
  positionals : List String
  deriving DecidableEq, Repr

namespace Given

def empty : Given := ⟨[], []⟩

def has (given : Given) (long : String) : Bool := given.options.any fun entry => entry.1 == long

def value? (given : Given) (long : String) : Option String := given.options.lookup long

def values (given : Given) (long : String) : List String :=
  (given.options.filter fun entry => entry.1 == long).map Prod.snd

def addOption (given : Given) (rule : OptionRule) (value : String) : Except Halt Given :=
  match rule.halt with
  | some halt => .error halt
  | none =>
    if given.has rule.long && !rule.repeats then .error .misuse
    else if !rule.accepts value then .error .misuse
    else .ok { given with options := given.options ++ [(rule.long, value)] }

def addPositional (grammar : Grammar) (given : Given) (value : String) : Except Halt Given :=
  match grammar.positionals[given.positionals.length]? with
  | none => .error .misuse
  | some accepts =>
    if accepts value then .ok { given with positionals := given.positionals ++ [value] }
    else .error .misuse

end Given

/-- What is known after one argument: what is given, and the option whose value comes next. -/
abbrev Progress := Given × Option OptionRule

def readLong (grammar : Grammar) (given : Given) (body : List Char) : Except Halt Progress := do
  let (name, value) := match Text.cutAt? '=' body with
    | some (name, value) => (String.ofList name, some (String.ofList value))
    | none => (String.ofList body, none)
  match grammar.options.find? fun rule => rule.long == name with
  | none => .error .misuse
  | some rule =>
    match rule.takesValue, value with
    | true, none => return (given, some rule)
    | true, some text => return (← given.addOption rule text, none)
    | false, none => return (← given.addOption rule "", none)
    | false, some _ => .error .misuse

/-- Reads short options after their dash. The first one with a value takes the rest. -/
def readShort (grammar : Grammar) (given : Given) : List Char → Except Halt Progress
  | [] => .ok (given, none)
  | c :: rest =>
    match grammar.options.find? fun rule => rule.short == some c with
    | none => .error .misuse
    | some rule =>
      if !rule.takesValue then do readShort grammar (← given.addOption rule "") rest
      else match rest with
        | [] => .ok (given, some rule)
        | '=' :: value => do return (← given.addOption rule (String.ofList value), none)
        | value => do return (← given.addOption rule (String.ofList value), none)

def looksLikeOption (argument : String) : Bool :=
  match argument.toList with
  | '-' :: _ :: _ => true
  | _ => false

/-- Reads arguments in order; `awaiting` is the option whose value comes next. -/
def readArguments (grammar : Grammar) (awaiting : Option OptionRule) (given : Given) :
    List String → Except Halt Given
  | [] => if awaiting.isSome then .error .misuse else .ok given
  | argument :: rest =>
    match awaiting with
    | some rule =>
      if looksLikeOption argument then .error .misuse
      else do readArguments grammar none (← given.addOption rule argument) rest
    | none =>
      if argument == "--" then rest.foldlM (Given.addPositional grammar) given
      else match argument.toList with
        | '-' :: '-' :: body => do
          let (known, next) ← readLong grammar given body
          readArguments grammar next known rest
        | '-' :: c :: body => do
          let (known, next) ← readShort grammar given (c :: body)
          readArguments grammar next known rest
        | _ => do readArguments grammar none (← given.addPositional grammar argument) rest

def Grammar.read (grammar : Grammar) (arguments : List String) : Except Halt Given := do
  let given ← readArguments grammar none .empty arguments
  if given.positionals.length < grammar.positionals.length then .error .misuse else return given

end SymbolCache.Command
