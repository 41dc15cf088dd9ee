import SymbolCache.Command.Arguments
import SymbolCache.Files.Path
import SymbolCache.Legacy.Object

/-!
The commands of the program and their arguments.
-/

namespace SymbolCache.Command

structure Question where
  type : String
  target : String
  kind : Option String
  source : Option Path
  deriving DecidableEq, Repr

inductive Invocation where
  | refresh (project : Path)
  | fields (project : Path) (app : Option String)
  | query (project : Path) (question : Question) (format : String)
  | stats (project : Path) (detailed : Bool)
  /-- Empties the cache, and the field index too if asked to. -/
  | clear (project : Path) (fields : Bool)
  | legacy (file : Path) (ranges : List Legacy.IdRange) (format : String) (target : Option Path)
  | watch (project : Path) (refreshFirst : Bool)
  | worker
  deriving DecidableEq, Repr

namespace Invocation

def anyText (_ : String) : Bool := true

def isNonempty (text : String) : Bool := text != ""

def isIdRange (text : String) : Bool := (Legacy.IdRange.parse text.toList).isOk

def globalOptions : List OptionRule :=
  [.flag "debug" (some 'd'), .flag "verbose" (some 'v'), .halting "help" 'h' .help]

def projectOption : OptionRule := .valued "project" 'p'

def formatOption : OptionRule := .valued "format" 'f'

def grammar? (name : String) : Option Grammar :=
  let own : Option (List OptionRule × List (String → Bool)) := match name with
    | "refresh" => some ([projectOption, .flag "quiet" (some 'q')], [])
    | "fields" => some ([projectOption, .valued "app" 'a'], [])
    | "query" => some ([.valued "kind" 'k', .valued "source" 's', projectOption, formatOption],
        [anyText, anyText])
    | "stats" => some ([projectOption, .flag "detailed" none], [])
    | "clear" => some ([projectOption, .flag "fields" none], [])
    | "legacy" => some ([.tested "range" 'r' true isIdRange, formatOption,
        .tested "output" 'o' false isNonempty], [isNonempty])
    | "watch" => some ([projectOption, .flag "refresh" none], [])
    | "worker" => some ([], [])
    | _ => none
  own.map fun (options, positionals) => ⟨options ++ globalOptions, positionals⟩

def build (name : String) (given : Given) : Except Halt Invocation :=
  let project := (given.value? "project").getD "."
  let format := (given.value? "format").getD "text"
  match name, given.positionals with
  | "refresh", _ => .ok (.refresh project)
  | "fields", _ => .ok (.fields project (given.value? "app"))
  | "query", [type, target] =>
    .ok (.query project ⟨type, target, given.value? "kind", given.value? "source"⟩ format)
  | "stats", _ => .ok (.stats project (given.has "detailed"))
  | "clear", _ => .ok (.clear project (given.has "fields"))
  | "legacy", [file] =>
    let ranges := (given.values "range").filterMap fun text =>
      (Legacy.IdRange.parse text.toList).toOption
    .ok (.legacy file ranges format (given.value? "output"))
  | "watch", _ => .ok (.watch project (given.has "refresh"))
  | "worker", _ => .ok .worker
  | _, _ => .error .misuse

def paths : Invocation → List Path
  | .refresh dir | .fields dir _ | .stats dir _ | .clear dir _ | .watch dir _ => [dir]
  | .query dir question _ => dir :: question.source.toList
  | .legacy file _ _ target => file :: (target.bind Path.parent?).toList
  | .worker => []

/-- Whether help can be given on some words. -/
def helpTopic : List String → Bool
  | [] => true
  | [name] => name == "help" || (grammar? name).isSome
  | name :: rest => name == "help" && helpTopic rest

/-- The options in front of the command. -/
def frontGrammar : Grammar := ⟨.halting "version" 'V' .version :: globalOptions, []⟩

/-- Reads options up to the name of the command, and then its arguments. -/
def parseAfter (given : Given) : List String → Except Halt Invocation
  | [] => .error .misuse
  | argument :: rest =>
    if argument == "--" then .error .misuse
    else if looksLikeOption argument then
      match readArguments frontGrammar none given [argument] with
      | .error halt => .error halt
      | .ok known => parseAfter known rest
    else if argument == "help" then .error (if helpTopic rest then .help else .misuse)
    else match grammar? argument with
      | none => .error .misuse
      | some grammar => do build argument (← grammar.read rest)

def parse (arguments : List String) : Except Halt Invocation := parseAfter .empty arguments

end Invocation

end SymbolCache.Command
