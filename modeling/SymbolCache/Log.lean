import SymbolCache.Text.Basic

/-!
Log entries and their levels. An entry is shown when it is at least as urgent as the level in force.
-/

namespace SymbolCache

inductive LogLevel where
  | error
  | warn
  | info
  | debug
  | trace
  deriving DecidableEq, Repr

namespace LogLevel

def all : List LogLevel := [.error, .warn, .info, .debug, .trace]

def name : LogLevel → String
  | .error => "error"
  | .warn => "warn"
  | .info => "info"
  | .debug => "debug"
  | .trace => "trace"

def rank : LogLevel → Nat
  | .error => 0
  | .warn => 1
  | .info => 2
  | .debug => 3
  | .trace => 4

/-- The level that a text names; any text names one. -/
def parse (text : String) : LogLevel :=
  let lower := String.ofList ((Text.trim text.toList).map Char.toLower)
  (all.find? fun level => level.name == lower).getD (if lower == "verbose" then .debug else .warn)

/-- The level in force: flags win over the configured one. -/
def effective (debug verbose : Bool) (configured : String) : LogLevel :=
  if debug then .debug else if verbose then .info else parse configured

end LogLevel

inductive LogFormat where
  | compact
  | full
  deriving DecidableEq, Repr

def LogFormat.parse (text : String) : LogFormat :=
  if Text.sameWord text.toList "full".toList then .full else .compact

structure LogEntry where
  level : LogLevel
  text : String
  deriving DecidableEq, Repr

namespace LogEntry

def isShownAt (entry : LogEntry) (level : LogLevel) : Bool := entry.level.rank ≤ level.rank

/-- A character as it is written to the log. Those that could steer a terminal are spelled out. -/
def safeChar (c : Char) : List Char :=
  let digits := Nat.toDigits 16 c.toNat
  if c.toNat = 0x07 || c.toNat = 0x08 || c.toNat = 0x0C then "\\x0".toList ++ digits
  else if c.toNat = 0x1B || c.toNat = 0x7F then "\\x".toList ++ digits
  else if 0x80 ≤ c.toNat && c.toNat ≤ 0x9F then "\\u\x7b".toList ++ digits ++ "\x7d".toList
  else [c]

def lines (entry : LogEntry) : List (List Char) :=
  Text.splitAt '\n' (entry.text.toList.flatMap safeChar)

end LogEntry

end SymbolCache
