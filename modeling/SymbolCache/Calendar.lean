/-!
Dates of the Gregorian calendar, extended to all years.
-/

namespace SymbolCache.Calendar

structure Date where
  year : Int
  month : Nat
  day : Nat
  deriving DecidableEq, Repr

/-- The date so many days after 1970-01-01. Years are counted from March, in eras of 400 years, so
that a leap day is the last day of its year. -/
def ofDays (days : Int) : Date :=
  let shifted := days + 719468
  let era := shifted.fdiv 146097
  let dayOfEra := (shifted.fmod 146097).toNat
  let yearOfEra := (dayOfEra - dayOfEra / 1460 + dayOfEra / 36524 - dayOfEra / 146096) / 365
  let dayOfYear := dayOfEra - (365 * yearOfEra + yearOfEra / 4 - yearOfEra / 100)
  let monthFromMarch := (5 * dayOfYear + 2) / 153
  let month := if monthFromMarch < 10 then monthFromMarch + 3 else monthFromMarch - 9
  { year := yearOfEra + era * 400 + (if month ≤ 2 then 1 else 0)
    month
    day := dayOfYear - (153 * monthFromMarch + 2) / 5 + 1 }

def padded (width n : Nat) : String :=
  let digits := toString n
  String.ofList (List.replicate (width - digits.length) '0') ++ digits

/-- A year with at least four digits; years after 9999 carry a plus sign. -/
def renderYear (year : Int) : String :=
  if year < 0 then "-" ++ padded 4 year.natAbs
  else if 9999 < year then "+" ++ toString year
  else padded 4 year.natAbs

def Date.render (date : Date) : String :=
  renderYear date.year ++ "-" ++ padded 2 date.month ++ "-" ++ padded 2 date.day

def renderTime (milliseconds : Int) : String :=
  let seconds := milliseconds.fdiv 1000
  let ofDay := (seconds.fmod 86400).toNat
  (ofDays (seconds.fdiv 86400)).render ++ " " ++ padded 2 (ofDay / 3600) ++ ":" ++
    padded 2 (ofDay / 60 % 60) ++ ":" ++ padded 2 (ofDay % 60)

end SymbolCache.Calendar
