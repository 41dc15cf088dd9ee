import SymbolCache.Decimal.Binary64

/-!
The shortest decimal text that reads back as a given floating-point number, the nearest one of
that length.
-/

namespace SymbolCache.Decimal

structure Scaled where
  digits : Nat
  exponent : Int
  deriving DecidableEq, Repr

/-- Twice the mantissa and its two neighbours' midpoints, over one power of two: the numbers
between `low` and `high` round to `value`. -/
structure Interval where
  low : Nat
  value : Nat
  high : Nat
  exponent : Int
  closed : Bool
  deriving Repr

def Interval.ofMagnitude (magnitude : Nat) : Interval :=
  let (mantissa, exponent) := Binary64.decode magnitude
  let atPowerOfTwo := mantissa == Nat.pow 2 52 && magnitude / Nat.pow 2 52 > 1
  let low := if atPowerOfTwo then 4 * mantissa - 1 else 4 * mantissa - 2
  ⟨low, 4 * mantissa, 4 * mantissa + 2, exponent - 2, mantissa % 2 == 0⟩

/-- Compares `digits * 10 ^ ten` with `bound * 2 ^ two`. -/
def compareScaled (digits : Nat) (ten : Int) (bound : Nat) (two : Int) : Ordering :=
  let left := digits * Nat.pow 10 ten.toNat * Nat.pow 2 (-two).toNat
  let right := bound * Nat.pow 2 two.toNat * Nat.pow 10 (-ten).toNat
  compare left right

namespace Interval

def contains (interval : Interval) (digits : Nat) (ten : Int) : Bool :=
  match compareScaled digits ten interval.low interval.exponent,
      compareScaled digits ten interval.high interval.exponent with
  | .gt, .lt => true
  | .eq, .lt | .gt, .eq | .eq, .eq => interval.closed
  | _, _ => false

def floorAt (interval : Interval) (ten : Int) : Nat :=
  (interval.value * Nat.pow 2 interval.exponent.toNat * Nat.pow 10 (-ten).toNat) /
    (Nat.pow 10 ten.toNat * Nat.pow 2 (-interval.exponent).toNat)

/-- Whether the lower of two neighbouring decimals is nearer; a tie goes to the even one. -/
def lowerIsNearer (interval : Interval) (lower : Nat) (ten : Int) : Bool :=
  match compareScaled (2 * lower + 1) ten (2 * interval.value) interval.exponent with
  | .gt => true
  | .eq => lower % 2 == 0
  | .lt => false

/-- A decimal on one grid that reads back as the value. -/
def onGrid? (interval : Interval) (ten : Int) : Option Nat :=
  let lower := interval.floorAt ten
  match interval.contains lower ten && lower != 0, interval.contains (lower + 1) ten with
  | true, true => some (if interval.lowerIsNearer lower ten then lower else lower + 1)
  | true, false => some lower
  | false, true => some (lower + 1)
  | false, false => none

def search (interval : Interval) (ten : Int) : Nat → Scaled
  | 0 => ⟨interval.floorAt ten, ten⟩
  | fuel + 1 =>
    match interval.onGrid? ten with
    | some digits => ⟨digits, ten⟩
    | none => interval.search (ten - 1) fuel

end Interval

def digitCount (n : Nat) : Nat := (Nat.toDigits 10 n).length

def Scaled.normalize (scaled : Scaled) : Nat → Scaled
  | 0 => scaled
  | fuel + 1 =>
    if scaled.digits != 0 && scaled.digits % 10 == 0 then
      Scaled.normalize ⟨scaled.digits / 10, scaled.exponent + 1⟩ fuel
    else scaled

def shortest (magnitude : Nat) : Scaled :=
  let interval := Interval.ofMagnitude magnitude
  let (num, den) := Binary64.toRatio magnitude
  let coarse : Int := (digitCount num : Int) - digitCount den
  Scaled.normalize (interval.search coarse 24) 400

structure Format where
  /-- Least and greatest power of ten of the first digit that is written without exponent. -/
  positional : Int × Int
  plus : String

def Scaled.render (format : Format) (scaled : Scaled) : String :=
  let digits := Nat.toDigits 10 scaled.digits
  let lead : Int := scaled.exponent + digits.length - 1
  let written :=
    if format.positional.1 ≤ lead && lead ≤ format.positional.2 then
      if 0 ≤ scaled.exponent then digits ++ List.replicate scaled.exponent.toNat '0' ++ ['.', '0']
      else if 0 ≤ lead then
        digits.take (lead.toNat + 1) ++ '.' :: digits.drop (lead.toNat + 1)
      else ['0', '.'] ++ List.replicate (-lead - 1).toNat '0' ++ digits
    else
      let mantissa := match digits with
        | [d] => [d]
        | d :: rest => d :: '.' :: rest
        | [] => []
      let exponent := if 0 ≤ lead then format.plus.toList ++ Nat.toDigits 10 lead.toNat
        else '-' :: Nat.toDigits 10 (-lead).toNat
      mantissa ++ 'e' :: exponent
  String.ofList written

end SymbolCache.Decimal
