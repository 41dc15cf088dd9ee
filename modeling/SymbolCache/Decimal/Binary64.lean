/-!
Binary floating-point numbers of 64 bits, with rounding in exact integer arithmetic. A finite
number is a sign and a mantissa times a power of two; rounding is to nearest with ties to even.
-/

namespace SymbolCache

/-- A floating-point number by its sign and the 63 bits of exponent and mantissa. -/
structure Binary64 where
  negative : Bool
  magnitude : Nat
  deriving DecidableEq, Repr, Inhabited

namespace Binary64

def infinity : Nat := 0x7FF0000000000000

def decode (magnitude : Nat) : Nat × Int :=
  let exponent : Nat := magnitude / Nat.pow 2 52
  let fraction : Nat := magnitude % Nat.pow 2 52
  if exponent = 0 then (fraction, -1074) else (fraction + Nat.pow 2 52, (exponent : Int) - 1075)

def toRatio (magnitude : Nat) : Nat × Nat :=
  let (mantissa, exponent) := decode magnitude
  if 0 ≤ exponent then (mantissa * Nat.pow 2 exponent.toNat, 1) else (mantissa, Nat.pow 2 (-exponent).toNat)

/-- The quotient of two numbers scaled by a power of two, rounded to nearest with ties to even. -/
def scaledQuotient (numerator denominator : Nat) (exponent : Int) : Nat :=
  let num := if exponent < 0 then numerator * Nat.pow 2 (-exponent).toNat else numerator
  let den := if exponent < 0 then denominator else denominator * Nat.pow 2 exponent.toNat
  let quotient := num / den
  let remainder := num % den
  if 2 * remainder > den || (2 * remainder == den && quotient % 2 == 1) then quotient + 1
  else quotient

/-- The magnitude bits nearest to a quotient; infinity when it is too large. -/
def ofRatio (numerator denominator : Nat) : Nat :=
  if numerator = 0 then 0
  else
    let estimate : Int := (numerator.log2 : Int) - denominator.log2 - 52
    let num := if estimate < 0 then numerator * Nat.pow 2 (-estimate).toNat else numerator
    let den := if estimate < 0 then denominator else denominator * Nat.pow 2 estimate.toNat
    let exact := if num / den < Nat.pow 2 52 then estimate - 1 else estimate
    let exponent := max exact (-1074)
    let bits := (exponent + 1074).toNat * Nat.pow 2 52 + scaledQuotient numerator denominator exponent
    min bits infinity

def ofNat (n : Nat) : Binary64 := ⟨false, ofRatio n 1⟩

def ofInt (n : Int) : Binary64 := ⟨decide (n < 0), ofRatio n.natAbs 1⟩

def mul (a b : Nat) : Nat :=
  let (an, ad) := toRatio a
  let (bn, bd) := toRatio b
  ofRatio (an * bn) (ad * bd)

def div (a b : Nat) : Nat :=
  let (an, ad) := toRatio a
  let (bn, bd) := toRatio b
  ofRatio (an * bd) (ad * bn)

def add (a b : Nat) : Nat :=
  let (an, ad) := toRatio a
  let (bn, bd) := toRatio b
  ofRatio (an * bd + bn * ad) (ad * bd)

/-- Equality of numbers: both zeros are equal. -/
def same (a b : Binary64) : Bool := a == b || (a.magnitude == 0 && b.magnitude == 0)

end Binary64

end SymbolCache
