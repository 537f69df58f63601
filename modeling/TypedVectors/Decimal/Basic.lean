import TypedVectors.Binary64.Basic

/-!
Decimal magnitudes and the double precision numbers they read as. The shortest decimal of a number
is the one of fewest digits that reads back as that number.
-/
namespace TypedVectors

/-- The magnitude `coefficient * 10 ^ exponent`. -/
structure Decimal where
  coefficient : Nat
  exponent : Int
  deriving DecidableEq

namespace Decimal

/-- The number nearest to a decimal. Far outside the range of numbers the power of ten is not
worked out: the result is infinite or zero. -/
def toBinary64 (negative : Bool) (d : Decimal) : Binary64 :=
  if d.coefficient = 0 then Binary64.ofSteps negative 0 1
  else if 400 < d.exponent then Binary64.infinite negative
  else if d.exponent < -400 - binaryLog d.coefficient then Binary64.ofSteps negative 0 1
  else if 0 ≤ d.exponent then
    Binary64.ofQuotient negative (d.coefficient * tenTo d.exponent.toNat) 1
  else
    Binary64.ofQuotient negative d.coefficient (tenTo (-d.exponent).toNat)

/-- Numerator and denominator of `steps` steps divided by a power of ten. -/
def overPowerOfTen (steps : Nat) (exponent : Int) : Nat × Nat :=
  if 0 ≤ exponent then (steps, Binary64.unit * tenTo exponent.toNat)
  else (steps * tenTo (-exponent).toNat, Binary64.unit)

/-- The power of ten of the leading digit of a nonzero magnitude. The binary logarithm gives it
up to one, because 30103 / 100000 is the decimal logarithm of two to six places. -/
def leadingExponent (steps : Nat) : Int :=
  let estimate := ((binaryLog steps : Int) - 1074) * 30103 / 100000
  let (num, den) := overPowerOfTen steps (estimate + 1)
  if den ≤ num then estimate + 1 else estimate

/-- A magnitude kept to `count` leading digits, from the middle up. -/
def ofLeading (count steps : Nat) : Decimal :=
  let exponent := leadingExponent steps - (count - 1 : Nat)
  let (num, den) := overPowerOfTen steps exponent
  ⟨(2 * num + den) / (2 * den), exponent⟩

/-- Whether a decimal reads as the magnitude of `steps` steps. -/
def readsAs (steps : Nat) (d : Decimal) : Bool :=
  match d.toBinary64 false with
  | .finite _ read _ => read == steps
  | _ => false

/-- The decimal of `count` digits that reads back as the magnitude, if there is one. Of the two
around the magnitude the nearer one is taken, the even one when both are equally near. -/
def readable? (steps count : Nat) : Option Decimal :=
  let exponent := leadingExponent steps - (count - 1 : Nat)
  let (num, den) := overPowerOfTen steps exponent
  let floor := num / den
  let below : Decimal := ⟨floor, exponent⟩
  let above : Decimal := ⟨floor + 1, exponent⟩
  let lowerNearer := match compare (2 * num) ((2 * floor + 1) * den) with
    | .lt => true
    | .gt => false
    | .eq => floor % 2 == 0
  let (first, second) := if lowerNearer then (below, above) else (above, below)
  if first.readsAs steps then some first
  else if second.readsAs steps then some second
  else none

/-- The decimal of fewest digits that reads back as the magnitude; seventeen digits always do. -/
def shortest (steps : Nat) : Decimal :=
  ((List.range 17).findSome? fun more => readable? steps (more + 1)).getD (ofLeading 17 steps)

end Decimal
end TypedVectors
