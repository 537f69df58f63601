import TypedVectors.Binary64.Power

/-!
Rounding of double precision numbers to decimal places. Each step is rounded on its own: scaling by
a power of ten, the whole number, and scaling back.
-/
namespace TypedVectors.Binary64

/-- Ten to a power; past the range of numbers the power is not worked out. -/
def powerOfTen (power : Nat) : Binary64 :=
  if power ≤ 308 then Binary64.pow 10 (ofNat power) else infinite false

/-- Ten to the power of a magnitude that is whole or infinite. -/
def powerOfTenSize (digits : Binary64) : Binary64 :=
  match digits.toInt? with
  | some n => powerOfTen n.natAbs
  | none => infinite false

/-- A finite magnitude rounded to a whole number of places, half away from zero; below zero places
it is rounded to tens, hundreds and so on. -/
def roundMagnitude (x digits : Binary64) : Binary64 :=
  let power := powerOfTenSize digits
  if digits.lt 0 then (x / power).roundHalfAway * power
  else (x * power).roundHalfAway / power

/-- A number rounded to places, half away from zero. Beyond fifteen places it stays as it is. -/
def roundTo (x digits : Binary64) : Binary64 :=
  if !x.isFinite || lt 15 digits then x
  else (x.signum * roundMagnitude x.abs digits).unsignedZero

end TypedVectors.Binary64
