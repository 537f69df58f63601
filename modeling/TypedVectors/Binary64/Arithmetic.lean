import TypedVectors.Binary64.Basic

/-!
Arithmetic on double precision numbers: each operation takes the exact result and rounds it once.
A zero result keeps the sign that its operands give it.
-/
namespace TypedVectors.Binary64

/-- The same magnitude with the other sign. -/
protected def neg : Binary64 → Binary64
  | nan => nan
  | infinite sign => infinite (!sign)
  | finite sign steps h => finite (!sign) steps h

/-- The same magnitude with the positive sign. -/
def abs : Binary64 → Binary64
  | nan => nan
  | infinite _ => infinite false
  | finite _ steps h => finite false steps h

/-- The sum. A zero sum is negative only when both terms are. -/
protected def add : Binary64 → Binary64 → Binary64
  | nan, _ | _, nan => nan
  | infinite a, infinite b => if a == b then infinite a else nan
  | infinite a, finite .. => infinite a
  | finite .., infinite b => infinite b
  | x@(finite a _ _), y@(finite b _ _) =>
    let total := x.signedSteps + y.signedSteps
    ofSteps (if total = 0 then a && b else total < 0) total.natAbs 1

protected def sub (x y : Binary64) : Binary64 := x.add y.neg

/-- The product. Zero times an infinity is not a number. -/
protected def mul : Binary64 → Binary64 → Binary64
  | nan, _ | _, nan => nan
  | infinite a, infinite b => infinite (a != b)
  | infinite a, finite b steps _ => if steps = 0 then nan else infinite (a != b)
  | finite a steps _, infinite b => if steps = 0 then nan else infinite (a != b)
  | finite a left _, finite b right _ => ofSteps (a != b) (left * right) unit

/-- The quotient. A nonzero number over zero is infinite, zero over zero is not a number. -/
protected def div : Binary64 → Binary64 → Binary64
  | nan, _ | _, nan => nan
  | infinite _, infinite _ => nan
  | infinite a, finite b _ _ => infinite (a != b)
  | finite a _ _, infinite b => ofSteps (a != b) 0 1
  | finite a left _, finite b right _ =>
    if right = 0 then
      if left = 0 then nan else infinite (a != b)
    else
      ofQuotient (a != b) left right

instance : Neg Binary64 := ⟨Binary64.neg⟩
instance : Add Binary64 := ⟨Binary64.add⟩
instance : Sub Binary64 := ⟨Binary64.sub⟩
instance : Mul Binary64 := ⟨Binary64.mul⟩
instance : Div Binary64 := ⟨Binary64.div⟩

/-- The whole part, toward zero; the sign stays. -/
def trunc : Binary64 → Binary64
  | finite sign steps _ => ofSteps sign (steps / unit * unit) 1
  | x => x

/-- The largest whole number that is not above `x`; the sign stays. -/
def floor : Binary64 → Binary64
  | finite sign steps _ =>
    let whole := steps / unit
    let below := if sign && steps % unit != 0 then whole + 1 else whole
    ofSteps sign (below * unit) 1
  | x => x

/-- The nearest whole number, from the middle away from zero; the sign stays. -/
def roundHalfAway : Binary64 → Binary64
  | finite sign steps _ => ofSteps sign ((2 * steps + unit) / (2 * unit) * unit) 1
  | x => x

/-- The quotient rounded down. -/
def floorDiv (x y : Binary64) : Binary64 := (x / y).floor

/-- What `y` times the quotient rounded down leaves of `x`; not a number when `y` is zero. -/
def floorMod (x y : Binary64) : Binary64 :=
  if y.isZero then nan else x - x.floorDiv y * y

/-- The lesser number, negative zero below positive zero. -/
protected def min (x y : Binary64) : Binary64 :=
  if x.isNaN || y.isNaN then nan
  else if x.lt y then x
  else if y.lt x then y
  else if x.negative then x else y

/-- The greater number, positive zero above negative zero. -/
protected def max (x y : Binary64) : Binary64 :=
  if x.isNaN || y.isNaN then nan
  else if x.lt y then y
  else if y.lt x then x
  else if x.negative then y else x

/-- One with the sign of `x`; zeros and not-a-number stay. -/
def signum : Binary64 → Binary64
  | nan => nan
  | infinite sign => ofSteps sign unit 1
  | finite sign steps _ => ofSteps sign (if steps = 0 then 0 else unit) 1

/-- Negative zero as positive zero; every other number as it is. -/
def unsignedZero (x : Binary64) : Binary64 := if x.isZero then 0 else x

end TypedVectors.Binary64
