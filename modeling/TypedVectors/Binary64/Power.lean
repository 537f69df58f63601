import TypedVectors.Binary64.Logarithm

/-!
Powers of double precision numbers. A power is two to the product of the exponent and the binary
logarithm of the base. Products and sums on the way are rounded like any others, so that a power may
miss the nearest number by one in the last digit.
-/
namespace TypedVectors.Binary64

/-- `x * 2 ^ exponent`, rounded once. -/
def scale (x : Binary64) (exponent : Int) : Binary64 :=
  match x with
  | finite sign steps _ =>
    if 0 ≤ exponent then ofSteps sign (steps * twoTo exponent.toNat) 1
    else ofSteps sign steps (twoTo (-exponent).toNat)
  | x => x

/-- The square root of a positive number. Counted in steps it is so long that the fraction of a step
does not change how it rounds. -/
def sqrt : Binary64 → Binary64
  | finite sign steps _ => ofSteps sign (steps * unit).sqrt 1
  | x => x

/-- The natural logarithm of two. -/
def logTwo : Binary64 := ofWord 0x3FE62E42FEFA39EF

/-- The natural logarithm of two in parts. -/
def logTwoParts : Parts := ⟨ofWord 0x3FE62E4300000000, ofWord 0xBE205C610CA86C39⟩

/-- The terms of the exponential's series, fitted near 1/6, -1/360, 1/15120 and so on. -/
def exponentialTerms : List Binary64 :=
  [0x3FC555555555553E, 0xBF66C16C16BEBD93, 0x3F11566AAF25DE2C, 0xBEBBBD41C5D26BF1,
    0x3E66376972BEA4D0].map ofWord

/-- Two to a power of at most about one half. With `x` for its product with the logarithm of two,
`lost` for what rounding took from `x`, and `c` for `x - x ^ 2 * (1/6 - …)`, it is
`1 - (x * c / (c - 2 - …) - x)`. -/
def powerOfFraction (fraction : Parts) : Binary64 :=
  let leading := (fraction.rest + fraction.leading).leadingDigits
  let head := leading * logTwoParts.leading
  let tail := (fraction.rest - (leading - fraction.leading)) * logTwo + leading * logTwoParts.rest
  let x := head + tail
  let lost := tail - (x - head)
  let square := x * x
  let c := x - square * polynomial exponentialTerms square
  1 - (x * c / (c - 2 - (lost + x * lost)) - x)

/-- How far below 1024 the exponents end whose power is in range, `2 ^ -54 / ln 2`. -/
def rangeMargin : Binary64 := ofWord 0x3C971547652B82FE

/-- Two to the power of a sum, infinite or zero out of range. A sum that rounds to an end of the
range is in range or not by what rounding added. -/
def powerOfTwo (exponent : Parts) : Binary64 :=
  let total := exponent.rest + exponent.leading
  let restKept := total - exponent.leading
  if lt 1024 total || total.equals 1024 && restKept.lt (exponent.rest + rangeMargin) then
    infinite false
  else if total.lt (-1075) || total.equals (-1075) && exponent.rest.le restKept then 0
  else
    let whole := if total.abs.leadingDigits.le (1 / 2) then 0 else total.roundHalfAway
    (powerOfFraction ⟨exponent.leading - whole, exponent.rest⟩).scale (whole.toInt?.getD 0)

/-- Whether an exponent is so large that only bases near one have a power in range. -/
def isLargeExponent (x : Binary64) : Bool := lt (ofNat (twoTo 31)) x.abs.leadingDigits

/-- The power of a positive number. The exponents that take a single operation take it. -/
def powerOfPositive (base exponent : Binary64) : Binary64 :=
  if exponent = 1 then base
  else if exponent = -1 then 1 / base
  else if exponent = 2 then base * base
  else if exponent = 1 / 2 then base.sqrt
  else
    let log :=
      if exponent.isLargeExponent && base.isNearOne then logarithmNearOne base
      else logarithm base.signedSteps.natAbs
    powerOfTwo (log.times exponent)

/-- The power of an infinite magnitude or of zero, by the exponent's sign. -/
def powerOfEnd (large exponentNegative : Bool) : Binary64 :=
  if large != exponentNegative then infinite false else 0

/-- The power of a magnitude by a finite exponent other than zero. -/
def powerOfMagnitude (x exponent : Binary64) : Binary64 :=
  match x with
  | nan => nan
  | infinite _ => powerOfEnd true exponent.negative
  | finite _ steps _ =>
    if steps = 0 then powerOfEnd false exponent.negative else powerOfPositive x.abs exponent

/-- `x` to the power `y`. Every number to the power zero is one; one and minus one have no
infinite power; a negative number has a power only for a whole exponent. -/
protected def pow (x y : Binary64) : Binary64 :=
  if y.isZero then 1
  else
    match x, y with
    | nan, _ | _, nan => nan
    | infinite _, infinite below => powerOfEnd true below
    | finite _ steps _, infinite below =>
      if steps = unit then nan else powerOfEnd (unit < steps) below
    | _, finite .. =>
      let power := powerOfMagnitude x y
      match y.toInt? with
      | some n => if x.negative && n % 2 != 0 then -power else power
      | none => if x.isFinite && x.lt 0 then nan else power

instance : HPow Binary64 Binary64 Binary64 := ⟨Binary64.pow⟩

end TypedVectors.Binary64
