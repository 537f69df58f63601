import TypedVectors.Binary64.Arithmetic
import TypedVectors.Binary64.Interchange

/-!
Binary logarithms of positive numbers. A logarithm is a sum of two numbers, because one number has
too few digits for the power that is made from it. The leading one has 21 digits, so that products
of leading numbers are exact; the other one takes what is left. Every other step is rounded, and the
order of the steps decides the last digit.
-/
namespace TypedVectors.Binary64

/-- A number as the sum of its leading digits and what they leave. -/
structure Parts where
  leading : Binary64
  rest : Binary64

/-- The first binary digits of a number, zeros after them. -/
def firstDigits (count : Nat) : Binary64 → Binary64
  | finite sign steps _ =>
    let gap := twoTo (binaryLog steps + 1 - count)
    ofSteps sign (steps / gap * gap) 1
  | x => x

/-- The digits of a leading part: the product of two has at most 42. -/
def leadingDigits (x : Binary64) : Binary64 := x.firstDigits 21

/-- The sum in parts. When `large` is the larger one the rest is what the leading part leaves. -/
def Parts.ofSum (large small : Binary64) : Parts :=
  let leading := (large + small).leadingDigits
  ⟨leading, small - (leading - large)⟩

/-- The product of a number in parts with another number. The product of the leading parts is
exact. -/
def Parts.times (parts : Parts) (x : Binary64) : Parts :=
  let leading := x.leadingDigits
  ⟨leading * parts.leading, (x - leading) * parts.leading + x * parts.rest⟩

/-- The polynomial with these coefficients, the constant one first. The innermost step is the
last coefficient. -/
def polynomial (coefficients : List Binary64) (x : Binary64) : Binary64 :=
  coefficients.foldr (fun coefficient inner => coefficient + x * inner) 0

/-- A number whose neighbours have their logarithm worked out from its own. -/
structure Anchor where
  point : Binary64
  log : Parts

/-- The anchor one. -/
def anchorOne : Anchor := ⟨1, 0, 0⟩

/-- The anchor three halves. -/
def anchorThreeHalves : Anchor :=
  ⟨3 / 2, ofWord 0x3FE2B80340000000, ofWord 0x3E4CFDEB43CFD006⟩

/-- The terms of the logarithm's series after the first two, fitted near 3/5, 3/7, 3/9 and so on. -/
def logarithmTerms : List Binary64 :=
  [0x3FE3333333333303, 0x3FDB6DB6DB6FABFF, 0x3FD55555518F264D, 0x3FD17460A91D4101,
    0x3FCD864A93C9DB65, 0x3FCA7E284A454EEF].map ofWord

/-- Three halves of the natural logarithm of `x / point`: with `ratio` for `(x - point) / (x +
point)` it is `ratio * (3 + ratio ^ 2 + …)`. -/
def ratioSeries (point x : Binary64) : Parts :=
  let difference := x - point
  let inverse := 1 / (x + point)
  let ratio := difference * inverse
  let head := ratio.leadingDigits
  let sum := x.firstDigits 20 + point
  let tail := inverse * ((difference - head * sum) - head * (x - (sum - point)))
  let square := ratio * ratio
  let terms := square * square * polynomial logarithmTerms square + tail * (head + ratio)
  let headSquare := head * head
  let factor := (3 + headSquare + terms).leadingDigits
  let factorRest := terms - ((factor - 3) - headSquare)
  Parts.ofSum (head * factor) (tail * factor + factorRest * ratio)

/-- The factor from the series to the binary logarithm, `2 / (3 * ln 2)`. -/
def seriesFactor : Binary64 := ofWord 0x3FEEC709DC3A03FD

/-- The factor from the series to the binary logarithm, in parts. -/
def seriesFactorParts : Parts := ⟨ofWord 0x3FEEC709E0000000, ofWord 0xBE3E2FE0145B01F5⟩

/-- The binary logarithm of `x * 2 ^ exponent`, for `x` near the anchor. -/
def logarithmNear (anchor : Anchor) (x : Binary64) (exponent : Int) : Parts :=
  let series := ratioSeries anchor.point x
  let head := seriesFactorParts.leading * series.leading
  let rest := seriesFactorParts.rest * series.leading + series.rest * seriesFactor + anchor.log.rest
  let whole := ofInt exponent
  let leading := (head + rest + anchor.log.leading + whole).leadingDigits
  ⟨leading, rest - (leading - whole - anchor.log.leading - head)⟩

/-- The binary logarithm of a positive number of steps. Below about the root of 3/2 the mantissa is
near one, below about the root of three near three halves, and else its half is near one. -/
def logarithm (steps : Nat) : Parts :=
  let exponent : Int := binaryLog steps - 1074
  let mantissa := ofQuotient false steps (twoTo (binaryLog steps))
  if mantissa.lt (ofWord 0x3FF3988F00000000) then logarithmNear anchorOne mantissa exponent
  else if mantissa.lt (ofWord 0x3FFBB67A00000000) then
    logarithmNear anchorThreeHalves mantissa exponent
  else logarithmNear anchorOne (mantissa / 2) (exponent + 1)

/-- The factor from the natural to the binary logarithm, `1 / ln 2`. -/
def naturalFactor : Binary64 := ofWord 0x3FF71547652B82FE

/-- The factor from the natural to the binary logarithm, in parts. -/
def naturalFactorParts : Parts := ⟨ofWord 0x3FF7154760000000, ofWord 0x3E54AE0BF85DDF44⟩

/-- Whether a number lies within 2^-21 below one or 2^-20 above it. -/
def isNearOne (x : Binary64) : Bool :=
  !x.lt (1 - ofQuotient false 1 (twoTo 21)) && x.lt (1 + ofQuotient false 1 (twoTo 20))

/-- The binary logarithm of a number near one: with `t` for `x - 1` the natural one is
`t - t ^ 2 * (1/2 - t/3 + t ^ 2/4)`. -/
def logarithmNearOne (x : Binary64) : Parts :=
  let excess := x - 1
  let curve := excess * excess * polynomial [1 / 2, -(1 / 3), 1 / 4] excess
  Parts.ofSum (naturalFactorParts.leading * excess)
    (excess * naturalFactorParts.rest - curve * naturalFactor)

end TypedVectors.Binary64
