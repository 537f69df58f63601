import TypedVectors.Decimal.Basic

/-!
The text of numbers. A style holds what the two uses of numbers differ in: numbers inside messages
and numbers as text cells. Both write magnitudes from 10^-6 up to 10^21 by position and all others
with an exponent.
-/
namespace TypedVectors

/-- How a decimal is written: the least count of exponent digits. -/
structure Decimal.Style where
  exponentDigits : Nat

namespace Decimal

/-- Numbers in messages show the exponent as it is. -/
def Style.message : Style := ⟨1⟩

/-- Numbers as text cells have at least two exponent digits. -/
def Style.cell : Style := ⟨2⟩

/-- The digits of the coefficient without the zeros at its end. -/
def significantDigits (d : Decimal) : List Char :=
  ((Nat.toDigits 10 d.coefficient).reverse.dropWhile (· == '0')).reverse

/-- How many digits stand before the point, none or less for a value below one. -/
def pointPlace (d : Decimal) : Int :=
  (Nat.toDigits 10 d.coefficient).length + d.exponent

/-- The exponent part: a sign and at least as many digits as the style asks for. -/
def exponentText (style : Style) (exponent : Int) : List Char :=
  let digits := Nat.toDigits 10 exponent.natAbs
  let sign := if exponent < 0 then '-' else '+'
  'e' :: sign :: (List.replicate (style.exponentDigits - digits.length) '0' ++ digits)

/-- A nonzero decimal as text: by position with the point within or before the digits, up to 21
places before it and five zeros after it, else one digit, the others and an exponent. -/
def digitText (style : Style) (d : Decimal) : List Char :=
  let digits := d.significantDigits
  let place := d.pointPlace
  if 0 < place ∧ place ≤ 21 then
    let before := place.toNat
    if digits.length ≤ before then digits ++ List.replicate (before - digits.length) '0'
    else digits.take before ++ '.' :: digits.drop before
  else if -6 < place ∧ place ≤ 0 then
    '0' :: '.' :: (List.replicate (-place).toNat '0' ++ digits)
  else
    let fraction := match digits.drop 1 with
      | [] => []
      | rest => '.' :: rest
    digits.take 1 ++ fraction ++ exponentText style (place - 1)

end Decimal

namespace Binary64

/-- The shortest text that reads back as the number. Both zeros are written without a sign. -/
def text (style : Decimal.Style) (x : Binary64) : String :=
  match x with
  | nan => "NaN"
  | infinite sign => if sign then "-Infinity" else "Infinity"
  | finite sign steps _ =>
    if steps = 0 then "0"
    else
      let digits := (Decimal.shortest steps).digitText style
      String.ofList (if sign then '-' :: digits else digits)

/-- The number as it stands in messages. -/
def messageText (x : Binary64) : String := x.text .message

/-- The number kept to fifteen leading digits. -/
def toFifteenDigits : Binary64 → Binary64
  | finite sign steps _ =>
    if steps = 0 then ofSteps sign 0 1
    else (Decimal.ofLeading 15 steps).toBinary64 sign
  | x => x

/-- The number as a text cell: fifteen leading digits, then the shortest text of what remains. -/
def cellText (x : Binary64) : String :=
  match x with
  | infinite sign => if sign then "-Inf" else "Inf"
  | x => x.toFifteenDigits.text .cell

end Binary64
end TypedVectors
