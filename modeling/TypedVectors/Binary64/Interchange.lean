import TypedVectors.Binary64.Basic

/-!
The 64 bit interchange word of a double precision number: a sign bit, eleven exponent bits and 52
fraction bits. Exponent zero counts single steps; each further exponent doubles the spacing.
-/
namespace TypedVectors.Binary64

/-- The number that a 64 bit word stands for; all words of not-a-number read as one. -/
def ofWord (word : Nat) : Binary64 :=
  let sign := word / twoTo 63 % 2 == 1
  let exponent := word / twoTo 52 % twoTo 11
  let fraction := word % twoTo 52
  if exponent = 2047 then
    if fraction = 0 then infinite sign else nan
  else if exponent = 0 then
    ofSteps sign fraction 1
  else
    ofSteps sign ((twoTo 52 + fraction) * twoTo (exponent - 1)) 1

/-- The fields below the sign bit of a finite magnitude. -/
def magnitudeWord (steps : Nat) : Nat :=
  if steps < twoTo 52 then steps
  else
    let shift := binaryLog steps - 52
    (shift + 1) * twoTo 52 + (steps / twoTo shift - twoTo 52)

/-- The 64 bit word of a number; not-a-number is the quiet one without further bits. -/
def toWord (x : Binary64) : Nat :=
  let signBit := if x.negative then twoTo 63 else 0
  match x with
  | nan => 2047 * twoTo 52 + twoTo 51
  | infinite _ => signBit + 2047 * twoTo 52
  | finite _ steps _ => signBit + magnitudeWord steps

end TypedVectors.Binary64
