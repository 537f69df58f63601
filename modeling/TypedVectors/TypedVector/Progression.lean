import TypedVectors.Decimal.Basic
import TypedVectors.TypedVector.Basic

/-!
Arithmetic progressions as vectors: `first`, `first + step`, … as far as `last`, which no cell
passes.
-/
namespace TypedVectors.TypedVector

/-- What the count of steps may fall short of a whole number: 10^-10. -/
def stepTolerance : Binary64 := Decimal.toBinary64 false ⟨1, -10⟩

/-- How many cells a progression has. -/
def progressionLength (first last step : Binary64) : Except Error Binary64 :=
  if step.isZero then
    if first.equals last then .ok 1 else .error (.zeroStep first last step)
  else
    let span := (last - first) / step
    if span.lt 0 then .error (.wrongDirection first last step)
    else .ok ((span + stepTolerance).floor + 1)

/-- The cell at an index of a progression, held back to `last`. -/
def progressionCell (first last step : Binary64) (index : Nat) : Binary64 :=
  let x := first + .ofNat index * step
  if Binary64.lt 0 step then x.min last else x.max last

/-- The progression as a vector. The step leads from `first` to `last` by one when none is given.
The kind is integer when the step is whole and the first and the last cell are integers. -/
def progression (first last : Binary64) (step? : Option Binary64) : Except Error TypedVector := do
  if !first.isFinite || !last.isFinite || !(step?.all (·.isFinite)) then
    throw .boundNotFinite
  let step := step?.getD (if first.le last then 1 else -1)
  let length ← progressionLength first last step
  if Binary64.lt (.ofNat lengthLimit) length then
    throw (.sequenceTooLong length)
  let count := (length.toInt?.getD 0).toNat
  let numbers := (List.range count).map (progressionCell first last step)
  let ending := progressionCell first last step (count - 1)
  let kind := if step.isWhole && first.fitsInteger && ending.fitsInteger then .integer else .double
  return make kind (RadixArray.ofList (numbers.map .number)) none

end TypedVectors.TypedVector
