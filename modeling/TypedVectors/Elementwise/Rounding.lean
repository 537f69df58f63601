import TypedVectors.Binary64.Places
import TypedVectors.Elementwise.Binary

/-!
Rounding of vectors to decimal places, which are recycled like any operand.
-/
namespace TypedVectors.TypedVector

/-- A cell rounded to the places of another one; missing places or not-a-number give missing. -/
def roundedCell (kind : Kind) (value places : Cell) : Tallied :=
  match value, places with
  | .number x, .number digits =>
    if digits.isNaN then ⟨.missing, false⟩
    else
      let rounded := x.roundTo digits.trunc
      if kind = .integer then .ofInteger rounded else ⟨.number rounded, false⟩
  | _, _ => ⟨.missing, false⟩

/-- The vector rounded to recycled places, with the warnings in their order. -/
def roundTo (v places : TypedVector) : Except Error (TypedVector × List Warning) := do
  v.requireNumeric .round
  places.requireNumeric .round
  let kind := v.numericKind
  let xs ← v.toArray.mapM (·.promote v.kind kind)
  let digits ← places.toArray.mapM (·.promote places.kind .double)
  let alignment ← Recycling.align [xs.size, digits.size]
  let results ← (List.range alignment.length).mapM fun index => do
    let x ← readAt xs (Recycling.source xs.size index)
    let d ← readAt digits (Recycling.source digits.size index)
    return roundedCell kind x d
  let result := make kind (RadixArray.ofList (results.map (·.cell)))
    (resultNames? [v] alignment.length)
  return (result, alignment.warning?.toList ++ (Tallied.warning? results).toList)

end TypedVectors.TypedVector
