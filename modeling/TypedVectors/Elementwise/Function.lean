import TypedVectors.Elementwise.Binary

/-!
Functions of elements applied to recycled vectors, cell by cell.
-/
namespace TypedVectors

/-- A function of cells with the kind of its results. A function that propagates missing cells is
not asked where an argument is missing. -/
structure ElementFunction where
  kind : Kind
  propagates : Bool
  compute : List Cell → Cell

namespace ElementFunction

/-- The result at one place; it must be of the function's kind. -/
def result (f : ElementFunction) (arguments : List Cell) : Except Error Cell :=
  if f.propagates && arguments.any (·.isMissing) then .ok .missing
  else
    let cell := f.compute arguments
    if cell.belongsTo f.kind then .ok cell else .error (.foreignResult cell f.kind)

/-- The function applied to the cells of vectors, with the warning to tell. -/
def apply (f : ElementFunction) (operands : List TypedVector) :
    Except Error (TypedVector × List Warning) := do
  if operands.isEmpty then
    throw .noOperands
  let columns := operands.map (·.toArray)
  let alignment ← Recycling.align (operands.map (·.length))
  let cells ← (List.range alignment.length).mapM fun index => do
    let arguments ← columns.mapM fun column => readAt column (Recycling.source column.size index)
    f.result arguments
  let result := TypedVector.make f.kind (RadixArray.ofList cells)
    (TypedVector.resultNames? operands alignment.length)
  return (result, alignment.warning?.toList)

/-- The sum of the numbers among the arguments, truth values counting one and zero. -/
def sum (arguments : List Cell) : Cell :=
  .number <| arguments.foldl (fun total argument =>
    match argument with
    | .number x => total + x
    | .truth value => total + Cell.numberOfTruth value
    | .missing | .text _ => total) 0

end ElementFunction
end TypedVectors
