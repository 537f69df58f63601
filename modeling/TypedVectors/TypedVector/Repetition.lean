import TypedVectors.TypedVector.Operand

/-!
Repetition: each cell so many times in a row, and all of that so many times over.
-/
namespace TypedVectors

/-- Every item `each` times, the whole `times` times. Nothing is copied of an empty row. -/
def cycled {α : Type} (each times : Nat) (items : List α) : List α :=
  let row := items.flatMap (List.replicate each)
  if row.isEmpty then [] else (List.replicate times row).flatten

/-- The most items that can be put one after another. -/
def rowLimit : Nat := 4294967295

/-- How often a loop runs that counts up to a limit in double precision. Its counter gets to 2⁵³ and
no further, so that it never reaches a limit past that. -/
def rounds (limit : Nat) : Except Error Nat :=
  if limit ≤ twoTo 53 then .ok limit else .error .endless

/-- A count of repetitions, which must be whole and not negative. -/
def RepeatCount.read (count : RepeatCount) (value : Binary64) : Except Error Nat :=
  match value.toInt? with
  | some (.ofNat n) => .ok n
  | _ => .error (.invalidCount count value)

/-- The cells and names of an operand repeated. Where nothing is repeated the counts are not
bounded, so that the row, though it is taken no times, may be too long, or the cycles, though they
are empty, too many. -/
def Operand.repeated (operand : Operand) (times each : Binary64) : Except Error TypedVector := do
  let timesCount ← RepeatCount.times.read times
  let eachCount ← RepeatCount.each.read each
  let source ← operand.toVector
  let total := Binary64.ofNat source.length * each * times
  if Binary64.lt (.ofNat lengthLimit) total then
    throw (.repeatTooLong total)
  if rowLimit < source.length * eachCount then
    throw .rowTooLong
  let cycles ← rounds timesCount
  let cells := cycled eachCount cycles source.toArray.toList
  let names? := source.names?.map fun names => cycled eachCount cycles names.toList
  return .make source.kind (RadixArray.ofList cells) (names?.map RadixArray.ofList)

end TypedVectors
