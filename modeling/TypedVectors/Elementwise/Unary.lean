import TypedVectors.Elementwise.Binary

/-!
Operations on the cells of one vector: signs, complements, the test for missing cells, and the
conversion to another kind. Names stay with their cells.
-/
namespace TypedVectors.TypedVector

/-- The vector with new cells of a kind and the same names. -/
def withCells (v : TypedVector) (kind : Kind) (cells : List Cell) : TypedVector :=
  make kind (RadixArray.ofList cells) v.names?

/-- A cell with the other sign; integer zero has none. -/
def negatedCell (kind : Kind) : Cell → Cell
  | .number x => .number (if kind = .integer then (-x).unsignedZero else -x)
  | _ => .missing

/-- The vector with the other signs. -/
def negate (v : TypedVector) : Except Error TypedVector := do
  v.requireNumeric .negate
  let kind := v.numericKind
  let cells ← v.toArray.toList.mapM (·.promote v.kind kind)
  return v.withCells kind (cells.map (negatedCell kind))

/-- The opposite truth value; what has none is missing. -/
def complementCell : Cell → Cell
  | .truth value => .truth (!value)
  | _ => .missing

/-- The vector of opposite truth values; numbers are true unless zero. -/
def complement (v : TypedVector) : Except Error TypedVector := do
  v.requireNumeric .complement
  return v.withCells .logical ((v.convertedCells .logical).toList.map complementCell)

/-- Whether a cell is missing or not a number. -/
def isAbsent : Cell → Bool
  | .missing => true
  | .number x => x.isNaN
  | _ => false

/-- Where the vector's cells are missing or not a number. -/
def absences (v : TypedVector) : TypedVector :=
  v.withCells .logical (v.toArray.toList.map fun cell => .truth (isAbsent cell))

/-- The vector in another kind, with a warning about the cells that were lost. -/
def convert (v : TypedVector) (kind : Kind) : TypedVector × List Warning :=
  let converted := v.toArray.toList.map (·.convert v.kind kind)
  let lost := converted.countP (·.lossy)
  (v.withCells kind (converted.map (·.cell)), if lost = 0 then [] else [.lossyConversion lost])

end TypedVectors.TypedVector
