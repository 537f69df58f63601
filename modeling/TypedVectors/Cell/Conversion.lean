import TypedVectors.Binary64.Arithmetic
import TypedVectors.Error
import TypedVectors.Numeral

/-!
Cells from one kind to another. Promotion goes up the order of kinds and loses nothing; conversion
goes either way and says when it loses a present cell.
-/
namespace TypedVectors.Cell

/-- A cell of one kind in a kind that is not below it: truth values become one and zero, and
anything present becomes text. -/
def raise (source target : Kind) (cell : Cell) : Cell :=
  if source = target then cell
  else
    match target, cell with
    | .integer, truth value | .double, truth value => number (numberOfTruth value)
    | .character, present => (present.rendered?.map text).getD missing
    | _, other => other

/-- A cell promoted to another kind; to a lower kind there is no promotion. -/
def promote (source target : Kind) (cell : Cell) : Except Error Cell :=
  if target.rank < source.rank then .error (.narrowing source target)
  else .ok (cell.raise source target)

/-- A converted cell, and whether a present cell was lost for want of a value. -/
structure Converted where
  cell : Cell
  lossy : Bool
  deriving DecidableEq

/-- The words that convert to a truth value. -/
def truthOfWord? (word : String) : Option Bool :=
  if ["TRUE", "true", "T", "True"].contains word then some true
  else if ["FALSE", "false", "F", "False"].contains word then some false
  else none

/-- The truth value of a cell: numbers are true unless zero; what has none is missing. -/
def toTruth : Cell → Cell
  | text word => ((truthOfWord? word).map truth).getD missing
  | number x => if x.isNaN then missing else truth (!x.isZero)
  | other => other

/-- A number cut to a whole number; outside the range of integers it is lost. -/
def integerOfNumber (x : Binary64) : Converted :=
  if x.isNaN then ⟨missing, false⟩
  else if x.trunc.fitsInteger then ⟨number x.trunc.unsignedZero, false⟩
  else ⟨missing, true⟩

/-- Whether a text is the mark of a missing cell, blanks at its ends aside. -/
def isMissingMark (word : String) : Bool := Text.trim word.toList == ['N', 'A']

/-- A cell as an integer cell. -/
def toInteger : Cell → Converted
  | text word =>
    match Numeral.read? word with
    | some x => integerOfNumber x
    | none => ⟨missing, !isMissingMark word⟩
  | number x => integerOfNumber x
  | truth value => ⟨number (numberOfTruth value), false⟩
  | missing => ⟨missing, false⟩

/-- A cell as a double cell. -/
def toDouble : Cell → Converted
  | text word =>
    match Numeral.read? word with
    | some x => ⟨number x, false⟩
    | none => ⟨missing, !isMissingMark word⟩
  | truth value => ⟨number (numberOfTruth value), false⟩
  | other => ⟨other, false⟩

/-- A cell of one kind in any other kind. -/
def convert (source target : Kind) (cell : Cell) : Converted :=
  if cell.isMissing then ⟨missing, false⟩
  else if source.rank ≤ target.rank then ⟨cell.raise source target, false⟩
  else
    match target with
    | .logical => ⟨cell.toTruth, false⟩
    | .integer => cell.toInteger
    | .double => cell.toDouble
    | .character => ⟨cell.raise source target, false⟩

end TypedVectors.Cell
