import TypedVectors.Decimal.Text
import TypedVectors.Kind

/-!
Cells, the single elements of vectors. A missing cell belongs to every kind; integer and double
cells are both double precision numbers.
-/
namespace TypedVectors

/-- The largest magnitude of an integer cell. -/
def integerLimit : Nat := 2147483647

/-- Whether a number is whole and within the range of integer cells. -/
def Binary64.fitsInteger (x : Binary64) : Bool := x.toInt?.any (·.natAbs ≤ integerLimit)

inductive Cell where
  | missing
  | truth (value : Bool)
  | number (value : Binary64)
  | text (value : String)
  deriving DecidableEq

namespace Cell

instance : Inhabited Cell := ⟨missing⟩

def isMissing : Cell → Bool
  | missing => true
  | _ => false

/-- The kind of the vector that a cell alone makes. -/
def kindAlone : Cell → Kind
  | missing | truth _ => .logical
  | number _ => .double
  | text _ => .character

/-- Whether a cell may stand in a vector of the given kind. -/
def belongsTo (kind : Kind) : Cell → Bool
  | missing => true
  | truth _ => kind = .logical
  | number x => kind = .double || (kind = .integer && x.fitsInteger)
  | text _ => kind = .character

/-- A cell as it stands in messages. -/
def messageText : Cell → String
  | missing => "NA"
  | truth value => if value then "true" else "false"
  | number x => x.messageText
  | text value => value

/-- The text a present cell becomes in a character vector; none for a missing one. -/
def rendered? : Cell → Option String
  | missing => none
  | truth value => some (if value then "TRUE" else "FALSE")
  | number x => some x.cellText
  | text value => some value

/-- The number of a truth value. -/
def numberOfTruth (value : Bool) : Binary64 := if value then 1 else 0

end Cell
end TypedVectors
