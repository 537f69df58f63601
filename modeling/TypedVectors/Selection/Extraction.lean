import TypedVectors.RadixArray.Reader
import TypedVectors.Selection.Resolution

/-!
Extraction: the selected cells as a new vector, in the order of the selector.
-/
namespace TypedVectors.TypedVector

/-- The index of a target within a length; targets past the end are as missing ones. -/
def insideIndex (length : Nat) : Target → Int
  | .missing => -1
  | .place index => if index < length then index else -1

/-- The cells that a selector addresses. A target without a cell gives a missing one and, in a named
vector, the empty name. -/
def extract (v : TypedVector) (selector : Selector) : Except Error TypedVector := do
  let resolution ← selector.resolve v .read
  let indices := resolution.targets.map (insideIndex v.length)
  let cells := (v.cells.readAll indices).map (·.getD .missing)
  let names? := v.names?.map fun names => (names.readAll indices).map (·.getD "")
  return make v.kind (RadixArray.ofList cells) (names?.map RadixArray.ofList)

end TypedVectors.TypedVector
