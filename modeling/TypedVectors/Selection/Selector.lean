import TypedVectors.TypedVector.Operand

/-!
Selectors: positions from one, positions to leave out, a mask, or names. What a selector is follows
from the kind of the vector it is given as, or from the cells that are not missing.
-/
namespace TypedVectors

/-- A selector; a missing entry is none. -/
inductive Selector where
  | positions (entries : List (Option Binary64))
  | mask (entries : List (Option Bool))
  | names (entries : List (Option String))

namespace Selector

/-- The cells as positions; what is no number is missing. -/
def ofNumbers (cells : List Cell) : Selector :=
  positions <| cells.map fun
    | .number x => some x
    | _ => none

/-- The cells as a mask; what is no truth value is missing. -/
def ofTruths (cells : List Cell) : Selector :=
  mask <| cells.map fun
    | .truth value => some value
    | _ => none

/-- The cells as names; what is no text is missing. -/
def ofTexts (cells : List Cell) : Selector :=
  names <| cells.map fun
    | .text name => some name
    | _ => none

/-- The selector of plain cells, all of one sort. No cells are positions; missing ones are a
mask. -/
def ofCells (cells : List Cell) : Except Error Selector :=
  let present := cells.filter (!·.isMissing)
  if cells.isEmpty || (!present.isEmpty && present.all (·.kindAlone = .double)) then
    .ok (ofNumbers cells)
  else if present.all (·.kindAlone = .logical) then .ok (ofTruths cells)
  else if present.all (·.kindAlone = .character) then .ok (ofTexts cells)
  else .error .mixedSelector

/-- The selector of an operand. -/
def ofOperand : Operand → Except Error Selector
  | .vector v =>
    let cells := v.toArray.toList
    match v.kind with
    | .logical => .ok (ofTruths cells)
    | .character => .ok (ofTexts cells)
    | .integer | .double => .ok (ofNumbers cells)
  | .scalar cell => ofCells [cell]
  | .cells cells => ofCells cells

/-- Whether resolving the selector searches for names. -/
def searchesNames : Selector → Bool
  | names _ => true
  | _ => false

end Selector
end TypedVectors
