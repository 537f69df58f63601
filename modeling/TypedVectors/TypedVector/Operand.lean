import TypedVectors.TypedVector.Basic

/-!
Operands of operations on vectors, and their concatenation. A cell alone is a vector of length one;
a plain list of cells is a part of the highest kind among them.
-/
namespace TypedVectors

/-- What an operation takes where it reads a vector. -/
inductive Operand where
  | vector (v : TypedVector)
  | scalar (cell : Cell)
  | cells (items : List Cell)

/-- What an operand adds to a concatenation. -/
structure Part where
  kind : Kind
  cells : List Cell
  names? : Option (Array String)

namespace Part

/-- The cells of a part promoted to a kind. -/
def promoted (part : Part) (kind : Kind) : Except Error (List Cell) :=
  part.cells.mapM (·.promote part.kind kind)

/-- A name for every cell of a part, the empty one for parts without names. -/
def allNames (part : Part) : Except Error (List String) :=
  match part.names? with
  | some names => (List.range part.cells.length).mapM (readAt names)
  | none => .ok (List.replicate part.cells.length "")

end Part

namespace Operand

/-- The cells of a plain list stay as they are, also those below the highest kind among them. -/
def part : Operand → Part
  | vector v => ⟨v.kind, v.toArray.toList, v.names?.map (·.toArray)⟩
  | scalar cell => ⟨cell.kindAlone, [cell], none⟩
  | cells items => ⟨Kind.highest (items.map Cell.kindAlone), items, none⟩

/-- One vector of the cells of all operands, of the highest kind among them. It is named when a
part is. -/
def combine (operands : List Operand) : Except Error TypedVector := do
  let parts := operands.map part
  let kind := Kind.highest (parts.map (·.kind))
  let cells ← parts.mapM (·.promoted kind)
  let data := RadixArray.ofList cells.flatten
  if parts.any (·.names?.isSome) then
    let names ← parts.mapM (·.allNames)
    return .make kind data (some (RadixArray.ofList names.flatten))
  else
    return .make kind data none

/-- The vector of an operand: itself, or one made of its cells. -/
def toVector : Operand → Except Error TypedVector
  | vector v => .ok v
  | operand => combine [operand]

end Operand
end TypedVectors
