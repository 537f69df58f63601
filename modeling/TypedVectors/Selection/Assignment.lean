import TypedVectors.RadixArray.Update
import TypedVectors.Recycling
import TypedVectors.Selection.Resolution

/-!
Assignment: writes values to the selected targets. The vector is promoted to the kind of the values
when that is higher and grows to the highest target. Everything that can fail is done before.
-/
namespace TypedVectors

/-- A write that a sequence refused, as an error of the vector. -/
def RadixArray.Fault.toError : RadixArray.Fault → Error
  | outOfBounds index size => .outOfBounds index size
  | missingBranch index => .unreadable index

namespace TypedVector

/-- The cells promoted to a kind; of the same kind they are left as they are. -/
def promotedCells (v : TypedVector) (kind : Kind) : Except Error (RadixArray Cell) :=
  if kind = v.kind then .ok v.cells
  else do
    let cells ← v.toArray.toList.mapM (·.promote v.kind kind)
    return RadixArray.ofList cells

/-- The names after a write: new places carry the names that the write made, or else the empty name.
A vector without names gets them when the write made one. -/
def grownNames? (v : TypedVector) (resolution : Resolution) : Option (RadixArray String) :=
  let base? := match v.names? with
    | some names => some names
    | none =>
      if resolution.grown.isEmpty then none
      else some (RadixArray.ofList (List.replicate v.length ""))
  let made := Std.HashMap.ofList resolution.grown
  base?.map fun names => names.grow resolution.highest fun index => (made[index]?).getD ""

/-- Whether a write leaves the names as they are. -/
def keepsNames (v : TypedVector) (resolution : Resolution) : Bool :=
  match v.names? with
  | some names => resolution.highest ≤ names.size
  | none => resolution.grown.isEmpty

/-- Writes the value of each target, recycled, one after another. -/
def writeAll (values : Array Cell) (targets : List Target) (cells : RadixArray Cell) :
    Except Error (RadixArray Cell) :=
  targets.zipIdx.foldlM (fun cells (target, index) => do
    let value ← readAt values (Recycling.source values.size index)
    match cells.set target.index value with
    | .ok cells => .ok cells
    | .error fault => .error fault.toError) cells

/-- The vector with values written to the targets of a selector, and the warning to tell. Without
targets nothing changes. -/
def assign (v : TypedVector) (selector : Selector) (value : TypedVector) :
    Except Error (TypedVector × Option Warning) := do
  let resolution ← selector.resolve v .write
  if resolution.targets.isEmpty then
    return (v, none)
  if lengthLimit < resolution.highest then
    throw (.growthTooLong resolution.highest)
  let warning? ← Recycling.onto value.length resolution.targets.length
  let kind := max v.kind value.kind
  let values ← value.toArray.toList.mapM (·.promote value.kind kind)
  let cells ← v.promotedCells kind
  let cells := cells.grow resolution.highest fun _ => .missing
  let cells ← writeAll values.toArray resolution.targets cells
  let index? := if v.keepsNames resolution then v.index? else none
  return (⟨kind, cells, v.grownNames? resolution, index?⟩, warning?)

end TypedVector
end TypedVectors
