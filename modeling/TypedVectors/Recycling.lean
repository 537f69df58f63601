import TypedVectors.Error

/-!
Recycling: shorter operands start over until the longest one ends. A length that does not divide the
longest is told as a warning, and an empty operand fits no other.
-/
namespace TypedVectors.Recycling

/-- The common length of operands, with a warning when a length does not divide it. -/
structure Alignment where
  length : Nat
  warning? : Option Warning
  deriving DecidableEq

/-- The index into an operand of the given length for an output index. -/
def source (length index : Nat) : Nat := index % length

/-- The alignment of operands of the given lengths. -/
def align (lengths : List Nat) : Except Error Alignment :=
  let length := longest lengths
  if length = 0 then .ok ⟨0, none⟩
  else if lengths.contains 0 then .error (.emptyOperand lengths)
  else .ok ⟨length, (lengths.find? fun n => length % n != 0).map (.recycledLength length)⟩

/-- Two operands side by side: their common length, the index into each for an output index, and the
warning. -/
structure Pairing where
  length : Nat
  left : Nat → Nat
  right : Nat → Nat
  warning? : Option Warning

/-- The alignment of two operands of the given lengths. -/
def pair (left right : Nat) : Except Error Pairing :=
  (align [left, right]).map fun alignment =>
    ⟨alignment.length, source left, source right, alignment.warning?⟩

/-- The warning for `given` values over `targets` targets; more values than targets are dropped. -/
def onto (given targets : Nat) : Except Error (Option Warning) :=
  if targets = 0 then .ok none
  else if given = 0 then .error (.emptyReplacement targets)
  else if targets % given = 0 then .ok none
  else .ok (some (.recycledLength (max targets given) (min targets given)))

end TypedVectors.Recycling
