import TypedVectors.Binary64.Arithmetic
import TypedVectors.Binary64.Power
import TypedVectors.Recycling
import TypedVectors.TypedVector.Operand

/-!
Operators between vectors, cell by cell over recycled operands. Arithmetic and the connectives
refuse text; every operator gives missing for missing operands unless the other operand decides the
result.
-/
namespace TypedVectors

/-- A result cell, and whether it is an integer result that fell outside the range. -/
structure Tallied where
  cell : Cell
  overflow : Bool
  deriving DecidableEq

namespace Tallied

/-- A number as an integer cell; outside the range it is missing and counted. -/
def ofInteger (x : Binary64) : Tallied :=
  if x.fitsInteger then ⟨.number x.unsignedZero, false⟩ else ⟨.missing, true⟩

/-- The warning about the results that fell outside the range. -/
def warning? (results : List Tallied) : Option Warning :=
  let count := results.countP (·.overflow)
  if count = 0 then none else some (.integerOverflow count)

end Tallied

namespace Arithmetic

/-- The operator on numbers. -/
def apply (operator : Arithmetic) (x y : Binary64) : Binary64 :=
  match operator with
  | add => x + y
  | subtract => x - y
  | multiply => x * y
  | divide => x / y
  | power => x ^ y
  | floorMod => x.floorMod y
  | floorDiv => x.floorDiv y

/-- Division and power are always double; otherwise logical operands count as integer. -/
def resultKind (operator : Arithmetic) (left right : Kind) : Kind :=
  match operator with
  | divide | power => .double
  | _ => max (max left right) .integer

/-- Whether one operand alone makes a power one: a zero exponent or a base of one. -/
def isUnitPower (operator : Arithmetic) (x y : Cell) : Bool :=
  operator = power &&
    ((match y with | .number exponent => exponent.isZero | _ => false) || x = .number 1)

/-- Whether the operator divides by zero in the integers. -/
def dividesByZero (operator : Arithmetic) (y : Binary64) : Bool :=
  (operator = floorMod || operator = floorDiv) && y.isZero

/-- The operator on cells of a kind. -/
def cell (operator : Arithmetic) (kind : Kind) (x y : Cell) : Tallied :=
  if operator.isUnitPower x y then ⟨.number 1, false⟩
  else
    match x, y with
    | .number a, .number b =>
      if kind = .integer then
        if operator.dividesByZero b then ⟨.missing, false⟩ else .ofInteger (operator.apply a b)
      else ⟨.number (operator.apply a b), false⟩
    | _, _ => ⟨.missing, false⟩

end Arithmetic

/-- The number a cell compares as beside a cell that is no text. -/
def Cell.looseNumber : Cell → Binary64
  | missing => .nan
  | truth value => numberOfTruth value
  | number x => x
  | text value => Numeral.readLoosely value

/-- The order of two cells: texts by their units, all others as numbers. Missing cells and
not-a-number have no order. -/
def Cell.compare? : Cell → Cell → Option Ordering
  | missing, _ | _, missing => none
  | text s, text t => some (Text.compare s t)
  | x, y => x.looseNumber.compare? y.looseNumber

/-- Whether a comparison holds of operands in the given order. -/
def Comparison.holds (operator : Comparison) (order : Ordering) : Bool :=
  match operator with
  | less => order = .lt
  | lessOrEqual => order ≠ .gt
  | greater => order = .gt
  | greaterOrEqual => order ≠ .lt
  | equal => order = .eq
  | unequal => order ≠ .eq

/-- The comparison of cells. -/
def Comparison.cell (operator : Comparison) (x y : Cell) : Cell :=
  match x.compare? y with
  | some order => .truth (operator.holds order)
  | none => .missing

/-- The connective on truth values of three kinds: false decides a conjunction and true a
disjunction, also beside a missing cell. -/
def Connective.cell (operator : Connective) (x y : Cell) : Cell :=
  let deciding : Bool := operator = .or
  if x = .truth deciding || y = .truth deciding then .truth deciding
  else if x.isMissing || y.isMissing then .missing
  else .truth (!deciding)

namespace Operator

/-- The kind of the result, from the kinds of the operands. -/
def resultKind (operator : Operator) (left right : Kind) : Kind :=
  match operator with
  | arithmetic operator => operator.resultKind left right
  | comparison _ | connective _ => .logical

/-- The kind that the operands are converted to. -/
def operandKind (operator : Operator) (left right : Kind) : Kind :=
  match operator with
  | arithmetic operator => operator.resultKind left right
  | comparison _ => max left right
  | connective _ => .logical

/-- The operator on cells of the operand kind. -/
def cell (operator : Operator) (kind : Kind) (x y : Cell) : Tallied :=
  match operator with
  | arithmetic operator => operator.cell kind x y
  | comparison operator => ⟨operator.cell x y, false⟩
  | connective operator => ⟨operator.cell x y, false⟩

/-- Whether the operator takes text. -/
def takesText : Operator → Bool
  | comparison _ => true
  | arithmetic _ | connective _ => false

end Operator

namespace TypedVector

/-- Refuses a character vector. -/
def requireNumeric (v : TypedVector) (operation : Operation) : Except Error Unit :=
  if v.kind = .character then .error (.nonNumeric operation) else .ok ()

/-- Arithmetic on one vector makes integers of logical cells. -/
def numericKind (v : TypedVector) : Kind := if v.kind = .double then .double else .integer

/-- The names of the first operand that is named and as long as the result. -/
def resultNames? (operands : List TypedVector) (length : Nat) : Option (RadixArray String) :=
  (operands.find? fun v => v.names?.isSome && v.length = length).bind (·.names?)

/-- The cells converted to a kind. -/
def convertedCells (v : TypedVector) (kind : Kind) : Array Cell :=
  v.toArray.map fun cell => (cell.convert v.kind kind).cell

/-- The result of an operator between two vectors, with the warnings in their order. -/
def binary (operator : Operator) (left right : TypedVector) :
    Except Error (TypedVector × List Warning) := do
  if !operator.takesText then
    left.requireNumeric (.binary operator)
    right.requireNumeric (.binary operator)
  let kind := operator.operandKind left.kind right.kind
  let alignment ← Recycling.align [left.length, right.length]
  let xs := left.convertedCells kind
  let ys := right.convertedCells kind
  let results ← (List.range alignment.length).mapM fun index => do
    let x ← readAt xs (Recycling.source xs.size index)
    let y ← readAt ys (Recycling.source ys.size index)
    return operator.cell kind x y
  let result := make (operator.resultKind left.kind right.kind)
    (RadixArray.ofList (results.map (·.cell))) (resultNames? [left, right] alignment.length)
  return (result, alignment.warning?.toList ++ (Tallied.warning? results).toList)

end TypedVector
end TypedVectors
