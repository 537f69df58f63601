import TypedVectors.Cell.Basic
import TypedVectors.Operator

/-!
The causes for which an operation on vectors fails, with their codes and messages.
-/
namespace TypedVectors

/-- The two counts of a repetition. -/
inductive RepeatCount where
  | times
  | each
  deriving DecidableEq

def RepeatCount.name : RepeatCount → String
  | times => "times"
  | each => "each"

/-- The longest of some lengths; zero when there are none. -/
def longest (lengths : List Nat) : Nat := lengths.foldl max 0

inductive Error where
  /-- Positions above and below zero in one selector. -/
  | mixedSigns
  /-- A step of zero between different bounds. -/
  | zeroStep (first last step : Binary64)
  /-- A step that leads away from the last bound. -/
  | wrongDirection (first last step : Binary64)
  /-- An empty operand beside one that is not. -/
  | emptyOperand (lengths : List Nat)
  /-- No value for at least one target. -/
  | emptyReplacement (targets : Nat)
  /-- Numbers, truth values and names in one selector. -/
  | mixedSelector
  | infinitePosition (negative : Bool)
  /-- A missing entry among positions to leave out. -/
  | missingExclusion
  /-- A missing entry in a selector of targets. -/
  | missingTarget
  /-- A cell at a position from one that is not of the vector's kind. -/
  | foreignCell (position : Nat) (cell : Cell) (kind : Kind)
  | tooManyNames (given length : Nat)
  | boundNotFinite
  | sequenceTooLong (length : Binary64)
  | invalidCount (count : RepeatCount) (value : Binary64)
  | repeatTooLong (length : Binary64)
  /-- A row of repeated items that no sequence can hold. -/
  | rowTooLong
  /-- A loop that never ends. Who runs into it gets no answer. -/
  | endless
  | growthTooLong (length : Nat)
  | noOperands
  /-- An element function gave a cell that is not of its kind. -/
  | foreignResult (cell : Cell) (kind : Kind)
  | nonNumeric (operation : Operation)
  /-- A promotion to a lower kind. -/
  | narrowing (source target : Kind)
  /-- A write outside a sequence. -/
  | outOfBounds (index : Int) (length : Nat)
  /-- A computed index at which there is nothing to read. -/
  | unreadable (index : Nat)
  /-- Not-a-number as a position, where the tree has no leaf. -/
  | noLeaf
  deriving DecidableEq

namespace Error

/-- The code of a cause. Those that no check of an operation finds have none. -/
def code? : Error → Option String
  | mixedSigns => some "MIXED_SIGN_INDEX"
  | zeroStep .. | wrongDirection .. => some "INVALID_STEP"
  | emptyOperand _ | emptyReplacement _ => some "INCOMPATIBLE_LENGTH"
  | mixedSelector | infinitePosition _ | missingExclusion | missingTarget => some "INVALID_INDEX"
  | foreignCell .. | tooManyNames .. | boundNotFinite | sequenceTooLong _ | invalidCount ..
  | repeatTooLong _ | growthTooLong _ | noOperands | foreignResult .. => some "INVALID_ARGUMENT"
  | nonNumeric _ => some "NON_NUMERIC_ARGUMENT"
  | narrowing .. => some "COERCION_DIRECTION"
  | rowTooLong | endless | outOfBounds .. | unreadable _ | noLeaf => none

def message : Error → String
  | mixedSigns => "can't mix positive and negative subscripts"
  | zeroStep first last _ =>
    "step is zero but from (" ++ first.messageText ++ ") differs from to (" ++ last.messageText ++
      ")"
  | wrongDirection first last step =>
    "wrong sign in step (" ++ step.messageText ++ ") for " ++ first.messageText ++ " to " ++
      last.messageText
  | emptyOperand lengths =>
    "cannot recycle a zero-length operand against length " ++ toString (longest lengths)
  | emptyReplacement targets =>
    "replacement has length zero for " ++ toString targets ++ " targets"
  | mixedSelector => "index mixes numbers, booleans and names"
  | infinitePosition negative => "infinite index " ++ (Binary64.infinite negative).messageText
  | missingExclusion => "can't mix missing values with negative subscripts"
  | missingTarget => "missing values are not allowed in subscripted assignments"
  | foreignCell position cell kind =>
    "element " ++ toString position ++ " (" ++ cell.messageText ++ ") is not a valid " ++
      kind.name ++ " value"
  | tooManyNames given length =>
    toString given ++ " names given for a vector of length " ++ toString length
  | boundNotFinite => "sequence bounds and step must be finite numbers"
  | sequenceTooLong length => "sequence of length " ++ length.messageText ++ " is too long"
  | invalidCount count value =>
    count.name ++ " must be a non-negative whole number, got " ++ value.messageText
  | repeatTooLong length => "repeat of length " ++ length.messageText ++ " is too long"
  | rowTooLong => "Invalid array length"
  | endless => "Endless loop"
  | growthTooLong length =>
    "cannot grow a vector to length " ++ (Binary64.ofNat length).messageText
  | noOperands => "elementwiseApply needs at least one vector"
  | foreignResult cell kind =>
    "function returned " ++ cell.messageText ++ " for a " ++ kind.name ++ " result"
  | nonNumeric operation => "non-numeric argument to " ++ operation.text
  | narrowing source target =>
    "cannot implicitly coerce " ++ source.name ++ " down to " ++ target.name
  | outOfBounds index length =>
    "Index " ++ toString index ++ " out of bounds for length " ++ toString length
  | unreadable index => "Nothing to read at index " ++ toString index
  | noLeaf => "Cannot read properties of undefined (reading 'kind')"

end Error

/-- The item at a computed index. -/
def readAt {α : Type} (xs : Array α) (index : Nat) : Except Error α :=
  match xs[index]? with
  | some x => .ok x
  | none => .error (.unreadable index)

/-- What an operation tells about a result that it gives all the same. -/
inductive Warning where
  /-- A shorter length does not divide a longer one. -/
  | recycledLength (longer shorter : Nat)
  /-- How many present cells a conversion made missing. -/
  | lossyConversion (count : Nat)
  /-- How many integer results fell outside the range of integers. -/
  | integerOverflow (count : Nat)
  deriving DecidableEq

namespace Warning

def code : Warning → String
  | recycledLength .. => "RECYCLE_LENGTH"
  | lossyConversion _ => "COERCION_NA"
  | integerOverflow _ => "INTEGER_OVERFLOW"

def message : Warning → String
  | recycledLength longer shorter =>
    "longer object length (" ++ toString longer ++
      ") is not a multiple of shorter object length (" ++ toString shorter ++ ")"
  | lossyConversion count => "NAs introduced by coercion (" ++ toString count ++ ")"
  | integerOverflow count => "NAs produced by integer overflow (" ++ toString count ++ ")"

end Warning
end TypedVectors
