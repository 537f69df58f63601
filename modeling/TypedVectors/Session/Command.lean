import TypedVectors.Delivery
import TypedVectors.Elementwise.Function
import TypedVectors.Selection.Resolution

/-!
Commands: what a session can be asked, and what it replies.
-/
namespace TypedVectors

/-- Where a command takes a vector from. -/
inductive Source where
  | variable (name : String)
  | literal (kind : Kind) (cells : List Cell) (names? : Option (List Cell))

/-- Where a command takes an operand or a selector from. -/
inductive OperandSource where
  | vector (source : Source)
  | scalar (cell : Cell)
  | cells (items : List Cell)

/-- What a command names a vector with. -/
inductive NamesSource where
  | none
  | cells (items : List Cell)
  | vector (source : Source)

inductive Command where
  | build (source : Source)
  | blank (kind : Kind)
  | combine (operands : List OperandSource)
  | vector (operand : OperandSource)
  | isVector (operand : OperandSource)
  | progression (first last : Binary64) (step? : Option Binary64)
  | repeated (operand : OperandSource) (times : Binary64) (each? : Option Binary64)
  | length (source : Source)
  | kind (source : Source)
  | cells (source : Source)
  | cellAt (source : Source) (position : Binary64)
  | names (source : Source)
  | setNames (source : Source) (names : NamesSource)
  | placeOf (source : Source) (name : String)
  | placesOf (source : Source) (name : String)
  | resolve (source : Source) (selector : OperandSource) (access : Access)
  | extract (source : Source) (selector : OperandSource)
  | copy (source : Source)
  | assign (source : Source) (selector value : OperandSource) (handler? : Option CallHandler)
  | binary (operator : Operator) (left right : OperandSource) (handler? : Option CallHandler)
  | apply (f : ElementFunction) (operands : List OperandSource) (handler? : Option CallHandler)
  | roundTo (operand places : OperandSource) (handler? : Option CallHandler)
  | negate (operand : OperandSource)
  | complement (operand : OperandSource)
  | absences (operand : OperandSource)
  | convert (operand : OperandSource) (kind : Kind) (handler? : Option CallHandler)
  /-- A handler for all calls from now on, which may throw what it receives. -/
  | configure (handler? : Option String) (throws : Bool := false)
  | reset

/-- What a command answers. -/
inductive Answer where
  | vector (v : TypedVector)
  | noVector
  | cell (cell : Cell)
  | cells (items : List Cell)
  | kind (kind : Kind)
  | count (n : Nat)
  | flag (value : Bool)
  | place (place? : Option Nat)
  | places (places? : Option (List Nat))
  | resolution (resolution : Resolution)
  | done

/-- Why a command has no answer. -/
inductive Failure where
  | error (error : Error)
  | thrown (warning : Warning)
  | unknownVariable (name : String)
  deriving DecidableEq

/-- An answer with the warnings that were delivered, or a failure. -/
abbrev Reply := Except Failure (Answer × List Delivery)

end TypedVectors
