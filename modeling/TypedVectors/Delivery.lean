import TypedVectors.Error

/-!
Delivery of warnings. A call's own handler comes first, then the configured one, then the process.
A handler that throws stops the delivery at its first warning and makes the call fail.
-/
namespace TypedVectors

/-- The handler that a call brings along. -/
inductive CallHandler where
  | recording
  | throwing
  deriving DecidableEq

/-- Who receives a warning. -/
inductive Receiver where
  | call
  | configured (handler : String)
  | process
  deriving DecidableEq

/-- A handler for all calls that bring none along. -/
structure ConfiguredHandler where
  name : String
  throws : Bool
  deriving DecidableEq

/-- The handler configured for all calls; the process receives warnings when there is none. -/
abbrev Configuration := Option ConfiguredHandler

namespace Configuration

def receiver : Configuration → Receiver
  | some handler => .configured handler.name
  | none => .process

/-- The configuration after a call to configure, which changes nothing without a handler. -/
def configure (current : Configuration) (handler? : Option ConfiguredHandler) : Configuration :=
  handler?.or current

/-- Who receives the warnings of a call, and whether they are thrown there. -/
def inForce (configuration : Configuration) : Option CallHandler → Receiver × Bool
  | some handler => (.call, handler = .throwing)
  | none => (configuration.receiver, configuration.any (·.throws))

end Configuration

/-- A warning and who received it. -/
structure Delivery where
  receiver : Receiver
  warning : Warning
  deriving DecidableEq

/-- Hands each warning to its one receiver, in order. -/
def deliver (configuration : Configuration) (handler? : Option CallHandler)
    (warnings : List Warning) : Except Warning (List Delivery) :=
  let (receiver, throws) := configuration.inForce handler?
  match throws, warnings with
  | true, warning :: _ => .error warning
  | _, warnings => .ok (warnings.map (⟨receiver, ·⟩))

end TypedVectors
