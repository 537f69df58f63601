import TypedVectors.Elementwise.Rounding
import TypedVectors.Elementwise.Unary
import TypedVectors.Selection.Assignment
import TypedVectors.Selection.Extraction
import TypedVectors.Session.Command
import TypedVectors.TypedVector.Progression
import TypedVectors.TypedVector.Repetition

/-!
Sessions: named vectors that a sequence of commands reads, makes and writes. A command that fails
leaves the vectors as they are; an assignment whose warning is thrown has written nonetheless.
-/
namespace TypedVectors

/-- The vectors by name, and the handler configured. -/
structure Session where
  vectors : List (String × TypedVector)
  configuration : Configuration

namespace Session

/-- No vectors and no handler. -/
def initial : Session := ⟨[], none⟩

/-- The session with a vector under a name. -/
def store (session : Session) (name : String) (v : TypedVector) : Session :=
  { session with vectors := (name, v) :: session.vectors.filter (·.1 != name) }

/-- The session after a change to the vector of a source; a literal is in no variable. -/
def update (session : Session) (source : Source) (v : TypedVector) : Session :=
  match source with
  | .variable name => session.store name v
  | .literal .. => session

/-- A step that can fail with an error of the vectors. -/
def attempt {α : Type} (result : Except Error α) : Except Failure α := result.mapError .error

/-- The vector of a source. -/
def read (session : Session) : Source → Except Failure TypedVector
  | .variable name =>
    match session.vectors.lookup name with
    | some v => .ok v
    | none => .error (.unknownVariable name)
  | .literal kind cells names? => attempt (TypedVector.build kind cells names?)

/-- The operand of a source. -/
def operand (session : Session) : OperandSource → Except Failure Operand
  | .vector source => (session.read source).map .vector
  | .scalar cell => .ok (.scalar cell)
  | .cells items => .ok (.cells items)

/-- The vector of an operand's source. -/
def operandVector (session : Session) (source : OperandSource) : Except Failure TypedVector := do
  attempt (← session.operand source).toVector

/-- The selector of a source. -/
def selector (session : Session) (source : OperandSource) : Except Failure Selector := do
  attempt (Selector.ofOperand (← session.operand source))

/-- A reply of a vector and its warnings. -/
def tell (session : Session) (handler? : Option CallHandler) (v : TypedVector)
    (warnings : List Warning) : Reply := do
  let deliveries ← (deliver session.configuration handler? warnings).mapError .thrown
  return (.vector v, deliveries)

/-- The reply to a command that changes no vector. -/
def answer (session : Session) : Command → Reply
  | .build source => do
    return (.vector (← session.read source), [])
  | .blank kind => .ok (.vector (.blank kind), [])
  | .combine sources => do
    let operands ← sources.mapM session.operand
    return (.vector (← attempt (Operand.combine operands)), [])
  | .vector source => do
    return (.vector (← session.operandVector source), [])
  | .isVector source => do
    match ← session.operand source with
    | .vector _ => return (.flag true, [])
    | _ => return (.flag false, [])
  | .progression first last step? => do
    return (.vector (← attempt (TypedVector.progression first last step?)), [])
  | .repeated source times each? => do
    let operand ← session.operand source
    return (.vector (← attempt (operand.repeated times (each?.getD 1))), [])
  | .length source => do
    return (.count (← session.read source).length, [])
  | .kind source => do
    return (.kind (← session.read source).kind, [])
  | .cells source => do
    return (.cells (← session.read source).toArray.toList, [])
  | .cellAt source position => do
    return (.cell (← attempt ((← session.read source).cellAt position)), [])
  | .names source => do
    match (← session.read source).namesVector? with
    | some names => return (.vector names, [])
    | none => return (.noVector, [])
  | .setNames source .none => do
    return (.vector (← session.read source).withoutNames, [])
  | .setNames source (.cells items) => do
    return (.vector (← attempt ((← session.read source).withNames items)), [])
  | .setNames source (.vector names) => do
    let v ← session.read source
    return (.vector (← attempt (v.withNamesOf (← session.read names))), [])
  | .placeOf source name => do
    return (.place ((← session.read source).placeOf? name), [])
  | .placesOf source name => do
    return (.places ((← session.read source).placesOf? name), [])
  | .resolve source selector access => do
    let v ← session.read source
    let selector ← session.selector selector
    return (.resolution (← attempt (selector.resolve v access)), [])
  | .extract source selector => do
    let v ← session.read source
    let selector ← session.selector selector
    return (.vector (← attempt (v.extract selector)), [])
  | .copy source => do
    return (.vector (← session.read source).copy, [])
  | .binary operator left right handler? => do
    let left ← session.operand left
    let right ← session.operand right
    let (v, warnings) ← attempt do
      TypedVector.binary operator (← left.toVector) (← right.toVector)
    session.tell handler? v warnings
  | .apply f sources handler? => do
    let operands ← sources.mapM session.operand
    let (v, warnings) ← attempt do f.apply (← operands.mapM Operand.toVector)
    session.tell handler? v warnings
  | .roundTo operand places handler? => do
    let operand ← session.operand operand
    let places ← session.operand places
    let (v, warnings) ← attempt do
      TypedVector.roundTo (← operand.toVector) (← places.toVector)
    session.tell handler? v warnings
  | .negate source => do
    return (.vector (← attempt (← session.operandVector source).negate), [])
  | .complement source => do
    return (.vector (← attempt (← session.operandVector source).complement), [])
  | .absences source => do
    return (.vector (← session.operandVector source).absences, [])
  | .convert source kind handler? => do
    let (v, warnings) := (← session.operandVector source).convert kind
    session.tell handler? v warnings
  | .assign .. | .configure .. | .reset => .ok (.done, [])

/-- The assignment of a command, before its warning is delivered. -/
def assignment (session : Session) (source : Source) (selector value : OperandSource) :
    Except Failure (TypedVector × Option Warning) := do
  let v ← session.read source
  let selector ← session.operand selector
  let value ← session.operand value
  attempt do
    let value ← value.toVector
    let selector ← Selector.ofOperand selector
    v.assign selector value

/-- The source in which a command searches for names, and the selector by which it does. -/
def search? : Command → Option (Source × OperandSource)
  | .resolve source selector _ | .extract source selector | .assign source selector _ _ =>
    some (source, selector)
  | .placeOf source name | .placesOf source name => some (source, .scalar (.text name))
  | _ => none

/-- The session with the index kept of a vector that a command searches for names. -/
def searched (session : Session) (command : Command) : Session :=
  match search? command with
  | some (source, selector) =>
    match session.read source, session.selector selector with
    | .ok v, .ok selector =>
      if selector.searchesNames then session.update source v.indexed else session
    | _, _ => session
  | none => session

/-- The session after a command and the reply to it. -/
def run (session : Session) (command : Command) : Session × Reply :=
  let session := session.searched command
  match command with
  | .assign source selector value handler? =>
    match session.assignment source selector value with
    | .error failure => (session, .error failure)
    | .ok (v, warning?) => (session.update source v, session.tell handler? v warning?.toList)
  | .configure handler? throws =>
    let handler? := handler?.map (⟨·, throws⟩)
    ({ session with configuration := session.configuration.configure handler? },
      .ok (.done, []))
  | .reset => ({ session with configuration := none }, .ok (.done, []))
  | command => (session, session.answer command)

/-- Runs a command and keeps a vector that it answers under a name, if one is given. -/
def runInto (session : Session) (name? : Option String) (command : Command) : Session × Reply :=
  let (session, reply) := session.run command
  match name?, reply with
  | some name, .ok (.vector v, _) => (session.store name v, reply)
  | _, _ => (session, reply)

end Session
end TypedVectors
