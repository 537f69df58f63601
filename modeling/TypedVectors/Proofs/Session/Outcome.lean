import TypedVectors.Proofs.Session.Assignment

/-!
What a command comes to before its warnings are delivered. The outcome depends on the vectors alone:
neither the handler of the call nor the configuration has a part in it.
-/
namespace TypedVectors

namespace Command

def handler? : Command → Option CallHandler
  | .assign _ _ _ handler? | .binary _ _ _ handler? | .apply _ _ handler? | .roundTo _ _ handler?
  | .convert _ _ handler? => handler?
  | _ => none

/-- What is left of a command when it does not matter who receives warnings. -/
def work : Command → Command
  | .assign source selector value _ => .assign source selector value none
  | .binary operator left right _ => .binary operator left right none
  | .apply f operands _ => .apply f operands none
  | .roundTo operand places _ => .roundTo operand places none
  | .convert operand target _ => .convert operand target none
  | .configure .. => .reset
  | command => command

end Command

/-- What becomes of an outcome: a failure is replied as it is, and each warning goes to the receiver
in order, unless that one throws the first of them. -/
inductive Delivered (receiver : Receiver) (throws : Bool) :
    Except Failure (Answer × List Warning) → Reply → Prop
  | failed (failure : Failure) : Delivered receiver throws (.error failure) (.error failure)
  | thrown (answer : Answer) (first : Warning) (rest : List Warning) (does : throws = true) :
    Delivered receiver throws (.ok (answer, first :: rest)) (.error (.thrown first))
  | told (answer : Answer) (warnings : List Warning) (kept : throws = false ∨ warnings = []) :
    Delivered receiver throws (.ok (answer, warnings)) (.ok (answer, warnings.map (⟨receiver, ·⟩)))

namespace Session

/-- The vector that a command makes and the warnings it has to tell, if it is one that can warn. -/
def made? (session : Session) : Command → Option (Except Failure (TypedVector × List Warning))
  | .assign source selector value _ => some do
    let (w, warning?) ← session.assignment source selector value
    return (w, warning?.toList)
  | .binary operator left right _ => some do
    let left ← session.operand left
    let right ← session.operand right
    attempt do TypedVector.binary operator (← left.toVector) (← right.toVector)
  | .apply f sources _ => some do
    let operands ← sources.mapM session.operand
    attempt do f.apply (← operands.mapM Operand.toVector)
  | .roundTo operand places _ => some do
    let operand ← session.operand operand
    let places ← session.operand places
    attempt do TypedVector.roundTo (← operand.toVector) (← places.toVector)
  | .convert source kind _ => some do
    return (← session.operandVector source).convert kind
  | _ => none

/-- The answer that a command comes to, and the warnings it has to tell in their order. -/
def outcome (session : Session) (command : Command) : Except Failure (Answer × List Warning) :=
  let session := session.searched command
  match session.made? command with
  | some made => made.map fun (v, warnings) => (.vector v, warnings)
  | none => (session.answer command).map fun (answer, _) => (answer, [])

/-- The session once a command has written what it assigns. -/
def committed (session : Session) (command : Command) : Session :=
  let session := session.searched command
  match command with
  | .assign source selector value _ =>
    match session.assignment source selector value with
    | .ok (w, _) => session.update source w
    | .error _ => session
  | _ => session

variable {session : Session} {command : Command}

theorem delivered_tell (session : Session) (handler? : Option CallHandler) (v : TypedVector)
    (warnings : List Warning) :
    Delivered (session.configuration.inForce handler?).1 (session.configuration.inForce handler?).2
      (.ok (.vector v, warnings)) (session.tell handler? v warnings) := by
  unfold tell deliver
  obtain ⟨receiver, throws⟩ := session.configuration.inForce handler?
  cases throws with
  | false => exact .told _ warnings (.inl rfl)
  | true =>
    cases warnings with
    | nil => exact .told _ [] (.inr rfl)
    | cons first rest => exact .thrown _ first rest rfl

theorem deliveries_of_answer (unmade : session.made? command = none) {answer : Answer}
    {deliveries : List Delivery} (ok : session.answer command = .ok (answer, deliveries)) :
    deliveries = [] := by
  cases command with
  | assign | binary | apply | roundTo | convert => cases unmade
  | blank | configure | reset =>
    cases ok
    rfl
  | build | vector | progression | length | kind | cells | placeOf | placesOf | copy | absences =>
    obtain ⟨_, _, ok⟩ := bind_success ok
    cases pure_success ok
    rfl
  | combine | repeated | cellAt | negate | complement =>
    obtain ⟨_, _, ok⟩ := bind_success ok
    obtain ⟨_, _, ok⟩ := bind_success ok
    cases pure_success ok
    rfl
  | isVector =>
    obtain ⟨operand, _, ok⟩ := bind_success ok
    cases operand <;> cases pure_success ok <;> rfl
  | names =>
    obtain ⟨_, _, ok⟩ := bind_success ok
    split at ok
    · cases pure_success ok
      rfl
    · cases pure_success ok
      rfl
  | setNames source names =>
    cases names with
    | none =>
      obtain ⟨_, _, ok⟩ := bind_success ok
      cases pure_success ok
      rfl
    | cells items =>
      obtain ⟨_, _, ok⟩ := bind_success ok
      obtain ⟨_, _, ok⟩ := bind_success ok
      cases pure_success ok
      rfl
    | vector names =>
      obtain ⟨_, _, ok⟩ := bind_success ok
      obtain ⟨_, _, ok⟩ := bind_success ok
      obtain ⟨_, _, ok⟩ := bind_success ok
      cases pure_success ok
      rfl
  | resolve | extract =>
    obtain ⟨_, _, ok⟩ := bind_success ok
    obtain ⟨_, _, ok⟩ := bind_success ok
    obtain ⟨_, _, ok⟩ := bind_success ok
    cases pure_success ok
    rfl

theorem run_of_made {made : Except Failure (TypedVector × List Warning)}
    (done : (session.searched command).made? command = some made) :
    (session.run command).2 = made >>= fun (v, warnings) =>
      (session.searched command).tell command.handler? v warnings := by
  unfold run
  cases command with
  | assign source selector value handler? =>
    cases done
    dsimp only
    cases (session.searched _).assignment source selector value with
    | error failure => rfl
    | ok written => rfl
  | binary operator left right handler? | apply f sources handler?
  | roundTo operand places handler? | convert source kind handler? =>
    cases done
    simp only [bind_assoc]
    rfl
  | _ => cases done

theorem run_of_unmade (unmade : (session.searched command).made? command = none) :
    (session.run command).2 = (session.searched command).answer command := by
  cases command with
  | assign source selector value handler? => cases unmade
  | _ => rfl

theorem run_delivered (session : Session) (command : Command) :
    Delivered (session.configuration.inForce command.handler?).1
      (session.configuration.inForce command.handler?).2 (session.outcome command)
      (session.run command).2 := by
  unfold outcome
  rw [← session.searched_configuration command]
  dsimp only
  cases done : (session.searched command).made? command with
  | some made =>
    rw [run_of_made done]
    cases made with
    | error failure => exact .failed failure
    | ok told => exact delivered_tell _ _ told.1 told.2
  | none =>
    rw [run_of_unmade done]
    cases answered : (session.searched command).answer command with
    | error failure => exact .failed failure
    | ok reply =>
      obtain ⟨answer, deliveries⟩ := reply
      rw [deliveries_of_answer done answered]
      exact .told answer [] (.inr rfl)

section Independence

variable (session : Session) (command : Command) (configuration : Configuration)

def configured : Session := { session with configuration := configuration }

theorem read_configured (source : Source) :
    (session.configured configuration).read source = session.read source := rfl

theorem selector_configured (source : OperandSource) :
    (session.configured configuration).selector source = session.selector source := rfl

theorem assignment_configured (source : Source) (selector value : OperandSource) :
    (session.configured configuration).assignment source selector value =
      session.assignment source selector value := rfl

theorem update_configured (source : Source) (v : TypedVector) :
    (session.configured configuration).update source v =
      (session.update source v).configured configuration := by
  rcases source with name | ⟨kind, cells, names?⟩
  · rfl
  · rfl

theorem searched_configured :
    (session.configured configuration).searched command =
      (session.searched command).configured configuration := by
  unfold searched
  cases search? command with
  | none => rfl
  | some search =>
    obtain ⟨source, selector⟩ := search
    dsimp only
    rw [read_configured, selector_configured]
    cases session.read source with
    | error failure => rfl
    | ok v =>
      cases session.selector selector with
      | error failure => rfl
      | ok selector =>
        dsimp only
        split
        · exact update_configured session configuration source v.indexed
        · rfl

theorem outcome_configured :
    (session.configured configuration).outcome command = session.outcome command := by
  unfold outcome
  rw [searched_configured]
  cases command with
  | setNames source names => cases names <;> rfl
  | _ => rfl

theorem outcome_work : session.outcome command.work = session.outcome command := by
  cases command <;> rfl

theorem committed_configured :
    (session.configured configuration).committed command =
      (session.committed command).configured configuration := by
  unfold committed
  rw [searched_configured]
  cases command with
  | assign source selector value handler? =>
    dsimp only
    rw [assignment_configured]
    cases (session.searched _).assignment source selector value with
    | error failure => rfl
    | ok written => exact update_configured _ configuration source written.1
  | _ => rfl

theorem committed_work : session.committed command.work = session.committed command := by
  cases command <;> rfl

/-- Only the configuration can be other than what a command has committed. -/
theorem run_vectors : (session.run command).1.vectors = (session.committed command).vectors := by
  unfold run committed
  cases command with
  | assign source selector value handler? =>
    dsimp only
    cases (session.searched _).assignment source selector value with
    | error failure => rfl
    | ok written => rfl
  | _ => rfl

end Independence

/-- Sessions with the same vectors come to the same by commands that do the same work. -/
theorem same_outcome {here there : Session} {left right : Command}
    (vectors : here.vectors = there.vectors) (work : left.work = right.work) :
    here.outcome left = there.outcome right ∧
      (here.run left).1.vectors = (there.run right).1.vectors := by
  have same : here.configured there.configuration = there := congrArg (Session.mk · _) vectors
  constructor
  · rw [← outcome_work, work, ← outcome_configured here right.work there.configuration, same,
      outcome_work]
  · rw [run_vectors, run_vectors, ← committed_work, work, ← committed_work there, ← same,
      committed_configured]
    rfl

end Session
end TypedVectors
