import TypedVectors.Proofs.Session.Warnings

/-!
Deliveries over whole programs. Who receives the warnings of a command follows from the calls to
configure and reset before it, and what the command comes to does not depend on who that is.
-/
namespace TypedVectors

namespace Command

def isReset : Command → Bool
  | reset => true
  | _ => false

def configured? : Command → Option ConfiguredHandler
  | configure handler? throws => handler?.map (⟨·, throws⟩)
  | _ => none

end Command

/-- The handler that was configured last since the last reset. -/
def latestHandler? (past : List Command) : Option ConfiguredHandler :=
  (past.reverse.takeWhile (!·.isReset)).findSome? Command.configured?

theorem latestHandler?_concat (past : List Command) (command : Command) :
    latestHandler? (past ++ [command]) =
      if command.isReset then none else command.configured?.or (latestHandler? past) := by
  unfold latestHandler?
  rw [List.reverse_append, List.reverse_singleton, List.singleton_append, List.takeWhile_cons]
  cases command.isReset with
  | true => rfl
  | false =>
    rw [if_pos (by rfl), List.findSome?_cons]
    cases command.configured? with
    | none => rfl
    | some handler => rfl

/-- Who receives the warnings of a command after other ones, and whether they are thrown there: the
handler of the call, or else the one configured last, or else the process. -/
def handlerAfter (past : List Command) (command : Command) : Receiver × Bool :=
  match command.handler?, latestHandler? past with
  | some handler, _ => (.call, handler = .throwing)
  | none, some handler => (.configured handler.name, handler.throws)
  | none, none => (.process, false)

theorem inForce_latestHandler? (past : List Command) (command : Command) :
    Configuration.inForce (latestHandler? past) command.handler? = handlerAfter past command := by
  unfold handlerAfter
  cases command.handler? with
  | some handler => rfl
  | none => cases latestHandler? past <;> rfl

def Reply.isThrown : Reply → Bool
  | .error (.thrown _) => true
  | _ => false

namespace Session

variable {session here there : Session}

theorem update_configuration (session : Session) (source : Source) (v : TypedVector) :
    (session.update source v).configuration = session.configuration := by
  rcases source with name | ⟨kind, cells, names?⟩
  · rfl
  · rfl

theorem run_configuration (session : Session) (command : Command) :
    (session.run command).1.configuration =
      if command.isReset then none else command.configured?.or session.configuration := by
  unfold run
  cases command with
  | assign source selector value handler? =>
    have searched := session.searched_configuration (.assign source selector value handler?)
    dsimp only
    split
    · exact searched
    · exact (update_configuration _ source _).trans searched
  | configure handler? throws => rfl
  | reset => rfl
  | _ => exact session.searched_configuration _

theorem runInto_configuration (session : Session) (name? : Option String) (command : Command) :
    (session.runInto name? command).1.configuration =
      if command.isReset then none else command.configured?.or session.configuration := by
  rw [← run_configuration]
  unfold runInto
  dsimp only
  split
  · rfl
  · rfl

theorem configuration_after (program : List (Option String × Command)) :
    (initial.after program).configuration = latestHandler? (program.map Prod.snd) := by
  induction program using List.reverseRecOn with
  | nil => rfl
  | append_singleton past step ih =>
    obtain ⟨name?, command⟩ := step
    rw [after_concat, runInto_configuration, ih, List.map_append, List.map_singleton,
      latestHandler?_concat]

theorem runInto_reply (session : Session) (name? : Option String) (command : Command) :
    (session.runInto name? command).2 = (session.run command).2 := by
  unfold runInto
  dsimp only
  split
  · rfl
  · rfl

theorem delivered_after (past : List (Option String × Command)) (name? : Option String)
    (command : Command) :
    Delivered (handlerAfter (past.map Prod.snd) command).1
      (handlerAfter (past.map Prod.snd) command).2 ((initial.after past).outcome command)
      ((initial.after past).runInto name? command).2 := by
  rw [← inForce_latestHandler?, ← configuration_after, runInto_reply]
  exact (initial.after past).run_delivered command

/-- Two programs run side by side that do the same work and keep the same results, whoever receives
their warnings. -/
inductive SameWork : Session → Session → List (Option String × Command) →
    List (Option String × Command) → Prop
  | nil (here there : Session) : SameWork here there [] []
  | cons {here there : Session} {lefts rights : List (Option String × Command)}
    (name? : Option String) (left right : Command) (work : left.work = right.work)
    (kept : name?.isSome → (here.run left).2.isThrown = (there.run right).2.isThrown)
    (rest : SameWork (here.runInto name? left).1 (there.runInto name? right).1 lefts rights) :
    SameWork here there ((name?, left) :: lefts) ((name?, right) :: rights)

/-- A result that is kept from both commands, or from neither, leaves the same vectors. -/
theorem runInto_vectors (vectors : here.vectors = there.vectors) {left right : Command}
    (work : left.work = right.work) {name? : Option String}
    (kept : name?.isSome → (here.run left).2.isThrown = (there.run right).2.isThrown) :
    (here.runInto name? left).1.vectors = (there.runInto name? right).1.vectors := by
  obtain ⟨outcome, after⟩ := same_outcome vectors work
  have mine := here.run_delivered left
  have yours := there.run_delivered right
  rw [outcome] at mine
  unfold runInto
  dsimp only
  cases name? with
  | none => exact after
  | some name =>
    have alike := kept rfl
    generalize here.run left = leftPoint, there.run right = rightPoint at *
    obtain ⟨leftSession, leftReply⟩ := leftPoint
    obtain ⟨rightSession, rightReply⟩ := rightPoint
    dsimp only at mine yours alike after ⊢
    -- Both replies come of one outcome, and only a thrown warning withholds its vector.
    generalize there.outcome right = result at mine yours
    cases mine with
    | failed failure =>
      cases yours
      exact after
    | thrown answer first rest =>
      cases yours with
      | thrown => exact after
      | told => cases alike
    | told answer warnings =>
      cases yours with
      | thrown => cases alike
      | told =>
        cases answer with
        | vector v =>
          unfold store
          dsimp only
          rw [after]
        | _ => exact after

theorem SameWork.after_vectors {lefts rights : List (Option String × Command)}
    (same : SameWork here there lefts rights) (vectors : here.vectors = there.vectors) :
    (here.after lefts).vectors = (there.after rights).vectors := by
  induction same with
  | nil here there => exact vectors
  | cons name? left right work kept _ ih => exact ih (runInto_vectors vectors work kept)

/-- Every command hands its warnings in order to the one receiver that the commands before it leave
in force, or throws the first of them there, and a command that fails hands over nothing. What a
command comes to and what it writes is the same after another program with other handlers. -/
theorem warnings_delivered (past : List (Option String × Command)) (name? : Option String)
    (command : Command) :
    let session := initial.after past
    let receiver := handlerAfter (past.map Prod.snd) command
    Delivered receiver.1 receiver.2 (session.outcome command) (session.runInto name? command).2 ∧
    (∀ warning, session.outcome command ≠ .error (.thrown warning)) ∧
    (∀ answer warnings, session.outcome command = .ok (answer, warnings) →
      warnings.Pairwise Warning.Before) ∧
    ∀ others other, SameWork initial initial past others → command.work = other.work →
      session.outcome command = (initial.after others).outcome other ∧
      (session.run command).1.vectors = ((initial.after others).run other).1.vectors := by
  intro session receiver
  refine ⟨delivered_after past name? command, fun warning thrown => ?_,
    fun answer warnings done => ordered_outcome done, fun others other same work => ?_⟩
  · exact expected_outcome (Reachable.initial.after past).regular command _ thrown
  · exact same_outcome (same.after_vectors rfl) work

/-- One program throws the warning that the other one records, and both have the same result. -/
theorem warnings_delivered_thrown :
    let build := Command.build (.literal .logical [.truth true, .missing, .truth true] none)
    let lefts := [(some "v", build), (none, .configure (some "log") true), (none, .configure none)]
    let rights := [(some "v", build), (none, .reset), (none, .configure none)]
    let compare := Command.binary (.comparison .equal) (.vector (.variable "v"))
      (.cells [.truth true, .truth false])
    SameWork initial initial lefts rights ∧ ∃ answer,
      (initial.after lefts).outcome (compare none) = .ok (answer, [.recycledLength 3 2]) ∧
      (initial.after rights).outcome (compare (some .recording)) =
        .ok (answer, [.recycledLength 3 2]) ∧
      ((initial.after lefts).runInto (some "w") (compare none)).2 =
        .error (.thrown (.recycledLength 3 2)) ∧
      ((initial.after rights).runInto (some "w") (compare (some .recording))).2 =
        .ok (answer, [⟨.call, .recycledLength 3 2⟩]) := by
  intro build lefts rights compare
  have same : SameWork initial initial lefts rights :=
    .cons _ _ _ rfl (fun _ => rfl) (.cons _ _ _ rfl (fun _ => rfl)
      (.cons _ _ _ rfl (fun _ => rfl) (.nil _ _)))
  have warns : ((initial.after lefts).outcome (compare none)).map Prod.snd =
      .ok [.recycledLength 3 2] := by decide +kernel
  obtain ⟨⟨answer, _⟩, done, rfl⟩ := map_success warns
  obtain ⟨left, _, _, independent⟩ := warnings_delivered lefts (some "w") (compare none)
  obtain ⟨right, _⟩ := warnings_delivered rights (some "w") (compare (some .recording))
  have again := (independent rights (compare (some .recording)) same rfl).1
  rw [← again, done] at right
  rw [done] at left
  refine ⟨same, answer, done, again ▸ done, ?_, ?_⟩
  · generalize ((initial.after lefts).runInto _ _).2 = reply at left
    cases left with
    | thrown => rfl
    | told _ _ kept => rcases kept with kept | kept <;> cases kept
  · generalize ((initial.after rights).runInto _ _).2 = reply at right
    cases right with
    | thrown _ _ _ throws => cases throws
    | told => rfl

end Session
end TypedVectors
