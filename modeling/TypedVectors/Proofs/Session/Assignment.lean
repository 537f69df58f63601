import TypedVectors.Proofs.Session.Search

/-!
Assignments in sessions are made as a whole or not at all. Whether one is refused does not depend on
who receives warnings, and neither does what it writes: a thrown warning comes after the write.
-/
namespace TypedVectors

def Operand.resolution (spec : Operand) (v : TypedVector) : Except Error Resolution :=
  Selector.ofOperand spec >>= fun selector => selector.resolve v .write

namespace TypedVector

variable {v value w : TypedVector}

def assignBy (v : TypedVector) (spec : Operand) (value : TypedVector) :
    Except Error (TypedVector × Option Warning) :=
  Selector.ofOperand spec >>= fun selector => v.assign selector value

theorem assignBy_eq_error_iff (regular : v.Regular) (valueRegular : value.Regular) {spec : Operand}
    {error : Error} :
    v.assignBy spec value = .error error ↔ Refused (spec.resolution v) value.length error := by
  unfold assignBy Operand.resolution
  cases Selector.ofOperand spec with
  | ok selector => exact assign_eq_error_iff regular valueRegular
  | error cause =>
    constructor
    · intro failed
      cases failed
      exact .unresolved rfl
    · rintro (⟨failed⟩ | ⟨resolved⟩ | ⟨resolved⟩)
      · cases failed
        rfl
      · cases resolved
      · cases resolved

theorem assignBy_success (regular : v.Regular) (valueRegular : value.Regular) {spec : Operand}
    {warning? : Option Warning} (ok : v.assignBy spec value = .ok (w, warning?)) :
    ∃ resolution, spec.resolution v = .ok resolution ∧
      Recycling.onto value.length resolution.targets.length = .ok warning? ∧
      (resolution.targets = [] → w = v) ∧
      (resolution.targets ≠ [] → v.Written value resolution w) := by
  obtain ⟨selector, classified, ok⟩ := bind_success ok
  unfold Operand.resolution
  rw [classified]
  cases resolved : selector.resolve v .write with
  | error error =>
    rw [assign_unresolved resolved] at ok
    cases ok
  | ok resolution =>
    refine ⟨resolution, resolved, ?_⟩
    by_cases untargeted : resolution.targets = []
    · rw [assign_untargeted resolved untargeted] at ok
      cases ok
      rw [untargeted]
      exact ⟨rfl, fun _ => rfl, fun targeted => (targeted rfl).elim⟩
    · obtain ⟨nonempty, recycled, after, rfl, written⟩ :=
        assign_success regular valueRegular resolved untargeted ok
      refine ⟨recycled, fun empty => (untargeted empty).elim, fun _ => ?_⟩
      exact written_of_overwrites regular valueRegular (Selector.forWrite_resolve resolved) nonempty
        written

namespace SameState

variable {v' value' : TypedVector} {here there : Operand}

theorem regular (same : v.SameState v') (regular : v.Regular) : v'.Regular where
  canonical := same.cells ▸ regular.canonical
  cells := fun _ _ => trivial
  names := fun names named => same.length_eq ▸ regular.names names (same.names ▸ named)

theorem resolution_eq (same : v.SameState v') (spec : here.SameState there) :
    there.resolution v' = here.resolution v := by
  unfold Operand.resolution
  rw [spec.ofOperand_eq]
  simp only [same.resolve_eq]

theorem written {resolution : Resolution} (same : v.SameState v')
    (sameValue : value.SameState value') (written : v'.Written value' resolution w) :
    v.Written value resolution w := by
  have length := same.length_eq
  have names : ∀ place, v'.nameAt place = v.nameAt place := by
    intro place
    unfold nameAt
    rw [same.names]
  obtain ⟨kind, count, assigned, kept, filled, unnamed, nameCount, namesKept, namesMade⟩ := written
  rw [same.kind, sameValue.kind] at kind
  rw [length] at count filled namesKept namesMade
  rw [same.kind, same.cells] at kept
  rw [sameValue.kind, sameValue.cells, sameValue.length_eq] at assigned
  rw [same.names] at unnamed
  simp only [names] at namesKept
  exact ⟨kind, count, assigned, kept, filled, unnamed, nameCount, namesKept, namesMade⟩

end SameState
end TypedVector

namespace Session

/-- The session holds a vector where the source is a variable, and else what it held before. -/
structure Commits (before : Session) (source : Source) (w : TypedVector) (after : Session) :
    Prop where
  here : ∀ name, source = .variable name → after.read (.variable name) = .ok w
  others : ∀ name, source ≠ .variable name → before.AgreeAt after name

theorem commits_update {before after : Session} (agree : ∀ name, before.AgreeAt after name)
    (source : Source) (w : TypedVector) : before.Commits source w (after.update source w) := by
  rcases source with stored | ⟨kind, cells, names?⟩
  · constructor
    · rintro name same
      cases same
      unfold read update
      dsimp only
      rw [lookup_store_self]
    · intro name different
      have other : name ≠ stored := fun same => different (congrArg Source.variable same.symm)
      have held := agree name
      unfold AgreeAt at held ⊢
      unfold update
      rwa [lookup_store_other after w other]
  · exact ⟨fun name same => (by cases same), fun name _ => agree name⟩

theorem searched_configuration (session : Session) (command : Command) :
    (session.searched command).configuration = session.configuration := by
  unfold searched
  split
  · next source _ _ =>
    split
    · split
      · rcases source with name | ⟨kind, cells, names?⟩
        · rfl
        · rfl
      · rfl
    · rfl
  · rfl

theorem tell_ne_error {session : Session} {handler? : Option CallHandler} {w : TypedVector}
    {warnings : List Warning} {error : Error} :
    session.tell handler? w warnings ≠ .error (.error error) := by
  unfold tell
  cases deliver session.configuration handler? warnings with
  | error warning => exact fun same => by cases same
  | ok deliveries => exact fun same => by cases same

variable {session : Session} {source : Source} {specSource valueSource : OperandSource}
  {v value : TypedVector} {spec : Operand}

theorem assignment_eq {given : Operand} (found : session.read source = .ok v)
    (specFound : session.operand specSource = .ok spec)
    (givenFound : session.operand valueSource = .ok given) (made : given.toVector = .ok value) :
    session.assignment source specSource valueSource = attempt (v.assignBy spec value) := by
  unfold assignment
  rw [found, specFound, givenFound]
  change attempt (given.toVector >>= _) = _
  rw [made]
  rfl

theorem assignment_success {w : TypedVector} {warning? : Option Warning}
    (ok : session.assignment source specSource valueSource = .ok (w, warning?)) :
    ∃ v spec value, session.read source = .ok v ∧ session.operand specSource = .ok spec ∧
      session.operandVector valueSource = .ok value ∧
      v.assignBy spec value = .ok (w, warning?) := by
  obtain ⟨v, found, ok⟩ := bind_success ok
  obtain ⟨spec, specFound, ok⟩ := bind_success ok
  obtain ⟨given, givenFound, ok⟩ := bind_success ok
  obtain ⟨value, made, ok⟩ := bind_success (attempt_success ok)
  refine ⟨v, spec, value, found, specFound, ?_, ok⟩
  unfold operandVector
  rw [givenFound]
  exact congrArg attempt made

/-- The session in which an assignment reads its operands, whoever receives the warning. -/
def assigning (session : Session) (source : Source) (specSource valueSource : OperandSource) :
    Session :=
  session.searched (.assign source specSource valueSource none)

theorem agreeAt_assigning (session : Session) (source : Source)
    (specSource valueSource : OperandSource) (name : String) :
    session.AgreeAt (session.assigning source specSource valueSource) name :=
  session.agreeAt_searched _ name

theorem run_assign_eq (session : Session) (source : Source) (specSource valueSource : OperandSource)
    (handler? : Option CallHandler) :
    session.run (.assign source specSource valueSource handler?) =
      match (session.assigning source specSource valueSource).assignment source specSource
        valueSource with
      | .error failure => (session.assigning source specSource valueSource, .error failure)
      | .ok (w, warning?) =>
        ((session.assigning source specSource valueSource).update source w,
          (session.assigning source specSource valueSource).tell handler? w warning?.toList) := rfl

theorem run_assign_refused {error : Error} (failed :
      (session.assigning source specSource valueSource).assignment source specSource valueSource =
        .error (.error error)) (handler? : Option CallHandler) :
    session.run (.assign source specSource valueSource handler?) =
      (session.assigning source specSource valueSource, .error (.error error)) := by
  rw [run_assign_eq, failed]

theorem run_assign_done {w : TypedVector} {warning? : Option Warning} (done :
      (session.assigning source specSource valueSource).assignment source specSource valueSource =
        .ok (w, warning?)) (handler? : Option CallHandler) :
    session.run (.assign source specSource valueSource handler?) =
      ((session.assigning source specSource valueSource).update source w,
        session.tell handler? w warning?.toList) := by
  have told : (session.assigning source specSource valueSource).tell handler? w warning?.toList =
      session.tell handler? w warning?.toList := by
    unfold tell assigning
    rw [searched_configuration]
  rw [run_assign_eq, done, ← told]

/-- The two outcomes of an assignment, the same for everyone who may receive its warning. -/
theorem run_assign_cases (reachable : session.Reachable) (found : session.read source = .ok v)
    (specFound : session.operand specSource = .ok spec)
    (valueFound : session.operandVector valueSource = .ok value) :
    (∃ cause,
      (∀ error, TypedVector.Refused (spec.resolution v) value.length error ↔ error = cause) ∧
      ∀ handler?, session.run (.assign source specSource valueSource handler?) =
        (session.assigning source specSource valueSource, .error (.error cause))) ∨
    (∀ error, ¬ TypedVector.Refused (spec.resolution v) value.length error) ∧
      ∃ resolution w warning?, spec.resolution v = .ok resolution ∧
        Recycling.onto value.length resolution.targets.length = .ok warning? ∧
        (resolution.targets = [] → v.SameState w) ∧
        (resolution.targets ≠ [] → v.Written value resolution w) ∧
        ∀ handler?, session.run (.assign source specSource valueSource handler?) =
          ((session.assigning source specSource valueSource).update source w,
            session.tell handler? w warning?.toList) := by
  have kept : Kept TypedVector.Regular := kept_follows CellRule.stable_any
  have regular : v.Regular := reachable.regular.read kept found
  have admits := (Command.assign source specSource valueSource none).admits_regular
  have valueRegular : value.Regular :=
    reachable.regular.takenVector kept admits List.mem_cons_self valueFound
  -- The assignment reads the same vectors, at most with an index that the search has built.
  have agree := agreeAt_assigning session source specSource valueSource
  obtain ⟨v', found', same⟩ := read_agree agree found
  obtain ⟨spec', specFound', sameSpec⟩ := operand_agree agree specFound
  obtain ⟨given, givenFound, made⟩ := bind_success valueFound
  obtain ⟨given', givenFound', sameGiven⟩ := operand_agree agree givenFound
  obtain ⟨value', made', sameValue⟩ := sameGiven.toVector (attempt_success made)
  have assigned := assignment_eq found' specFound' givenFound' made'
  have refused : ∀ {error}, v'.assignBy spec' value' = .error error ↔
      TypedVector.Refused (spec.resolution v) value.length error := by
    intro error
    rw [TypedVector.assignBy_eq_error_iff (same.regular regular) (sameValue.regular valueRegular),
      same.resolution_eq sameSpec, sameValue.length_eq]
  cases result : v'.assignBy spec' value' with
  | error cause =>
    rw [result] at assigned refused
    refine .inl ⟨cause, fun error => ?_, run_assign_refused assigned⟩
    rw [← refused, Except.error.injEq, eq_comm]
  | ok outcome =>
    obtain ⟨w, warning?⟩ := outcome
    obtain ⟨resolution, resolved, recycled, untargeted, targeted⟩ :=
      TypedVector.assignBy_success (same.regular regular) (sameValue.regular valueRegular) result
    rw [result] at assigned refused
    rw [same.resolution_eq sameSpec] at resolved
    rw [sameValue.length_eq] at recycled
    refine .inr ⟨fun error cause => ?_, resolution, w, warning?, resolved, recycled, ?_, ?_,
      run_assign_done assigned⟩
    · cases refused.2 cause
    · intro empty
      rw [untargeted empty]
      exact same
    · intro nonempty
      exact same.written sameValue (targeted nonempty)

/-- An assignment fails exactly when it is refused, and then all vectors are as before. Otherwise
the whole write is in place whoever receives its warning, also where that one throws it. -/
theorem assign_all_or_nothing (reachable : session.Reachable) (found : session.read source = .ok v)
    (specFound : session.operand specSource = .ok spec)
    (valueFound : session.operandVector valueSource = .ok value) :
    (∀ handler? error,
      (session.run (.assign source specSource valueSource handler?)).2 = .error (.error error) ↔
        TypedVector.Refused (spec.resolution v) value.length error) ∧
    (∀ handler? error, TypedVector.Refused (spec.resolution v) value.length error →
      ∀ name, session.AgreeAt
        (session.run (.assign source specSource valueSource handler?)).1 name) ∧
    ((∀ error, ¬ TypedVector.Refused (spec.resolution v) value.length error) →
      ∃ resolution w warning?, spec.resolution v = .ok resolution ∧
        Recycling.onto value.length resolution.targets.length = .ok warning? ∧
        (resolution.targets = [] → v.SameState w) ∧
        (resolution.targets ≠ [] → v.Written value resolution w) ∧
        (∀ handler?,
          session.Commits source w
            (session.run (.assign source specSource valueSource handler?)).1 ∧
          (session.run (.assign source specSource valueSource handler?)).2 =
            session.tell handler? w warning?.toList) ∧
        ∀ warning, warning? = some warning →
          (session.run (.assign source specSource valueSource (some .throwing))).2 =
            .error (.thrown warning)) := by
  have agree := agreeAt_assigning session source specSource valueSource
  obtain ⟨cause, only, run⟩ | ⟨accepted, resolution, w, warning?, resolved, recycled, untargeted,
    targeted, run⟩ := run_assign_cases reachable found specFound valueFound
  · refine ⟨fun handler? error => ?_, fun handler? error _ => ?_, fun unfailing => ?_⟩
    · rw [run handler?, only]
      exact ⟨fun same => (by cases same; rfl), fun same => (by rw [same])⟩
    · rw [run handler?]
      exact agree
    · exact absurd ((only cause).2 rfl) (unfailing cause)
  · refine ⟨fun handler? error => ?_, fun handler? error refused => ?_, fun _ => ?_⟩
    · rw [run handler?]
      exact ⟨fun told => (tell_ne_error told).elim, fun refused => (accepted error refused).elim⟩
    · exact (accepted error refused).elim
    · refine ⟨resolution, w, warning?, resolved, recycled, untargeted, targeted,
        fun handler? => ?_, ?_⟩
      · rw [run handler?]
        exact ⟨commits_update agree source w, rfl⟩
      · rintro warning rfl
        rw [run (some .throwing)]
        rfl

/-- Two texts written to three places, one past the end: the warning is thrown after the write. -/
theorem assign_all_or_nothing_thrown :
    let session := (initial.runInto (some "v")
      (.build (.literal .logical [.truth true, .missing] none))).1
    let v := TypedVector.make .logical (RadixArray.ofList [.truth true, .missing]) none
    let value := TypedVector.make .character (RadixArray.ofList [.text "a", .text "b"]) none
    let reply := session.run (.assign (.variable "v") (.cells [.number 1, .number 2, .number 3])
      (.vector (.literal .character [.text "a", .text "b"] none)) (some .throwing))
    ∃ w, v.Written value ⟨[.place 0, .place 1, .place 2], 3, []⟩ w ∧
      reply.1.read (.variable "v") = .ok w ∧
      reply.2 = .error (.thrown (.recycledLength 3 2)) := by
  intro session v value reply
  have reachable : session.Reachable := .step .initial _ _
  have found : session.read (.variable "v") = .ok v := rfl
  have specFound : session.operand (.cells [.number 1, .number 2, .number 3]) =
      .ok (.cells [.number 1, .number 2, .number 3]) := rfl
  have valueFound : session.operandVector
      (.vector (.literal .character [.text "a", .text "b"] none)) = .ok value := rfl
  have resolved : (Operand.cells [.number 1, .number 2, .number 3]).resolution v =
      .ok ⟨[.place 0, .place 1, .place 2], 3, []⟩ := by decide +kernel
  have told : Recycling.onto value.length 3 = .ok (some (.recycledLength 3 2)) := by decide +kernel
  obtain ⟨_, _, accept⟩ := assign_all_or_nothing reachable found specFound valueFound
  have accepted : ∀ error, ¬ TypedVector.Refused
      ((Operand.cells [.number 1, .number 2, .number 3]).resolution v) value.length error := by
    rw [resolved]
    rintro error (⟨failed⟩ | ⟨same, _, tooLong⟩ | ⟨same, _, _, empty⟩)
    · cases failed
    · cases same
      exact absurd tooLong (by decide)
    · exact absurd empty (by decide)
  obtain ⟨resolution, w, warning?, same, recycled, _, written, done, thrown⟩ := accept accepted
  rw [resolved] at same
  cases same
  have warned := Except.ok.inj (recycled.symm.trans told)
  exact ⟨w, written (by decide), (done (some .throwing)).1.here "v" rfl, thrown _ warned⟩

end Session
end TypedVectors
