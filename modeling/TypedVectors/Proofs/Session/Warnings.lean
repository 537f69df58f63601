import TypedVectors.Proofs.Session.Safety

/-!
The warnings that commands tell. Warnings about lengths come first and are about lengths that
misfit, save that an assignment also tells of values whose number is a multiple of that of its
targets.
-/
namespace TypedVectors

/-- Whether a warning is told ahead of another one: lengths before integers out of range. -/
inductive Warning.Before : Warning → Warning → Prop
  | lengths (longer shorter count : Nat) :
    Before (.recycledLength longer shorter) (.integerOverflow count)

/-- Warnings in their order, those about lengths only of lengths that misfit. -/
structure Warning.Listed (warnings : List Warning) : Prop where
  ordered : warnings.Pairwise Before
  misfits : ∀ longer shorter, .recycledLength longer shorter ∈ warnings →
    Recycling.Misfit longer shorter

open Warning (Listed)

theorem Warning.ordered_toList (warning? : Option Warning) : warning?.toList.Pairwise Before := by
  cases warning? with
  | none => exact .nil
  | some warning => exact List.pairwise_singleton _ _

theorem Recycling.listed_alignment {lengths : List Nat} {alignment : Alignment}
    (aligned : align lengths = .ok alignment) : Listed alignment.warning?.toList where
  ordered := Warning.ordered_toList _
  misfits := by
    intro longer shorter told
    obtain ⟨_, _, same, misfit⟩ := (align_warning? aligned).2 _ (Option.mem_toList.1 told)
    cases same
    exact misfit

theorem Tallied.warning?_eq_some {results : List Tallied} {warning : Warning}
    (told : warning? results = some warning) : ∃ count, warning = .integerOverflow count := by
  unfold warning? at told
  dsimp only at told
  split at told
  · cases told
  · cases told
    exact ⟨_, rfl⟩

theorem listed_tallied {lengths : List Nat} {alignment : Recycling.Alignment}
    (aligned : Recycling.align lengths = .ok alignment) (results : List Tallied) :
    Listed (alignment.warning?.toList ++ (Tallied.warning? results).toList) where
  ordered := by
    refine List.pairwise_append.2 ⟨Warning.ordered_toList _, Warning.ordered_toList _, ?_⟩
    intro first earlier second later
    obtain ⟨_, _, rfl, _⟩ := (Recycling.align_warning? aligned).2 _ (Option.mem_toList.1 earlier)
    obtain ⟨_, rfl⟩ := Tallied.warning?_eq_some (Option.mem_toList.1 later)
    exact .lengths _ _ _
  misfits := by
    intro longer shorter told
    rcases List.mem_append.1 told with told | told
    · exact (Recycling.listed_alignment aligned).misfits longer shorter told
    · obtain ⟨_, same⟩ := Tallied.warning?_eq_some (Option.mem_toList.1 told)
      cases same

section Operations

variable {w : TypedVector} {warnings : List Warning}

theorem TypedVector.listed_binary {operator : Operator} {left right : TypedVector}
    (ok : binary operator left right = .ok (w, warnings)) : Listed warnings := by
  unfold binary at ok
  obtain ⟨_, ok⟩ := guarded_success ok
  obtain ⟨alignment, aligned, ok⟩ := bind_success ok
  obtain ⟨results, _, ok⟩ := bind_success ok
  cases pure_success ok
  exact listed_tallied aligned results

theorem TypedVector.listed_roundTo {v places : TypedVector}
    (ok : v.roundTo places = .ok (w, warnings)) : Listed warnings := by
  obtain ⟨_, _, ok⟩ := bind_success ok
  obtain ⟨_, _, ok⟩ := bind_success ok
  obtain ⟨xs, _, ok⟩ := bind_success ok
  obtain ⟨digits, _, ok⟩ := bind_success ok
  obtain ⟨alignment, aligned, ok⟩ := bind_success ok
  obtain ⟨results, _, ok⟩ := bind_success ok
  cases pure_success ok
  exact listed_tallied aligned results

theorem ElementFunction.listed_apply {f : ElementFunction} {operands : List TypedVector}
    (ok : f.apply operands = .ok (w, warnings)) : Listed warnings := by
  unfold apply at ok
  split at ok
  · cases ok
  obtain ⟨alignment, aligned, ok⟩ := bind_success ok
  obtain ⟨cells, _, ok⟩ := bind_success ok
  cases pure_success ok
  exact Recycling.listed_alignment aligned

theorem TypedVector.listed_convert (v : TypedVector) (kind : Kind) : Listed (v.convert kind).2 := by
  unfold convert
  dsimp only
  split
  · exact ⟨.nil, fun _ _ told => by cases told⟩
  · refine ⟨List.pairwise_singleton _ _, fun longer shorter told => ?_⟩
    cases List.mem_singleton.1 told

end Operations

/-- A reply that a warning was part of, whoever received it and whether or not it was thrown. -/
inductive Reply.Tells (warning : Warning) : Reply → Prop
  | delivered (answer : Answer) (deliveries : List Delivery) (receiver : Receiver)
    (inside : ⟨receiver, warning⟩ ∈ deliveries) : Tells warning (.ok (answer, deliveries))
  | thrown : Tells warning (.error (.thrown warning))

theorem Delivered.mem_of_tells {receiver : Receiver} {throws : Bool}
    {outcome : Except Failure (Answer × List Warning)} {reply : Reply} {warning : Warning}
    (delivered : Delivered receiver throws outcome reply) (expected : Session.Expected outcome)
    (tells : reply.Tells warning) :
    ∃ answer warnings, outcome = .ok (answer, warnings) ∧ warning ∈ warnings := by
  cases delivered with
  | failed failure =>
    cases tells
    exact (expected _ rfl).elim
  | thrown answer first rest =>
    cases tells
    exact ⟨answer, _, rfl, List.mem_cons_self⟩
  | told answer warnings =>
    cases tells with
    | delivered _ _ _ inside =>
      obtain ⟨told, member, same⟩ := List.mem_map.1 inside
      cases same
      exact ⟨answer, warnings, rfl, member⟩

namespace Session

variable {session : Session} {command : Command}

theorem listed_made {v : TypedVector} {warnings : List Warning}
    (done : session.made? command = some (.ok (v, warnings)))
    (other : ∀ source selector value handler?, command ≠ .assign source selector value handler?) :
    Listed warnings := by
  cases command with
  | assign source selector value handler? => exact (other _ _ _ _ rfl).elim
  | binary operator left right _ =>
    obtain ⟨_, _, ok⟩ := bind_success (Option.some.inj done)
    obtain ⟨_, _, ok⟩ := bind_success ok
    obtain ⟨_, _, ok⟩ := bind_success (attempt_success ok)
    obtain ⟨_, _, ok⟩ := bind_success ok
    exact TypedVector.listed_binary ok
  | apply f sources _ =>
    obtain ⟨_, _, ok⟩ := bind_success (Option.some.inj done)
    obtain ⟨_, _, ok⟩ := bind_success (attempt_success ok)
    exact ElementFunction.listed_apply ok
  | roundTo operand places _ =>
    obtain ⟨_, _, ok⟩ := bind_success (Option.some.inj done)
    obtain ⟨_, _, ok⟩ := bind_success ok
    obtain ⟨_, _, ok⟩ := bind_success (attempt_success ok)
    obtain ⟨_, _, ok⟩ := bind_success ok
    exact TypedVector.listed_roundTo ok
  | convert source kind _ =>
    obtain ⟨operand, _, ok⟩ := bind_success (Option.some.inj done)
    have same : (operand.convert kind).2 = warnings := congrArg Prod.snd (pure_success ok)
    rw [← same]
    exact operand.listed_convert kind
  | _ => cases done

theorem listed_outcome {answer : Answer} {warnings : List Warning}
    (done : session.outcome command = .ok (answer, warnings))
    (other : ∀ source selector value handler?, command ≠ .assign source selector value handler?) :
    Listed warnings := by
  unfold outcome at done
  dsimp only at done
  cases made : (session.searched command).made? command with
  | some result =>
    rw [made] at done
    obtain ⟨⟨v, told⟩, rfl, same⟩ := map_success done
    cases same
    exact listed_made made other
  | none =>
    rw [made] at done
    obtain ⟨reply, _, same⟩ := map_success done
    cases same
    exact ⟨.nil, fun _ _ told => by cases told⟩

theorem ordered_outcome {answer : Answer} {warnings : List Warning}
    (done : session.outcome command = .ok (answer, warnings)) :
    warnings.Pairwise Warning.Before := by
  cases command with
  | assign source selector value handler? =>
    obtain ⟨⟨w, told⟩, made, same⟩ := map_success done
    obtain ⟨⟨_, warning?⟩, _, same'⟩ := bind_success made
    cases same
    cases pure_success same'
    exact Warning.ordered_toList warning?
  | _ => exact (listed_outcome done fun _ _ _ _ same => by cases same).ordered

/-- Whether an assignment has so many values for so many targets. -/
def Replaces (session : Session) (source : Source) (selector value : OperandSource)
    (given targets : Nat) : Prop :=
  ∃ v spec values resolution, session.read source = .ok v ∧ session.operand selector = .ok spec ∧
    session.operandVector value = .ok values ∧ spec.resolution v = .ok resolution ∧
    values.length = given ∧ resolution.targets.length = targets

/-- Whether a command assigns values whose number is a multiple of that of its targets. -/
def Overfills (session : Session) : Command → Prop
  | .assign source selector value _ =>
    ∃ given targets, session.Replaces source selector value given targets ∧ targets ∣ given
  | _ => False

section Assignments

variable {source : Source} {selector value : OperandSource} {given targets : Nat}

theorem Replaces.unique {given' targets' : Nat}
    (here : session.Replaces source selector value given targets)
    (there : session.Replaces source selector value given' targets') :
    given = given' ∧ targets = targets' := by
  obtain ⟨v, spec, values, resolution, found, specFound, valueFound, resolved, rfl, rfl⟩ := here
  obtain ⟨v', spec', values', resolution', found', specFound', valueFound', resolved', rfl, rfl⟩ :=
    there
  cases found.symm.trans found'
  cases specFound.symm.trans specFound'
  cases valueFound.symm.trans valueFound'
  cases resolved.symm.trans resolved'
  exact ⟨rfl, rfl⟩

theorem Replaces.overfills_iff (replaces : session.Replaces source selector value given targets)
    (handler? : Option CallHandler) :
    session.Overfills (.assign source selector value handler?) ↔ targets ∣ given := by
  constructor
  · rintro ⟨given', targets', replaces', whole⟩
    obtain ⟨rfl, rfl⟩ := replaces.unique replaces'
    exact whole
  · exact fun whole => ⟨given, targets, replaces, whole⟩

theorem replaces_of_outcome (regular : session.Holds TypedVector.Regular)
    {handler? : Option CallHandler} {answer : Answer} {warnings : List Warning}
    (done : session.outcome (.assign source selector value handler?) = .ok (answer, warnings)) :
    ∃ given targets warning?, session.Replaces source selector value given targets ∧
      Recycling.onto given targets = .ok warning? ∧ warnings = warning?.toList := by
  have searched := regular.searched kept_regular (.assign source selector value none)
  have agree := fun name => (session.agreeAt_assigning source selector value name).symm
  obtain ⟨⟨w, told⟩, made, same⟩ := map_success done
  obtain ⟨⟨_, warning?⟩, assigned, same'⟩ := bind_success made
  cases same
  cases pure_success same'
  -- What the assignment read has the same state in the session that it started from.
  obtain ⟨v, spec, values, found, specFound, valuesFound, assigned⟩ := assignment_success assigned
  obtain ⟨v', found', sameVector⟩ := read_agree agree found
  obtain ⟨spec', specFound', sameSpec⟩ := operand_agree agree specFound
  obtain ⟨values', valuesFound', sameValues⟩ := operandVector_agree agree valuesFound
  obtain ⟨resolution, resolved, recycled, _⟩ := TypedVector.assignBy_success
    (searched.read kept_regular found) (searched.regularVector valuesFound) assigned
  rw [← sameVector.resolution_eq sameSpec] at resolved
  rw [← sameValues.length_eq] at recycled
  exact ⟨_, _, warning?, ⟨v', spec', values', resolution, found', specFound', valuesFound',
    resolved, rfl, rfl⟩, recycled, rfl⟩

theorem run_assign_thrown (reachable : session.Reachable) {v values : TypedVector} {spec : Operand}
    {resolution : Resolution} {warning : Warning} (found : session.read source = .ok v)
    (specFound : session.operand selector = .ok spec)
    (valueFound : session.operandVector value = .ok values)
    (resolved : spec.resolution v = .ok resolution) (allowed : resolution.highest ≤ lengthLimit)
    (told : Recycling.onto values.length resolution.targets.length = .ok (some warning)) :
    (session.run (.assign source selector value (some .throwing))).2 =
      .error (.thrown warning) := by
  obtain ⟨cause, only, _⟩ | ⟨_, other, w, warning?, same, recycled, _, _, run⟩ :=
    run_assign_cases reachable found specFound valueFound
  · rw [resolved] at only
    cases (only cause).2 rfl with
    | unresolved failed => cases failed
    | tooLong same _ tooLong =>
      cases same
      exact absurd allowed (Nat.not_le.2 tooLong)
    | empty same _ _ empty =>
      cases same
      rcases Recycling.onto_success told with ⟨_, silent⟩ | ⟨_, nonempty, _⟩
      · cases silent
      · exact absurd empty (Nat.ne_of_gt nonempty)
  · cases resolved.symm.trans same
    cases told.symm.trans recycled
    rw [run]
    rfl

end Assignments

open Recycling (Misfit)

/-- Warnings about lengths tell the truth, save that of more values than targets an assignment tells
also where their number is a multiple. -/
theorem recycling_warnings_true (reachable : session.Reachable) (command : Command) :
    (∀ lengths alignment warning, Recycling.align lengths = .ok alignment →
      alignment.warning? = some warning →
        ∃ shorter ∈ lengths, warning = .recycledLength (longest lengths) shorter ∧
          Misfit (longest lengths) shorter) ∧
    (∀ given targets warning, Recycling.onto given targets = .ok (some warning) →
      ∃ longer shorter, warning = .recycledLength longer shorter ∧ 0 < shorter ∧
        shorter < longer ∧ (Misfit longer shorter ↔ ¬targets ∣ given)) ∧
    ∀ longer shorter, (session.run command).2.Tells (.recycledLength longer shorter) →
      0 < shorter ∧ shorter < longer ∧ (Misfit longer shorter ↔ ¬session.Overfills command) := by
  refine ⟨fun lengths alignment warning aligned => (Recycling.align_warning? aligned).2 warning,
    fun given targets warning recycled => (Recycling.onto_warning? recycled).2 warning rfl,
    fun longer shorter tells => ?_⟩
  obtain ⟨answer, warnings, done, inside⟩ := (session.run_delivered command).mem_of_tells
    (expected_outcome reachable.regular command) tells
  cases command with
  | assign source selector value handler? =>
    obtain ⟨given, targets, warning?, replaces, recycled, rfl⟩ :=
      replaces_of_outcome reachable.regular done
    obtain ⟨_, _, same, positive, less, misfit⟩ :=
      (Recycling.onto_warning? recycled).2 _ (Option.mem_toList.1 inside)
    cases same
    exact ⟨positive, less, misfit.trans (not_congr (replaces.overfills_iff handler?).symm)⟩
  | _ =>
    have listed := listed_outcome done fun _ _ _ _ same => by cases same
    have misfit := listed.misfits longer shorter inside
    exact ⟨misfit.positive, misfit.less, iff_of_true misfit id⟩

/-- Two values for the three places of a mask that is longer than the vector. -/
theorem recycling_warnings_true_mask :
    let session := (initial.runInto (some "v")
      (.build (.literal .logical [.truth true, .missing] none))).1
    let command := Command.assign (.variable "v") (.cells [.truth true, .truth true, .truth true])
      (.cells [.truth true, .missing]) (some .throwing)
    session.Reachable ∧ (session.run command).2.Tells (.recycledLength 3 2) ∧ Misfit 3 2 ∧
      ¬session.Overfills command := by
  intro session command
  have reachable : session.Reachable := .step .initial _ _
  have resolved : (Operand.cells [.truth true, .truth true, .truth true]).resolution
      (.make .logical (RadixArray.ofList [.truth true, .missing]) none) =
        .ok ⟨[.place 0, .place 1, .place 2], 3, []⟩ := by decide +kernel
  have thrown : (session.run command).2 = .error (.thrown (.recycledLength 3 2)) :=
    run_assign_thrown reachable rfl rfl rfl resolved (by decide) (by decide +kernel)
  have tells : (session.run command).2.Tells (.recycledLength 3 2) := thrown ▸ .thrown
  obtain ⟨positive, less, truth⟩ := (recycling_warnings_true reachable command).2.2 3 2 tells
  have misfit : Misfit 3 2 := ⟨positive, less, by decide⟩
  exact ⟨reachable, tells, misfit, truth.1 misfit⟩

/-- Four values for two places are told of as if four were no multiple of two. -/
theorem recycling_warning_of_multiple :
    let session := (initial.runInto (some "v")
      (.build (.literal .logical [.truth true, .missing] none))).1
    let command := Command.assign (.variable "v") (.cells [.truth true])
      (.cells [.truth true, .missing, .truth true, .missing]) (some .throwing)
    Recycling.onto 4 2 = .ok (some (.recycledLength 4 2)) ∧
      (session.run command).2.Tells (.recycledLength 4 2) ∧ ¬Misfit 4 2 := by
  intro session command
  have resolved : (Operand.cells [.truth true]).resolution
      (.make .logical (RadixArray.ofList [.truth true, .missing]) none) =
        .ok ⟨[.place 0, .place 1], 2, []⟩ := by decide +kernel
  have thrown : (session.run command).2 = .error (.thrown (.recycledLength 4 2)) :=
    run_assign_thrown (.step .initial _ _) rfl rfl rfl resolved (by decide) (by decide +kernel)
  exact ⟨rfl, thrown ▸ .thrown, fun misfit => misfit.undivided (by decide)⟩

end Session
end TypedVectors
