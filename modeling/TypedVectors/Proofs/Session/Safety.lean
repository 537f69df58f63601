import TypedVectors.Proofs.Safety
import TypedVectors.Proofs.Session.Outcome

/-!
No command runs into an error inside an operation. Each operation is safe on regular vectors, and
sessions have no others.
-/
namespace TypedVectors

/-- Whether a failure is neither an error inside an operation nor a warning that was thrown. -/
def Failure.IsExternal : Failure → Prop
  | .error cause => cause.isInternal = false
  | .thrown _ => False
  | .unknownVariable _ => True

namespace Session

abbrev Expected {α : Type} (result : Except Failure α) : Prop :=
  FailsOnly Failure.IsExternal result

variable {session : Session} {command : Command}

theorem expected_attempt {α : Type} {result : Except Error α} (safe : Safe result) :
    Expected (attempt result) := .mapError safe

theorem expected_read (session : Session) (source : Source) : Expected (session.read source) := by
  rcases source with name | ⟨kind, cells, names?⟩
  · unfold read
    dsimp only
    split
    · exact .ok _
    · exact .error trivial
  · exact expected_attempt (TypedVector.safe_build kind cells names?)

theorem expected_operand (session : Session) (source : OperandSource) :
    Expected (session.operand source) := by
  cases source with
  | vector source => exact (session.expected_read source).map Operand.vector
  | scalar cell => exact .ok _
  | cells items => exact .ok _

theorem expected_operands (session : Session) (sources : List OperandSource) :
    Expected (sources.mapM session.operand) :=
  .mapM fun source _ => session.expected_operand source

theorem expected_operandVector (session : Session) (source : OperandSource) :
    Expected (session.operandVector source) :=
  .bind (session.expected_operand source) fun operand _ => expected_attempt operand.safe_toVector

theorem expected_selector (session : Session) (source : OperandSource) :
    Expected (session.selector source) :=
  .bind (session.expected_operand source) fun operand _ =>
    expected_attempt (Selector.safe_ofOperand operand)

section Regular

variable (regular : session.Holds TypedVector.Regular)
include regular

theorem Holds.regularOperand {source : OperandSource} {operand : Operand}
    (found : session.operand source = .ok operand) : operand.Holds TypedVector.Regular := by
  refine regular.operand kept_regular (fun items _ v ok => ?_) found
  rw [Operand.toVector_cells] at ok
  cases ok
  exact TypedVector.follows_unnamed fun _ _ => trivial

theorem Holds.regularOperands {sources : List OperandSource} {operands : List Operand}
    (found : sources.mapM session.operand = .ok operands) :
    ∀ operand ∈ operands, operand.Holds TypedVector.Regular := by
  intro operand inside
  obtain ⟨source, _, found⟩ := exists_of_mapM found inside
  exact regular.regularOperand found

theorem Holds.regularVector {source : OperandSource} {v : TypedVector}
    (found : session.operandVector source = .ok v) : v.Regular := by
  obtain ⟨operand, read, made⟩ := bind_success found
  exact regular.regularOperand read v (attempt_success made)

theorem expected_assignment (source : Source) (selector value : OperandSource) :
    Expected (session.assignment source selector value) := by
  refine .bind (session.expected_read source) fun v found => ?_
  refine .bind (session.expected_operand selector) fun spec _ => ?_
  refine .bind (session.expected_operand value) fun operand read => expected_attempt ?_
  refine .bind operand.safe_toVector fun given made => ?_
  refine .bind (Selector.safe_ofOperand spec) fun selector _ => ?_
  exact TypedVector.safe_assign (regular.read kept_regular found)
    (regular.regularOperand read given made) selector

theorem expected_made? {made : Except Failure (TypedVector × List Warning)}
    (done : session.made? command = some made) : Expected made := by
  cases command with
  | assign source selector value _ =>
    cases done
    exact .bind (expected_assignment regular source selector value) fun _ _ => .ok _
  | binary operator left right _ =>
    cases done
    refine .bind (session.expected_operand left) fun left leftFound => ?_
    refine .bind (session.expected_operand right) fun right rightFound => expected_attempt ?_
    refine .bind left.safe_toVector fun v leftMade => ?_
    refine .bind right.safe_toVector fun w rightMade => ?_
    exact TypedVector.safe_binary operator (regular.regularOperand leftFound v leftMade)
      (regular.regularOperand rightFound w rightMade)
  | apply f sources _ =>
    cases done
    refine .bind (session.expected_operands sources) fun operands found => expected_attempt ?_
    refine .bind (.mapM fun operand _ => operand.safe_toVector) fun vectors made => ?_
    refine f.safe_apply fun v inside => ?_
    obtain ⟨operand, member, made⟩ := exists_of_mapM made inside
    exact regular.regularOperands found operand member v made
  | roundTo operand places _ =>
    cases done
    refine .bind (session.expected_operand operand) fun operand _ => ?_
    refine .bind (session.expected_operand places) fun places _ => expected_attempt ?_
    refine .bind operand.safe_toVector fun v _ => .bind places.safe_toVector fun digits _ => ?_
    exact v.safe_roundTo digits
  | convert source kind _ =>
    cases done
    exact .bind (session.expected_operandVector source) fun _ _ => .ok _
  | _ => cases done

theorem expected_answer (unmade : session.made? command = none) :
    Expected (session.answer command) := by
  cases command with
  | assign | binary | apply | roundTo | convert => cases unmade
  | blank | configure | reset => exact .ok _
  | build source | length source | kind source | cells source | placeOf source _ | placesOf source _
  | copy source =>
    exact .bind (session.expected_read source) fun _ _ => .ok _
  | cellAt source position =>
    refine .bind (session.expected_read source) fun v _ => ?_
    exact .bind (expected_attempt (v.safe_cellAt position)) fun _ _ => .ok _
  | vector source | absences source =>
    exact .bind (session.expected_operandVector source) fun _ _ => .ok _
  | combine sources =>
    refine .bind (session.expected_operands sources) fun operands found => ?_
    refine .bind (expected_attempt (Operand.safe_combine fun operand inside => ?_)) fun _ _ => .ok _
    exact (Operand.follows_part (regular.regularOperands found operand inside)).names
  | isVector source =>
    refine .bind (session.expected_operand source) fun operand _ => ?_
    cases operand <;> exact .ok _
  | progression first last step? =>
    exact .bind (expected_attempt (TypedVector.safe_progression first last step?)) fun _ _ => .ok _
  | repeated source times each? =>
    refine .bind (session.expected_operand source) fun operand _ => ?_
    exact .bind (expected_attempt (operand.safe_repeated times _)) fun _ _ => .ok _
  | names source =>
    refine .bind (session.expected_read source) fun v _ => ?_
    split
    · exact .ok _
    · exact .ok _
  | setNames source names =>
    cases names with
    | none => exact .bind (session.expected_read source) fun _ _ => .ok _
    | cells items =>
      refine .bind (session.expected_read source) fun v _ => ?_
      exact .bind (expected_attempt (v.safe_withNames items)) fun _ _ => .ok _
    | vector names =>
      refine .bind (session.expected_read source) fun v _ => ?_
      refine .bind (session.expected_read names) fun given _ => ?_
      exact .bind (expected_attempt (v.safe_withNamesOf given)) fun _ _ => .ok _
  | resolve source selector access =>
    refine .bind (session.expected_read source) fun v _ => ?_
    refine .bind (session.expected_selector selector) fun selector _ => ?_
    exact .bind (expected_attempt (selector.safe_resolve v access)) fun _ _ => .ok _
  | extract source selector =>
    refine .bind (session.expected_read source) fun v _ => ?_
    refine .bind (session.expected_selector selector) fun selector _ => ?_
    exact .bind (expected_attempt (v.safe_extract selector)) fun _ _ => .ok _
  | negate source =>
    refine .bind (session.expected_operandVector source) fun v _ => ?_
    exact .bind (expected_attempt v.safe_negate) fun _ _ => .ok _
  | complement source =>
    refine .bind (session.expected_operandVector source) fun v _ => ?_
    exact .bind (expected_attempt v.safe_complement) fun _ _ => .ok _

theorem expected_outcome (command : Command) : Expected (session.outcome command) := by
  have searched := regular.searched kept_regular command
  unfold outcome
  dsimp only
  cases done : (session.searched command).made? command with
  | some made => exact (expected_made? searched done).map _
  | none => exact (expected_answer searched done).map _

end Regular

/-- Commands never fail inside an operation: what they promote goes up, and what they read or write
by a computed index is there, be it the source of a recycled cell or an extracted cell or name. -/
theorem Reachable.internal_unreachable (reachable : session.Reachable) :
    (∀ command error, (session.run command).2 = .error (.error error) →
      error.isInternal = false) ∧
    (∀ source target cell, cell.isMissing = false →
      source.rank ≤ target.rank ∨ target = .character →
      Cell.promote source target cell = .ok (cell.convert source target).cell) ∧
    (∀ lengths alignment, Recycling.align lengths = .ok alignment →
      ∀ index < alignment.length, ∀ n ∈ lengths, Recycling.source n index < n) ∧
    (∀ given targets warning?, Recycling.onto given targets = .ok warning? →
      ∀ index < targets, Recycling.source given index < given) ∧
    (∀ source v (selector : Selector) resolution, session.read source = .ok v →
      selector.resolve v .read = .ok resolution →
      let indices := resolution.targets.map (TypedVector.insideIndex v.length)
      v.cells.ReadsInside indices ∧ ∀ names, v.names? = some names → names.ReadsInside indices) ∧
    ∀ source operand, session.operand source = .ok operand → operand.part.NamesFit := by
  refine ⟨fun command error failed => ?_, fun source target cell present up => ?_,
    fun lengths alignment aligned index below n inside =>
      Recycling.align_inside aligned below inside,
    fun given targets warning? recycled index below => Recycling.onto_inside recycled below,
    fun source v selector resolution found _ => ?_, fun source operand found => ?_⟩
  · have delivered := session.run_delivered command
    have expected := expected_outcome reachable.regular command
    rw [failed] at delivered
    generalize session.outcome command = outcome at delivered expected
    cases delivered with
    | failed => exact expected _ rfl
  · have upward : source.rank ≤ target.rank := by
      rcases up with up | rfl
      · exact up
      · exact source.rank_le_character
    rw [Cell.promote_eq upward, Cell.raise_eq_convert upward]
  · have regular : v.Regular := reachable.regular.read kept_regular found
    refine ⟨regular.canonical.readsInside resolution.targets, fun names named => ?_⟩
    obtain ⟨canonical, fit⟩ := regular.names names named
    rw [← fit]
    exact canonical.readsInside resolution.targets
  · exact (Operand.follows_part (reachable.regular.regularOperand found)).names

/-- Names are read past the last one, and then the vector meets a text that the operator refuses. -/
theorem internal_unreachable_named :
    let session := (initial.runInto (some "v")
      (.build (.literal .logical [.truth true, .missing] (some [.text "a"])))).1
    let v := (TypedVector.build .logical [.truth true, .missing] (some [.text "a"])).toOption
    let refused := Error.nonNumeric (.binary (.arithmetic .add))
    session.Reachable ∧
      (session.run (.binary (.arithmetic .add) (.vector (.variable "v")) (.scalar (.text "b"))
        none)).2 = .error (.error refused) ∧ refused.isInternal = false ∧
      ∃ w names, v = some w ∧ w.names? = some names ∧ names.ReadsInside [1, -1] := by
  intro session v refused
  have reachable : session.Reachable := .step .initial _ _
  obtain ⟨expected, _, _, _, extracted, _⟩ := reachable.internal_unreachable
  have failed : (session.run (.binary (.arithmetic .add) (.vector (.variable "v"))
      (.scalar (.text "b")) none)).2 = .error (.error refused) := rfl
  obtain ⟨_, inside⟩ := extracted (.variable "v") _ (.positions [some 2, some 5])
    ⟨[.place 1, .place 4], 5, []⟩ rfl (by decide +kernel)
  exact ⟨reachable, failed, expected _ _ failed, _, _, rfl, rfl, inside _ rfl⟩

end Session
end TypedVectors
