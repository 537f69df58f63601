import TypedVectors.Proofs.Session.Run
import TypedVectors.Proofs.TypedVector.NameIndex

/-!
Names are found where they stand. New vectors have no index, and a write keeps the index only where
it keeps the names, so that at any time the index that a vector keeps is that of its own names.
-/
namespace TypedVectors

namespace TypedVector

theorem indexCurrent_copy (v : TypedVector) : v.copy.IndexCurrent := by
  intro index kept
  cases kept

theorem indexCurrent_withNames {v w : TypedVector} {given : List Cell}
    (ok : v.withNames given = .ok w) : w.IndexCurrent := by
  unfold withNames at ok
  split at ok
  · cases ok
  · cases ok
    exact indexCurrent_make

theorem indexCurrent_build {kind : Kind} {cells : List Cell} {names? : Option (List Cell)}
    {v : TypedVector} (ok : build kind cells names? = .ok v) : v.IndexCurrent := by
  unfold build at ok
  split at ok
  · cases ok
  · dsimp only at ok
    split at ok
    · exact indexCurrent_withNames ok
    · cases ok
      exact indexCurrent_make

theorem indexCurrent_binary {operator : Operator} {left right w : TypedVector}
    {warnings : List Warning} (ok : binary operator left right = .ok (w, warnings)) :
    w.IndexCurrent := by
  unfold binary at ok
  obtain ⟨_, ok⟩ := guarded_success ok
  obtain ⟨alignment, _, ok⟩ := bind_success ok
  obtain ⟨results, _, ok⟩ := bind_success ok
  cases pure_success ok
  exact indexCurrent_make

theorem indexCurrent_roundTo {v places w : TypedVector} {warnings : List Warning}
    (ok : v.roundTo places = .ok (w, warnings)) : w.IndexCurrent := by
  obtain ⟨_, _, ok⟩ := bind_success ok
  obtain ⟨_, _, ok⟩ := bind_success ok
  obtain ⟨xs, _, ok⟩ := bind_success ok
  obtain ⟨digits, _, ok⟩ := bind_success ok
  obtain ⟨alignment, _, ok⟩ := bind_success ok
  obtain ⟨results, _, ok⟩ := bind_success ok
  cases pure_success ok
  exact indexCurrent_make

theorem indexCurrent_apply {f : ElementFunction} {operands : List TypedVector} {w : TypedVector}
    {warnings : List Warning} (ok : f.apply operands = .ok (w, warnings)) : w.IndexCurrent := by
  unfold ElementFunction.apply at ok
  split at ok
  · cases ok
  obtain ⟨alignment, _, ok⟩ := bind_success ok
  obtain ⟨cells, _, ok⟩ := bind_success ok
  cases pure_success ok
  exact indexCurrent_make

theorem indexCurrent_combine {operands : List Operand} {w : TypedVector}
    (ok : Operand.combine operands = .ok w) : w.IndexCurrent := by
  obtain ⟨cells, _, ok⟩ := bind_success ok
  dsimp only at ok
  split at ok
  · obtain ⟨names, _, ok⟩ := bind_success ok
    cases pure_success ok
    exact indexCurrent_make
  · cases pure_success ok
    exact indexCurrent_make

theorem indexCurrent_repeated {operand : Operand} {times each : Binary64} {w : TypedVector}
    (ok : operand.repeated times each = .ok w) : w.IndexCurrent := by
  obtain ⟨_, _, _, _, rfl⟩ := Operand.repeated_success ok
  exact indexCurrent_make

theorem indexCurrent_progression {first last : Binary64} {step? : Option Binary64}
    {v : TypedVector} (ok : progression first last step? = .ok v) : v.IndexCurrent := by
  unfold progression at ok
  dsimp only at ok
  split at ok
  · cases ok
  · obtain ⟨length, _, ok⟩ := bind_success ok
    split at ok
    · cases ok
    · cases pure_success ok
      exact indexCurrent_make

/-- A write that keeps the names keeps them all. -/
theorem grownNames?_of_keepsNames {v : TypedVector} {resolution : Resolution}
    (keeps : v.keepsNames resolution) : v.grownNames? resolution = v.names? := by
  unfold keepsNames at keeps
  unfold grownNames?
  cases named : v.names? with
  | none =>
    rw [named] at keeps
    dsimp only at keeps ⊢
    rw [if_pos keeps, Option.map_none]
  | some names =>
    rw [named] at keeps
    have short : resolution.highest ≤ names.size := of_decide_eq_true keeps
    dsimp only
    rw [Option.map_some, RadixArray.grow, Nat.sub_eq_zero_of_le short]
    rfl

theorem IndexCurrent.assign {v value w : TypedVector} {selector : Selector}
    {warning? : Option Warning} (current : v.IndexCurrent)
    (ok : v.assign selector value = .ok (w, warning?)) : w.IndexCurrent := by
  obtain ⟨resolution, _, ok⟩ := bind_success ok
  dsimp only at ok
  split at ok
  · cases pure_success ok
    exact current
  · split at ok
    · cases ok
    · obtain ⟨recycled, _, ok⟩ := bind_success ok
      obtain ⟨values, _, ok⟩ := bind_success ok
      obtain ⟨promoted, _, ok⟩ := bind_success ok
      obtain ⟨written, _, ok⟩ := bind_success ok
      cases pure_success ok
      intro index kept
      dsimp only at kept
      split at kept
      · next keeps =>
        rw [current index kept, givenNames, givenNames, grownNames?_of_keepsNames keeps]
      · cases kept

end TypedVector

theorem kept_indexCurrent : Kept TypedVector.IndexCurrent where
  build := TypedVector.indexCurrent_build
  blank := fun _ => TypedVector.indexCurrent_make
  scalar := fun _ _ => TypedVector.indexCurrent_combine
  combine := fun _ => TypedVector.indexCurrent_combine
  repeated := fun _ => TypedVector.indexCurrent_repeated
  namesVector := fun _ named => by
    obtain ⟨names, _, rfl⟩ := Option.map_eq_some_iff.1 named
    exact TypedVector.indexCurrent_make
  withoutNames := fun _ => TypedVector.indexCurrent_make
  withNames := fun _ => TypedVector.indexCurrent_withNames
  withNamesOf := fun _ _ ok => by
    obtain ⟨given, _, ok⟩ := bind_success ok
    exact TypedVector.indexCurrent_withNames ok
  extract := fun _ ok => by
    obtain ⟨resolution, _, ok⟩ := bind_success ok
    cases pure_success ok
    exact TypedVector.indexCurrent_make
  copy := fun _ => TypedVector.indexCurrent_copy _
  binary := fun _ _ => TypedVector.indexCurrent_binary
  apply := fun _ => TypedVector.indexCurrent_apply
  roundTo := fun _ _ => TypedVector.indexCurrent_roundTo
  negate := fun _ ok => by
    obtain ⟨_, _, ok⟩ := bind_success ok
    obtain ⟨cells, _, ok⟩ := bind_success ok
    cases pure_success ok
    exact TypedVector.indexCurrent_make
  complement := fun _ ok => by
    obtain ⟨_, _, ok⟩ := bind_success ok
    cases pure_success ok
    exact TypedVector.indexCurrent_make
  absences := fun _ => TypedVector.indexCurrent_make
  convert := fun _ _ => TypedVector.indexCurrent_make
  assign := fun current _ => current.assign
  indexed := TypedVector.IndexCurrent.indexed

theorem Command.admits_indexCurrent (command : Command) :
    command.Admits TypedVector.IndexCurrent where
  cells := fun _ _ _ => TypedVector.indexCurrent_combine
  progression := fun _ _ _ _ _ => TypedVector.indexCurrent_progression

/-- Whatever commands are run, failing ones included, and whenever names were searched before, every
vector there is finds its names where they stand now. -/
theorem namesFound_history (program : List (Option String × Command)) :
    ∀ point ∈ Session.initial.history program,
      point.1.Holds TypedVector.NamesFound ∧ Reply.Holds TypedVector.NamesFound point.2 := by
  intro point inside
  obtain ⟨after, replied⟩ := (Session.holds_initial _).history kept_indexCurrent
    (fun step _ => step.2.admits_indexCurrent) point inside
  exact ⟨fun entry stored => (after entry stored).namesFound,
    fun v deliveries told => (replied v deliveries told).namesFound⟩

/-- The names of one vector are searched, and another one is made of it under other names. -/
theorem namesFound_history_renamed :
    let program : List (Option String × Command) :=
      [(some "v", .build (.literal .logical [.missing, .missing] (some [.text "a", .text "a"]))),
        (none, .placesOf (.variable "v") "a"),
        (some "w", .setNames (.variable "v") (.cells [.text "b"]))]
    ∃ point ∈ Session.initial.history program, ∃ v w,
      point.1.vectors = [("w", w), ("v", v)] ∧ v.index?.isSome ∧ v.NamesFound ∧
        v.givenNames = ["a", "a"] ∧ w.NamesFound ∧ w.givenNames = ["b", ""] := by
  intro program
  have inside := List.getElem_mem (l := Session.initial.history program) (n := 2) (by decide)
  have holds := (namesFound_history program _ inside).1
  refine ⟨_, inside, _, _, rfl, rfl, holds ("v", _) ?_, ?_, holds ("w", _) ?_, ?_⟩
  · exact List.mem_cons_of_mem _ List.mem_cons_self
  · exact RadixArray.toList_ofList _
  · exact List.mem_cons_self
  · exact RadixArray.toList_ofList _

end TypedVectors
