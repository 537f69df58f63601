import Mathlib.Data.List.Induction
import TypedVectors.Proofs.RadixArray.Update
import TypedVectors.Proofs.Success
import TypedVectors.Selection.Assignment

/-!
Writes of recycled values to a list of targets. A place gets the value of the last target that
addresses it, and all other places keep their cells.
-/
namespace TypedVectors

/-- The index of the last of some targets that address a place. -/
structure LastAt (targets : List Target) (place index : Nat) : Prop where
  here : targets[index]? = some (.place place)
  later : ∀ other, index < other → targets[other]? ≠ some (.place place)

theorem LastAt.lt_length {targets : List Target} {place index : Nat}
    (last : LastAt targets place index) : index < targets.length :=
  (List.getElem?_eq_some_iff.1 last.here).1

theorem lastAt_concat_self {targets : List Target} {place index : Nat} :
    LastAt (targets ++ [.place place]) place index ↔ index = targets.length := by
  constructor
  · intro last
    have bound := last.lt_length
    rw [List.length_append, List.length_singleton] at bound
    by_contra different
    exact last.later targets.length (by omega) List.getElem?_concat_length
  · rintro rfl
    refine ⟨List.getElem?_concat_length, fun other after => ?_⟩
    rw [List.getElem?_eq_none (by rw [List.length_append]; exact after)]
    exact fun absurd => by cases absurd

theorem lastAt_of_concat {targets : List Target} {place other index : Nat}
    (different : other ≠ place) (last : LastAt (targets ++ [.place other]) place index) :
    LastAt targets place index := by
  have before : ∀ {at' : Nat}, (targets ++ [Target.place other])[at']? = some (.place place) ↔
      targets[at']? = some (.place place) := by
    intro at'
    rw [List.getElem?_append]
    split
    · rfl
    · next past =>
      rw [List.getElem?_eq_none (Nat.not_lt.1 past)]
      constructor
      · intro found
        have only := List.mem_singleton.1 (List.mem_of_getElem? found)
        exact absurd (Target.place.inj only).symm different
      · exact fun absurd => by cases absurd
  exact ⟨before.1 last.here, fun later after found => last.later later after (before.2 found)⟩

theorem exists_lastAt {targets : List Target} {place : Nat} (inside : .place place ∈ targets) :
    ∃ index, LastAt targets place index := by
  induction targets using List.reverseRecOn with
  | nil => cases inside
  | append_singleton targets target ih =>
    by_cases same : target = .place place
    · subst same
      exact ⟨_, lastAt_concat_self.2 rfl⟩
    · have earlier : .place place ∈ targets := by
        rcases List.mem_append.1 inside with earlier | only
        · exact earlier
        · exact absurd (List.mem_singleton.1 only).symm same
      obtain ⟨index, last⟩ := ih earlier
      have bound := last.lt_length
      refine ⟨index, ?_, ?_⟩
      · rw [List.getElem?_append_left bound]
        exact last.here
      · intro other after found
        rw [List.getElem?_append] at found
        split at found
        · exact last.later other after found
        · exact same (List.mem_singleton.1 (List.mem_of_getElem? found)).symm

structure Overwrites (values : Array Cell) (targets : List Target) (before after : List Cell) :
    Prop where
  length : after.length = before.length
  untouched : ∀ place, .place place ∉ targets → after[place]? = before[place]?
  last : ∀ place index, LastAt targets place index →
    after[place]? = values[Recycling.source values.size index]?

theorem Overwrites.nil (values : Array Cell) (cells : List Cell) :
    Overwrites values [] cells cells where
  length := rfl
  untouched := fun _ _ => rfl
  last := fun _ _ last => by cases last.here

theorem Overwrites.concat {values : Array Cell} {targets : List Target} {before after : List Cell}
    {place : Nat} {value : Cell} (written : Overwrites values targets before after)
    (inside : place < before.length)
    (found : values[Recycling.source values.size targets.length]? = some value) :
    Overwrites values (targets ++ [.place place]) before (after.set place value) where
  length := by rw [List.length_set, written.length]
  untouched := by
    intro other outside
    rw [List.mem_append, not_or, List.mem_singleton] at outside
    rw [List.getElem?_set_ne fun same => outside.2 (congrArg Target.place same.symm)]
    exact written.untouched other outside.1
  last := by
    intro other index last
    by_cases same : place = other
    · subst same
      rw [lastAt_concat_self.1 last, found, List.getElem?_set_self (written.length ▸ inside)]
    · rw [List.getElem?_set_ne same]
      exact written.last other index (lastAt_of_concat same last)

/-- Writing to places inside the cells succeeds, and later writes win. -/
theorem writeAll_overwrites {values : Array Cell} {targets : List Target} {before : List Cell}
    (nonempty : 0 < values.size)
    (inside : ∀ target ∈ targets, ∃ place < before.length, target = .place place) :
    ∃ after, TypedVector.writeAll values targets (RadixArray.ofList before) =
      .ok (RadixArray.ofList after) ∧ Overwrites values targets before after := by
  -- From the end, so that one more target is one later write.
  induction targets using List.reverseRecOn with
  | nil => exact ⟨before, rfl, .nil values before⟩
  | append_singleton targets target ih =>
    obtain ⟨after, done, written⟩ :=
      ih fun target member => inside target (List.mem_append_left _ member)
    obtain ⟨place, bound, rfl⟩ := inside target (List.mem_append_right _ List.mem_cons_self)
    have source : Recycling.source values.size targets.length < values.size := Nat.mod_lt _ nonempty
    refine ⟨after.set place values[Recycling.source values.size targets.length], ?_,
      written.concat bound (Array.getElem?_eq_getElem source)⟩
    have value := readAt_eq source
    have set := RadixArray.set_ofList values[Recycling.source values.size targets.length]
      (written.length ▸ bound)
    unfold TypedVector.writeAll at done ⊢
    rw [List.zipIdx_append, List.foldlM_append, done]
    change (readAt values (Recycling.source values.size (0 + targets.length)) >>= _) >>= pure = _
    rw [Nat.zero_add, value, bind_pure]
    simp only [bind, Except.bind, Target.index, set]

end TypedVectors
