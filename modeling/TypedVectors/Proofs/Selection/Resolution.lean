import Mathlib.Data.List.Induction
import TypedVectors.Proofs.Binary64.Rounding
import TypedVectors.Proofs.Success
import TypedVectors.Selection.Resolution

/-!
What resolving for a write gives: only places, and names for the new places in order. Up to the
longest length that is allowed, positions are the whole numbers that they stand for.
-/
namespace TypedVectors

namespace Selection

theorem wholeNumber_eq {n : Nat} (allowed : wholeNumber n ≤ lengthLimit) : wholeNumber n = n := by
  refine roundSteps_small (Nat.not_le.1 fun large => ?_)
  have high := Nat.le_trans (le_roundSteps_large large) allowed
  exact absurd high (by decide)

theorem le_foldl_highest (targets : List Target) (best : Nat) :
    best ≤ targets.foldl (fun best target =>
      match target with
      | .missing => best
      | .place index => max best (wholeNumber (index + 1))) best := by
  induction targets generalizing best with
  | nil => exact Nat.le_refl best
  | cons first rest ih =>
    refine Nat.le_trans ?_ (ih _)
    cases first with
    | missing => exact Nat.le_refl best
    | place index => exact Nat.le_max_left _ _

theorem le_highest {index : Nat} {targets : List Target} (inside : .place index ∈ targets) :
    wholeNumber (index + 1) ≤ highest targets := by
  unfold highest
  generalize 0 = best
  induction targets generalizing best with
  | nil => cases inside
  | cons first rest ih =>
    rcases List.mem_cons.1 inside with rfl | later
    · exact Nat.le_trans (Nat.le_max_right _ _) (le_foldl_highest rest _)
    · exact ih later _

/-- Up to the longest length allowed, every target lies below the highest position. -/
theorem lt_highest {index : Nat} {targets : List Target} (inside : .place index ∈ targets)
    (allowed : highest targets ≤ lengthLimit) : index < highest targets := by
  have below := le_highest inside
  rwa [wholeNumber_eq (Nat.le_trans below allowed)] at below

/-- The highest position from one among targets, as it is without rounding. -/
structure IsHighest (targets : List Target) (highest : Nat) : Prop where
  above : ∀ place, .place place ∈ targets → place + 1 ≤ highest
  reached : highest = 0 ∨ ∃ place, .place place ∈ targets ∧ highest = place + 1

theorem highest_concat_missing (targets : List Target) :
    highest (targets ++ [.missing]) = highest targets := by
  unfold highest
  rw [List.foldl_concat]

theorem highest_concat_place (targets : List Target) (place : Nat) :
    highest (targets ++ [.place place]) = max (highest targets) (wholeNumber (place + 1)) := by
  unfold highest
  rw [List.foldl_concat]

theorem isHighest_highest {targets : List Target}
    (rounded : ∀ place, .place place ∈ targets → wholeNumber (place + 1) = place + 1) :
    IsHighest targets (highest targets) := by
  induction targets using List.reverseRecOn with
  | nil => exact ⟨fun _ inside => (List.not_mem_nil inside).elim, .inl rfl⟩
  | append_singleton targets last ih =>
    obtain ⟨above, reached⟩ := ih fun place inside => rounded place (List.mem_append_left _ inside)
    have earlier {place : Nat} (inside : .place place ∈ targets) :
        .place place ∈ targets ++ [last] := List.mem_append_left _ inside
    cases last with
    | missing =>
      rw [highest_concat_missing]
      refine ⟨fun place inside => above place (by simpa using inside), ?_⟩
      exact reached.imp_right fun ⟨place, inside, same⟩ => ⟨place, earlier inside, same⟩
    | place last =>
      have here : Target.place last ∈ targets ++ [.place last] :=
        List.mem_append_right _ List.mem_cons_self
      rw [highest_concat_place, rounded last here]
      constructor
      · intro place inside
        rcases List.mem_append.1 inside with before | only
        · exact Nat.le_trans (above place before) (Nat.le_max_left _ _)
        · cases List.mem_singleton.1 only
          exact Nat.le_max_right _ _
      · right
        rcases Nat.le_total (highest targets) (last + 1) with below | higher
        · exact ⟨last, here, Nat.max_eq_right below⟩
        · rw [Nat.max_eq_left higher]
          obtain zero | ⟨place, inside, same⟩ := reached
          · omega
          · exact ⟨place, earlier inside, same⟩

theorem isHighest_allowed {targets : List Target} (allowed : highest targets ≤ lengthLimit) :
    IsHighest targets (highest targets) :=
  isHighest_highest fun _ inside => wholeNumber_eq (Nat.le_trans (le_highest inside) allowed)

theorem isHighest_exact {targets : List Target}
    (small : ∀ place, .place place ∈ targets → place < twoTo 53) :
    IsHighest targets (highest targets) := by
  refine isHighest_highest fun place inside => ?_
  rcases Nat.lt_or_eq_of_le (Nat.succ_le_of_lt (small place inside)) with below | limit
  · exact roundSteps_small below
  · rw [show place + 1 = twoTo 53 from limit]
    decide +kernel

def AllPlaces (targets : List Target) : Prop := ∀ target ∈ targets, ∃ index, target = .place index

theorem allPlaces_remaining (length : Nat) (positions : List Int) :
    AllPlaces (remaining length positions) := by
  intro target inside
  obtain ⟨index, _, found⟩ := List.mem_filterMap.1 inside
  split at found
  · cases found
  · exact ⟨index, (Option.some.inj found).symm⟩

theorem allPlaces_addressed {positions : List (Option Int)} {targets : List Target}
    (ok : addressed .write positions = .ok targets) : AllPlaces targets := by
  obtain ⟨chosen, computed, ok⟩ := bind_success ok
  cases pure_success ok
  intro target inside
  obtain ⟨_, member, rfl⟩ := List.mem_filterMap.1 inside
  obtain ⟨position, _, step⟩ := exists_of_mapM computed member
  cases position with
  | none => cases step
  | some p =>
    dsimp only at step
    split at step
    · exact ⟨_, (Option.some.inj (Except.ok.inj step)).symm⟩
    · cases step

/-- The names that a write has made stand at the places from the end on, each made once. -/
structure Growth.Consecutive (growth : Growth) (length : Nat) : Prop where
  next : growth.next = length + growth.reversed.length
  places : growth.reversed.reverse.map Prod.fst = List.range' length growth.reversed.length

theorem Growth.Consecutive.place {growth : Growth} {length : Nat}
    (consecutive : growth.Consecutive length) (name : String) :
    (growth.place name).2.Consecutive length := by
  unfold Growth.place
  split
  · exact consecutive
  · constructor
    · rw [consecutive.next]
      rfl
    · rw [List.reverse_cons, List.map_append, consecutive.places, List.length_cons,
        List.range'_concat, consecutive.next]
      simp

theorem nameTargets_write {v : TypedVector} {length : Nat} {entries : List (Option String)}
    {growth after : Growth} {targets : List Target} (consecutive : growth.Consecutive length)
    (ok : nameTargets v .write entries growth = .ok (targets, after)) :
    AllPlaces targets ∧ after.Consecutive length := by
  induction entries generalizing growth targets with
  | nil =>
    cases ok
    exact ⟨fun _ inside => (List.not_mem_nil inside).elim, consecutive⟩
  | cons entry entries ih =>
    cases entry with
    | none => cases ok
    | some name =>
      obtain ⟨⟨rest, later⟩, tail, ok⟩ := bind_success ok
      cases pure_success ok
      split at tail
      -- The vector has the name, so that nothing is made.
      · next place _ _ =>
        obtain ⟨places, kept⟩ := ih consecutive tail
        exact ⟨List.forall_mem_cons.2 ⟨⟨_, rfl⟩, places⟩, kept⟩
      · next impossible => cases impossible
      · obtain ⟨places, kept⟩ := ih (consecutive.place name) tail
        exact ⟨List.forall_mem_cons.2 ⟨⟨_, rfl⟩, places⟩, kept⟩

end Selection

structure Resolution.ForWrite (resolution : Resolution) (length : Nat) : Prop where
  places : Selection.AllPlaces resolution.targets
  highest : resolution.highest = Selection.highest resolution.targets
  grown : resolution.grown.map Prod.fst = List.range' length resolution.grown.length

namespace Selection

theorem forWrite_resolution {targets : List Target} (places : AllPlaces targets) (length : Nat) :
    (resolution targets).ForWrite length := ⟨places, rfl, rfl⟩

theorem forWrite_resolvePositions {entries : List (Option Binary64)} {length : Nat}
    {resolution : Resolution} (ok : resolvePositions entries length .write = .ok resolution) :
    resolution.ForWrite length := by
  obtain ⟨positions, _, ok⟩ := bind_success ok
  dsimp only at ok
  split at ok
  · cases ok
  · split at ok
    · split at ok
      · cases ok
      · cases pure_success ok
        exact forWrite_resolution (allPlaces_remaining length _) length
    · obtain ⟨targets, found, ok⟩ := bind_success ok
      cases pure_success ok
      exact forWrite_resolution (allPlaces_addressed found) length

theorem forWrite_resolveMask {entries : List (Option Bool)} {length : Nat}
    {resolution : Resolution} (ok : resolveMask entries length .write = .ok resolution) :
    resolution.ForWrite length := by
  unfold resolveMask at ok
  dsimp only at ok
  split at ok
  · cases pure_success ok
    exact forWrite_resolution (fun _ inside => (List.not_mem_nil inside).elim) length
  · obtain ⟨chosen, computed, ok⟩ := bind_success ok
    cases pure_success ok
    refine forWrite_resolution (fun target inside => ?_) length
    obtain ⟨_, member, rfl⟩ := List.mem_filterMap.1 inside
    obtain ⟨index, _, step⟩ := exists_of_mapM computed member
    obtain ⟨entry, _, step⟩ := bind_success step
    split at step
    · cases step
    · exact ⟨index, (Option.some.inj (Except.ok.inj step)).symm⟩
    · cases step

theorem forWrite_resolveNames {v : TypedVector} {entries : List (Option String)}
    {resolution : Resolution} (ok : resolveNames v entries .write = .ok resolution) :
    resolution.ForWrite v.length := by
  obtain ⟨⟨targets, growth⟩, found, ok⟩ := bind_success ok
  cases pure_success ok
  have begun : Growth.Consecutive ⟨v.length, ∅, []⟩ v.length := ⟨rfl, rfl⟩
  obtain ⟨places, consecutive⟩ := nameTargets_write begun found
  refine ⟨places, rfl, ?_⟩
  rw [consecutive.places, List.length_reverse]

end Selection

theorem Selector.forWrite_resolve {selector : Selector} {v : TypedVector}
    {resolution : Resolution} (ok : selector.resolve v .write = .ok resolution) :
    resolution.ForWrite v.length := by
  cases selector with
  | positions entries => exact Selection.forWrite_resolvePositions ok
  | mask entries => exact Selection.forWrite_resolveMask ok
  | names entries =>
    have indexed : resolution.ForWrite v.indexed.length := Selection.forWrite_resolveNames ok
    exact indexed

end TypedVectors
