import TypedVectors.Proofs.Success
import TypedVectors.Recycling

/-!
Recycling stays inside the operands, and its warnings are about lengths that misfit. Only a warning
about more values than targets is told as well where the longer length is a multiple of the shorter.
-/
namespace TypedVectors

theorem le_longest {n : Nat} {lengths : List Nat} (inside : n ∈ lengths) : n ≤ longest lengths := by
  unfold longest
  rw [List.foldl_max, Nat.zero_max]
  exact List.le_max?_getD_of_mem inside

theorem longest_eq_zero_iff {lengths : List Nat} : longest lengths = 0 ↔ ∀ n ∈ lengths, n = 0 := by
  refine ⟨fun zero n inside => Nat.eq_zero_of_le_zero (zero ▸ le_longest inside), fun zeros => ?_⟩
  rw [longest, List.eq_replicate_of_mem zeros]
  generalize lengths.length = count
  induction count with
  | zero => rfl
  | succ count ih => rwa [List.replicate_succ, List.foldl_cons, Nat.max_self]

namespace Recycling

/-- Whether a length is zero and another is not. -/
def Unfit (lengths : List Nat) : Prop := 0 ∈ lengths ∧ ∃ n ∈ lengths, n ≠ 0

/-- Lengths align at the longest one, unless an empty operand is among others. -/
theorem align_cases (lengths : List Nat) :
    Unfit lengths ∧ align lengths = .error (.emptyOperand lengths) ∨
      ¬Unfit lengths ∧ ∃ alignment, align lengths = .ok alignment := by
  unfold align
  dsimp only
  split
  · next empty =>
    refine .inr ⟨fun unfit => ?_, _, rfl⟩
    obtain ⟨_, n, inside, nonzero⟩ := unfit
    exact nonzero (longest_eq_zero_iff.1 empty n inside)
  · next nonzero =>
    have nonzero : ∃ n ∈ lengths, n ≠ 0 := by
      by_contra fitting
      exact nonzero (longest_eq_zero_iff.2 fun n inside =>
        not_not.1 fun other => fitting ⟨n, inside, other⟩)
    split
    · next empty => exact .inl ⟨⟨List.contains_iff_mem.1 empty, nonzero⟩, rfl⟩
    · next full =>
      exact .inr ⟨fun unfit => full (List.contains_iff_mem.2 unfit.1), _, rfl⟩

/-- What a warning about lengths says of them. -/
structure Misfit (longer shorter : Nat) : Prop where
  positive : 0 < shorter
  less : shorter < longer
  undivided : ¬shorter ∣ longer

theorem misfit_of_le {longer shorter : Nat} (below : shorter ≤ longer) (positive : 0 < shorter)
    (undivided : ¬shorter ∣ longer) : Misfit longer shorter := by
  refine ⟨positive, Nat.lt_of_le_of_ne below ?_, undivided⟩
  rintro rfl
  exact undivided (Nat.dvd_refl shorter)

section Alignment

variable {lengths : List Nat} {alignment : Alignment}

theorem align_success (ok : align lengths = .ok alignment) :
    alignment.length = longest lengths ∧
      (longest lengths = 0 ∧ alignment.warning? = none ∨
        (∀ n ∈ lengths, 0 < n) ∧
          alignment.warning? = (lengths.find? fun n => longest lengths % n != 0).map
            (.recycledLength (longest lengths))) := by
  unfold align at ok
  dsimp only at ok
  split at ok
  · next empty =>
    cases ok
    exact ⟨empty.symm, .inl ⟨empty, rfl⟩⟩
  · split at ok
    · cases ok
    · next nonempty =>
      cases ok
      refine ⟨rfl, .inr ⟨fun n inside => Nat.pos_of_ne_zero ?_, rfl⟩⟩
      rintro rfl
      exact nonempty (List.contains_iff_mem.2 inside)

theorem align_inside (ok : align lengths = .ok alignment) {index : Nat}
    (below : index < alignment.length) {n : Nat} (inside : n ∈ lengths) : source n index < n := by
  obtain ⟨length, ⟨empty, _⟩ | ⟨nonempty, _⟩⟩ := align_success ok
  · omega
  · exact Nat.mod_lt index (nonempty n inside)

theorem align_warning? (ok : align lengths = .ok alignment) :
    (alignment.warning? = none ↔ ∀ n ∈ lengths, n ∣ longest lengths) ∧
      ∀ warning, alignment.warning? = some warning → ∃ shorter ∈ lengths,
        warning = .recycledLength (longest lengths) shorter ∧
          Misfit (longest lengths) shorter := by
  obtain ⟨_, ⟨empty, silent⟩ | ⟨nonempty, told⟩⟩ := align_success ok
  · rw [silent, empty]
    exact ⟨iff_of_true rfl fun n _ => Nat.dvd_zero n, fun warning same => by cases same⟩
  · rw [told]
    constructor
    · simp [Nat.dvd_iff_mod_eq_zero]
    · intro warning same
      obtain ⟨shorter, found, rfl⟩ := Option.map_eq_some_iff.1 same
      have inside := List.mem_of_find?_eq_some found
      have undivided := List.find?_some found
      refine ⟨shorter, inside, rfl,
        misfit_of_le (le_longest inside) (nonempty shorter inside) fun divides => ?_⟩
      simp [Nat.mod_eq_zero_of_dvd divides] at undivided

/-- The warning is about the first length that does not divide the longest. -/
theorem align_first (ok : align lengths = .ok alignment) {before after : List Nat} {n : Nat}
    (split : lengths = before ++ n :: after) (others : ∀ m ∈ before, m ∣ longest lengths)
    (part : ¬n ∣ longest lengths) :
    alignment.warning? = some (.recycledLength (longest lengths) n) := by
  obtain ⟨_, ⟨empty, _⟩ | ⟨_, told⟩⟩ := align_success ok
  · exact absurd (empty ▸ Nat.dvd_zero n) part
  · have found : (lengths.find? fun m => longest lengths % m != 0) = some n := by
      rw [List.find?_eq_some_iff_append]
      refine ⟨bne_iff_ne.2 (mt Nat.dvd_of_mod_eq_zero part), before, after, split, ?_⟩
      intro m inside
      rw [Nat.mod_eq_zero_of_dvd (others m inside)]
      rfl
    rw [told, found, Option.map_some]

end Alignment

section Replacement

variable {given targets : Nat} {warning? : Option Warning}

theorem onto_success (ok : onto given targets = .ok warning?) :
    targets = 0 ∧ warning? = none ∨ 0 < targets ∧ 0 < given ∧ warning? =
      if given ∣ targets then none
      else some (.recycledLength (max targets given) (min targets given)) := by
  unfold onto at ok
  split at ok
  · next untargeted =>
    cases ok
    exact .inl ⟨untargeted, rfl⟩
  · next targeted =>
    split at ok
    · cases ok
    · next nonempty =>
      refine .inr ⟨Nat.pos_of_ne_zero targeted, Nat.pos_of_ne_zero nonempty, ?_⟩
      split at ok
      · next whole =>
        cases ok
        rw [if_pos (Nat.dvd_of_mod_eq_zero whole)]
      · next part =>
        cases ok
        rw [if_neg (mt Nat.mod_eq_zero_of_dvd part)]

theorem onto_inside (ok : onto given targets = .ok warning?) {index : Nat}
    (below : index < targets) : source given index < given := by
  rcases onto_success ok with ⟨untargeted, _⟩ | ⟨_, nonempty, _⟩
  · omega
  · exact Nat.mod_lt index nonempty

/-- More values than targets are told of whether or not their number is a multiple. -/
theorem misfit_replacement (targeted : 0 < targets) (nonempty : 0 < given)
    (part : ¬given ∣ targets) :
    0 < min targets given ∧ min targets given < max targets given ∧
      (Misfit (max targets given) (min targets given) ↔ ¬targets ∣ given) := by
  rcases Nat.lt_trichotomy given targets with fewer | rfl | more
  · rw [Nat.max_eq_left (Nat.le_of_lt fewer), Nat.min_eq_right (Nat.le_of_lt fewer)]
    refine ⟨nonempty, fewer, iff_of_true ⟨nonempty, fewer, part⟩ fun divides => ?_⟩
    exact absurd (Nat.le_of_dvd nonempty divides) (Nat.not_le.2 fewer)
  · exact absurd (Nat.dvd_refl given) part
  · rw [Nat.max_eq_right (Nat.le_of_lt more), Nat.min_eq_left (Nat.le_of_lt more)]
    exact ⟨targeted, more, Misfit.undivided, fun apart => ⟨targeted, more, apart⟩⟩

theorem onto_warning? (ok : onto given targets = .ok warning?) :
    (warning? = none ↔ given ∣ targets) ∧
      ∀ warning, warning? = some warning → ∃ longer shorter,
        warning = .recycledLength longer shorter ∧ 0 < shorter ∧ shorter < longer ∧
          (Misfit longer shorter ↔ ¬targets ∣ given) := by
  rcases onto_success ok with ⟨rfl, rfl⟩ | ⟨targeted, nonempty, rfl⟩
  · exact ⟨iff_of_true rfl (Nat.dvd_zero given), fun warning same => by cases same⟩
  · split
    · next whole => exact ⟨iff_of_true rfl whole, fun warning same => by cases same⟩
    · next part =>
      refine ⟨iff_of_false (Option.some_ne_none _) part, fun warning same => ?_⟩
      cases same
      exact ⟨_, _, rfl, misfit_replacement targeted nonempty part⟩

end Replacement

end Recycling
end TypedVectors
