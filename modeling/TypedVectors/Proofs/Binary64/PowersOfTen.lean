import Mathlib.Tactic.IntervalCases
import TypedVectors.Binary64.Places
import TypedVectors.Proofs.Binary64.Whole

/-!
Powers of ten in double precision. Up to the fifteenth they are exact; from the tenth on they are
at least two to the power 33, and past the range of numbers they are infinite.
-/
namespace TypedVectors.Binary64

/-- Whether a number is finite and at least two to the power 33. -/
def isLarge : Binary64 → Bool
  | finite false steps _ => twoTo 33 * unit ≤ steps
  | _ => false

theorem isLarge_cases {x : Binary64} (large : x.isLarge) :
    ∃ steps representable, x = finite false steps representable ∧ twoTo 33 * unit ≤ steps := by
  cases x with
  | nan | infinite _ => cases large
  | finite negative steps representable =>
    cases negative with
    | true => cases large
    | false =>
      rw [isLarge, decide_eq_true_eq] at large
      exact ⟨steps, representable, rfl, large⟩

section Powers

variable {k : ℕ}

theorem toInt?_powerOfTen (small : k ≤ 15) : (powerOfTen k).toInt? = some (tenTo k) := by
  have each : ∀ k ∈ List.range 16, (powerOfTen k).toInt? = some (tenTo k) := by decide +kernel
  exact each k (List.mem_range.2 (by omega))

theorem isLarge_of_parts (start : ℕ)
    (parts : ∀ part < 5, ∀ k ∈ List.range' (start + 30 * part) 30, (powerOfTen k).isLarge)
    (low : start ≤ k) (high : k < start + 150) : (powerOfTen k).isLarge := by
  refine parts ((k - start) / 30) (by omega) k ?_
  rw [List.mem_range'_1]
  omega

/- The powers are worked out thirty at a time, so that no evaluation grows long. -/
theorem isLarge_lower (low : 10 ≤ k) (high : k < 160) : (powerOfTen k).isLarge := by
  refine isLarge_of_parts 10 (fun part below => ?_) low high
  interval_cases part <;> decide +kernel

theorem isLarge_upper (low : 159 ≤ k) (high : k < 309) : (powerOfTen k).isLarge := by
  refine isLarge_of_parts 159 (fun part below => ?_) low high
  interval_cases part <;> decide +kernel

theorem isLarge_powerOfTen (low : 10 ≤ k) (high : k ≤ 308) : (powerOfTen k).isLarge := by
  rcases Nat.lt_or_ge k 160 with below | above
  · exact isLarge_lower low below
  · exact isLarge_upper (by omega) (by omega)

theorem powerOfTen_infinite (high : 308 < k) : powerOfTen k = infinite false := by
  rw [powerOfTen, if_neg (Nat.not_le.2 high)]

end Powers

end TypedVectors.Binary64
