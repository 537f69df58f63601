import TypedVectors.Proofs.Binary64.Overflow
import TypedVectors.Proofs.Elementwise.Rounding

/-!
Rounding of double vectors to recycled places: which finite numbers stay finite. Scaling up may
leave the range, rounding up to a multiple of a power of ten may, and past the 308th power of ten no
number is left at all.
-/
namespace TypedVectors

namespace Binary64

/-- The result of rounding a finite number. To places after the point it is finite as long as the
scaled number is; to tens, hundreds and so on as long as the multiple of the power of ten is. -/
structure RoundsFinite (x digits result : Binary64) : Prop where
  many : digits.isFinite → 15 < digits.wholePart → result = x
  scaled : digits.isFinite → ∀ j : ℕ, digits.wholePart = j → j ≤ 15 →
    WithinRange x.negative (x.magnitude * tenTo j) result
  tens : digits.isFinite → ∀ j : ℕ, digits.wholePart = -j → 0 < j → j ≤ 308 →
    WithinRange x.negative (nearestMultiple x.magnitude (powerOfTen j).magnitude) result
  few : digits.isFinite → digits.wholePart < -308 → result = nan
  endless : ∀ negative, digits = infinite negative → result = if negative then nan else x
  moderate : digits.isFinite → -308 ≤ digits.wholePart → x.magnitude < twoTo 2047 → result.isFinite
  moderateTens : digits.isFinite → -308 ≤ digits.wholePart → digits.wholePart < 0 →
    x.magnitude < twoTo 2097 → result.isFinite

section

variable {x digits : Binary64} (number : x.isFinite)
include number

theorem withinRange_scaled (finite : digits.isFinite) {j : ℕ} (part : digits.wholePart = j)
    (small : j ≤ 15) :
    WithinRange x.negative (x.magnitude * tenTo j) (x.roundTo digits.trunc) := by
  have places : digits.trunc.toInt? = some (j : ℤ) := part ▸ toInt?_trunc finite
  exact roundTo_up number places small

theorem withinRange_tens (finite : digits.isFinite) {j : ℕ} (part : digits.wholePart = -j)
    (positive : 0 < j) (high : j ≤ 308) :
    WithinRange x.negative (nearestMultiple x.magnitude (powerOfTen j).magnitude)
      (x.roundTo digits.trunc) := by
  have places : digits.trunc.toInt? = some (-(j : ℤ)) := part ▸ toInt?_trunc finite
  exact roundTo_down number places positive high

theorem isFinite_tens (finite : digits.isFinite) (low : -308 ≤ digits.wholePart)
    (negative : digits.wholePart < 0) (moderate : x.magnitude < twoTo 2097) :
    (x.roundTo digits.trunc).isFinite := by
  obtain ⟨j, part⟩ := Int.eq_ofNat_of_zero_le (a := -digits.wholePart) (by omega)
  obtain ⟨power, fits, same, large⟩ := powerOfTen_number (j := j) (by omega)
  have range := withinRange_tens number finite (j := j) (by omega) (by omega) (by omega)
  rw [same, magnitude_finite] at range
  exact range.inside (multiple_inside fits large moderate)

theorem isFinite_moderate (finite : digits.isFinite) (low : -308 ≤ digits.wholePart)
    (moderate : x.magnitude < twoTo 2047) : (x.roundTo digits.trunc).isFinite := by
  rcases lt_or_ge digits.wholePart 0 with negative | nonneg
  · exact isFinite_tens number finite low negative
      (Nat.lt_trans moderate (twoTo_lt (by decide)))
  · obtain ⟨j, part⟩ := Int.eq_ofNat_of_zero_le nonneg
    rcases Nat.lt_or_ge 15 j with many | small
    · rwa [roundTo_many finite (by omega)]
    · exact (withinRange_scaled number finite part small).inside (scaled_inside small moderate)

theorem roundsFinite_roundTo (digits : Binary64) :
    RoundsFinite x digits (x.roundTo digits.trunc) where
  many := roundTo_many
  scaled finite _ := withinRange_scaled number finite
  tens finite _ := withinRange_tens number finite
  few := roundTo_few number
  endless := by
    rintro negative rfl
    exact roundTo_endless number negative
  moderate := isFinite_moderate number
  moderateTens := isFinite_tens number

end
end Binary64

namespace TypedVector

variable {v places : TypedVector}

theorem roundedResult_numbers (formed : v.WellFormed) (placesFormed : places.WellFormed)
    (double : v.kind = .double) (numeric : places.kind ≠ .character) {index : ℕ}
    {x digits : Binary64} (number : v.numberFor index = some x)
    (place : places.numberFor index = some digits) (told : digits ≠ .nan) :
    roundedResult v places index = ⟨.number (x.roundTo digits.trunc), false⟩ := by
  have raised : ∀ {w : TypedVector} {y : Binary64}, w.WellFormed → w.kind ≠ .character →
      w.numberFor index = some y → cycledCell (w.raisedCells .double) index = .number y := by
    intro w y formed numeric number
    rw [raisedCells, cycledCell_map (Cell.raise_missing _ _),
      Cell.raise_number numeric (WellFormed.cycledCell formed index)]
    exact congrArg (fun number? => (number?.map Cell.number).getD .missing) number
  have kind : v.numericKind = .double := if_pos double
  have present : digits.isNaN = false := by
    cases digits with
    | nan => exact absurd rfl told
    | infinite _ | finite _ _ _ => rfl
  rw [roundedResult, kind, raised formed (by rw [double]; decide) number,
    raised placesFormed numeric place, roundedCell, present]
  rfl

/-- Rounding a double vector, index by index. Every finite number below two to the power 973 stays
finite to at least -308 places, and below two to the power 1023 to tens, hundreds and so on. -/
theorem roundTo_doubles (formed : v.WellFormed) (placesFormed : places.WellFormed)
    (double : v.kind = .double) (numeric : places.kind ≠ .character)
    (fitting : v.length = 0 ↔ places.length = 0) :
    (∀ index x digits, v.numberFor index = some x → x.isFinite →
        places.numberFor index = some digits → digits ≠ .nan →
        ∃ result, roundedResult v places index = ⟨.number result, false⟩ ∧
          x.RoundsFinite digits result) ∧
      ∃ w warnings, v.roundTo places = .ok (w, warnings) ∧
        Computed .double (roundedResult v places) v places w warnings := by
  have taken : Taken true v places := ⟨fun _ => ⟨by rw [double]; decide, numeric⟩, fitting⟩
  have kind : v.numericKind = .double := if_pos double
  obtain ⟨w, warnings, ok, computed⟩ :=
    roundTo_computed formed.regular placesFormed.regular taken
  rw [kind] at computed
  refine ⟨fun index x digits number finite place told => ?_, w, warnings, ok, computed⟩
  exact ⟨x.roundTo digits.trunc,
    roundedResult_numbers formed placesFormed double numeric number place told,
    Binary64.roundsFinite_roundTo finite digits⟩

/-- Large numbers that stay finite: to no place at all, to more than fifteen, and to the largest
power of ten. -/
theorem roundTo_doubles_large :
    let v := make .double (RadixArray.ofList
      [.number (.ofNat (tenTo 300)), .number (.ofNat (tenTo 300)), .missing,
        .number (.ofNat (6 * tenTo 307))]) none
    let places := make .double (RadixArray.ofList
      [.number 0, .number 16, .number 2, .number (-308)]) none
    v.WellFormed ∧ places.WellFormed ∧ v.kind = .double ∧ places.kind ≠ .character ∧
      (v.length = 0 ↔ places.length = 0) ∧
      (∀ index x digits, v.numberFor index = some x → x.isFinite →
        places.numberFor index = some digits → digits ≠ .nan →
        ∃ result, roundedResult v places index = ⟨.number result, false⟩ ∧
          x.RoundsFinite digits result) ∧
      ∃ w warnings, v.roundTo places = .ok (w, warnings) ∧ w.cells.toList =
        [.number (.ofNat (tenTo 300)), .number (.ofNat (tenTo 300)), .missing,
          .number (.ofNat (tenTo 308))] := by
  intro v places
  have formed : v.WellFormed := by
    have valid : ∀ cell ∈ [Cell.number (.ofNat (tenTo 300)), .number (.ofNat (tenTo 300)),
        .missing, .number (.ofNat (6 * tenTo 307))], cell.belongsTo .double := by decide +kernel
    exact follows_unnamed valid
  have placesFormed : places.WellFormed := by
    have valid : ∀ cell ∈ [Cell.number 0, .number 16, .number 2, .number (-308)],
        cell.belongsTo .double := by decide +kernel
    exact follows_unnamed valid
  have double : v.kind = .double := rfl
  have numeric : places.kind ≠ .character := by decide
  have fitting : v.length = 0 ↔ places.length = 0 := by decide
  have cells : (v.roundTo places).map (fun result => result.1.cells.toList) =
      .ok [.number (.ofNat (tenTo 300)), .number (.ofNat (tenTo 300)), .missing,
        .number (.ofNat (tenTo 308))] := by decide +kernel
  obtain ⟨results, w, warnings, ok, -⟩ :=
    roundTo_doubles formed placesFormed double numeric fitting
  rw [ok] at cells
  exact ⟨formed, placesFormed, double, numeric, fitting, results, w, warnings, ok,
    Except.ok.inj cells⟩

/-- A large number becomes infinite when it is scaled up, a small one is lost to a power of ten that
is infinite, and the multiple of a power is past the largest number. -/
theorem roundTo_doubles_lost :
    let v := make .double (RadixArray.ofList
      [.number (.ofNat (tenTo 300)), .number 5, .number (.ofNat (17 * tenTo 307))]) none
    let places := make .double (RadixArray.ofList
      [.number 15, .number (-309), .number (-308)]) none
    (∀ index < 3, (v.numberFor index).any (·.isFinite) ∧
        (places.numberFor index).any (·.isFinite)) ∧
      (v.roundTo places).map (fun (w, warnings) => (w.cells.toList, warnings)) =
        .ok ([.number (.infinite false), .number .nan, .number (.infinite false)], []) := by
  decide +kernel

end TypedVector
end TypedVectors
