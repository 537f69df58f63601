import TypedVectors.Proofs.Binary64.Places
import TypedVectors.Proofs.Elementwise.Integers

/-!
Rounding of integer and logical vectors to recycled places. To few places, and to tens, hundreds and
so on as far as the power of ten is a number, it is that of whole numbers. A number that scaling up
and back misses becomes missing, and is counted like one out of range.
-/
namespace TypedVectors

namespace Binary64

/-- The whole part of a finite number. -/
def wholePart (x : Binary64) : ℤ := x.signedSteps.tdiv unit

variable {x digits : Binary64}

theorem roundTo_many (finite : digits.isFinite) (many : 15 < digits.wholePart) :
    x.roundTo digits.trunc = x :=
  roundTo_kept ((fifteen_lt (toInt?_trunc finite)).2 many)

/-- Past the range of the powers of ten no number is left. -/
theorem roundTo_few (number : x.isFinite) (finite : digits.isFinite)
    (few : digits.wholePart < -308) : x.roundTo digits.trunc = nan := by
  obtain ⟨j, part⟩ := Int.eq_ofNat_of_zero_le (a := -digits.wholePart) (by omega)
  have places : digits.trunc.toInt? = some (-(j : ℤ)) := by
    rw [← part, neg_neg]
    exact toInt?_trunc finite
  exact roundTo_past number places (by omega)

theorem roundTo_endless (number : x.isFinite) (negative : Bool) :
    x.roundTo (trunc (infinite negative)) = if negative then nan else x := by
  cases negative with
  | true => exact roundTo_infinite number (by decide +kernel) (by decide +kernel) rfl
  | false => exact roundTo_kept (by decide +kernel)

end Binary64

namespace Tallied

/-- A whole number in range as it is. -/
def kept (n : ℤ) : Tallied := ⟨.number (.ofInt n), false⟩

/-- What is left where there is no whole number in range. -/
def lost : Tallied := ⟨.missing, true⟩

variable {x : Binary64} {n : ℤ}

theorem whole_kept (limited : n.natAbs ≤ integerLimit) : whole n = kept n := if_pos limited

theorem ofInteger_whole (same : x.toInt? = some n) : ofInteger x = whole n :=
  ofInteger_eq (Binary64.unsignedZero_eq_ofInt same)

theorem ofInteger_lost (part : x.toInt? = none) : ofInteger x = lost := by
  have unfit : ¬x.fitsInteger := by
    rw [Binary64.fitsInteger_iff, part]
    simp
  rw [ofInteger, if_neg unfit, lost]

end Tallied

namespace Cell

/-- The number of a cell, where it has one. -/
def number? : Cell → Option Binary64
  | truth value => some (numberOfTruth value)
  | number x => some x
  | missing | text _ => none

theorem raise_number {source : Kind} {cell : Cell} (numeric : source ≠ .character)
    (valid : cell.belongsTo source) :
    cell.raise source .double = (cell.number?.map .number).getD .missing := by
  cases cell with
  | missing => exact raise_missing _ _
  | truth value =>
    obtain rfl : source = .logical := belongsTo_truth.1 valid
    rfl
  | number x =>
    rcases belongsTo_number.1 valid with rfl | ⟨rfl, -⟩
    · rfl
    · rfl
  | text value => exact absurd (belongsTo_text.1 valid) numeric

end Cell

/-- The result of rounding a whole number in the range of integers. From ten places to fifteen the
number is scaled by a power of ten that may miss it, and past the 308th power of ten there is no
such power. -/
structure RoundsTo (n : ℤ) (digits : Binary64) (result : Tallied) : Prop where
  few : digits.isFinite → 0 ≤ digits.wholePart → digits.wholePart ≤ 9 → result = .kept n
  scaled : digits.isFinite → ∀ j : ℕ, digits.wholePart = j → j ≤ 15 →
    result = if Restored n j then .kept n else .lost
  many : digits.isFinite → 15 < digits.wholePart → result = .kept n
  tens : digits.isFinite → ∀ j : ℕ, digits.wholePart = -j → 0 < j → j ≤ 308 →
    result = .whole (roundedToMultiple n (tenTo j))
  past : digits.isFinite → digits.wholePart < -308 → result = .lost
  infinite : ∀ negative, digits = .infinite negative → result = if negative then .lost else .kept n

/-- The result of rounding where the whole number or the places may be missing. -/
inductive Rounding : Option ℤ → Option Binary64 → Tallied → Prop
  | missing {x : Option ℤ} {places : Option Binary64}
    (absent : x = none ∨ places = none ∨ places = some .nan) : Rounding x places ⟨.missing, false⟩
  | present {n : ℤ} {digits : Binary64} {result : Tallied} (told : digits ≠ .nan)
    (rounds : RoundsTo n digits result) : Rounding (some n) (some digits) result

/-- To nine places a product has no more than 53 bits. -/
theorem restored_of_few {n : ℤ} {j : ℕ} (limited : n.natAbs ≤ integerLimit) (few : j ≤ 9) :
    Restored n j := by
  have fits : integerLimit * 5 ^ 9 ≤ twoTo 53 := by decide
  refine restored_of_small (Nat.le_trans (Nat.mul_le_mul limited ?_) fits)
  exact Nat.pow_le_pow_right (by decide) few

section Numbers

variable {x digits : Binary64} {n : ℤ} (whole : x.toInt? = some n)
  (limited : n.natAbs ≤ integerLimit)
include whole limited

theorem ofInteger_scaled (finite : digits.isFinite) {j : ℕ} (part : digits.wholePart = j)
    (small : j ≤ 15) : Tallied.ofInteger (x.roundTo digits.trunc) =
      if Restored n j then .kept n else .lost := by
  have bits : integerLimit < twoTo 31 := by decide
  have places : digits.trunc.toInt? = some (j : ℤ) := part ▸ Binary64.toInt?_trunc finite
  have rounded := Binary64.toInt?_roundTo_places whole (by omega) places small
  by_cases restored : Restored n j
  · rw [if_pos restored] at rounded ⊢
    rw [Tallied.ofInteger_whole rounded, Tallied.whole_kept limited]
  · rw [if_neg restored] at rounded ⊢
    exact Tallied.ofInteger_lost rounded

theorem roundsTo_ofInteger (digits : Binary64) :
    RoundsTo n digits (.ofInteger (x.roundTo digits.trunc)) where
  few := by
    intro finite low few
    obtain ⟨j, part⟩ := Int.eq_ofNat_of_zero_le low
    rw [ofInteger_scaled whole limited finite part (by omega),
      if_pos (restored_of_few limited (by omega))]
  scaled := fun finite j part small => ofInteger_scaled whole limited finite part small
  many := fun finite high => by
    rw [Binary64.roundTo_many finite high, Tallied.ofInteger_whole whole,
      Tallied.whole_kept limited]
  tens := by
    intro finite j part positive high
    have bits : integerLimit < twoTo 31 := by decide
    have places : digits.trunc.toInt? = some (-(j : ℤ)) := part ▸ Binary64.toInt?_trunc finite
    exact Tallied.ofInteger_whole
      (Binary64.toInt?_roundTo_tens whole (by omega) places positive high)
  past := fun finite past => by
    rw [Binary64.roundTo_few (Binary64.isFinite_of_whole whole) finite past]
    exact Tallied.ofInteger_lost rfl
  infinite := by
    rintro negative rfl
    rw [Binary64.roundTo_endless (Binary64.isFinite_of_whole whole)]
    cases negative with
    | true => exact Tallied.ofInteger_lost rfl
    | false =>
      exact (Tallied.ofInteger_whole whole).trans (Tallied.whole_kept limited)

end Numbers

namespace TypedVector

theorem rounding_cells {cell : Cell} {x : Option ℤ} (holds : Arithmetic.Holds cell x)
    (places : Option Binary64) :
    Rounding x places (roundedCell .integer cell ((places.map .number).getD .missing)) := by
  cases holds with
  | missing => exact .missing (.inl rfl)
  | number whole limited =>
    cases places with
    | none => exact .missing (.inr (.inl rfl))
    | some digits =>
      cases digits with
      | nan => exact .missing (.inr (.inr rfl))
      | infinite _ => exact .present Binary64.noConfusion (roundsTo_ofInteger whole limited _)
      | finite _ _ _ => exact .present Binary64.noConfusion (roundsTo_ofInteger whole limited _)

variable {v places : TypedVector}

/-- The number of the cell for an index, where the cells start over. -/
def numberFor (v : TypedVector) (index : ℕ) : Option Binary64 :=
  (cycledCell v.cells.toList index).number?

theorem numericKind_integral (integral : v.kind.rank ≤ Kind.integer.rank) :
    v.numericKind = .integer := by
  refine if_neg fun double => ?_
  rw [double] at integral
  exact absurd integral (by decide)

theorem holds_raised (formed : v.WellFormed) (integral : v.kind.rank ≤ Kind.integer.rank)
    (index : ℕ) :
    Arithmetic.Holds (cycledCell (v.raisedCells .integer) index) (v.wholeFor index) := by
  rw [raisedCells, cycledCell_map (Cell.raise_missing _ _), Cell.raise_eq_convert integral]
  exact Cell.holds_convert integral (WellFormed.cycledCell formed index)

theorem rounding_result (formed : v.WellFormed) (placesFormed : places.WellFormed)
    (integral : v.kind.rank ≤ Kind.integer.rank) (numeric : places.kind ≠ .character)
    (index : ℕ) :
    Rounding (v.wholeFor index) (places.numberFor index) (roundedResult v places index) := by
  have digits : cycledCell (places.raisedCells .double) index =
      ((places.numberFor index).map .number).getD .missing := by
    rw [raisedCells, cycledCell_map (Cell.raise_missing _ _)]
    exact Cell.raise_number numeric (WellFormed.cycledCell placesFormed index)
  rw [roundedResult, numericKind_integral integral, digits]
  exact rounding_cells (holds_raised formed integral index) _

/-- Rounding an integer or logical vector, index by index, with one warning for all results that are
lost. It is exact to at most nine places, to more than fifteen, and to tens up to the 308th power of
ten. -/
theorem roundTo_integers (formed : v.WellFormed) (placesFormed : places.WellFormed)
    (integral : v.kind.rank ≤ Kind.integer.rank) (numeric : places.kind ≠ .character)
    (fitting : v.length = 0 ↔ places.length = 0) :
    (∀ index,
        Rounding (v.wholeFor index) (places.numberFor index) (roundedResult v places index)) ∧
      ∃ w warnings, v.roundTo places = .ok (w, warnings) ∧
        Computed .integer (roundedResult v places) v places w warnings := by
  have taken : Taken true v places := ⟨fun _ => ⟨numeric_of_integral integral, numeric⟩, fitting⟩
  obtain ⟨w, warnings, ok, computed⟩ :=
    roundTo_computed formed.regular placesFormed.regular taken
  rw [numericKind_integral integral] at computed
  exact ⟨rounding_result formed placesFormed integral numeric, w, warnings, ok, computed⟩

/-- Integers rounded to tens, to thousands and to nine places; the largest one rounded to tens is
out of range. -/
theorem roundTo_integers_largest :
    let v := make .integer (RadixArray.ofList
      [.number 25, .number (-1499), .missing, .number 295149, .number 2147483647]) none
    let places := make .double (RadixArray.ofList
      [.number (-1), .number (-3), .number 2, .number 9, .number (-1)]) none
    v.WellFormed ∧ places.WellFormed ∧ v.kind.rank ≤ Kind.integer.rank ∧
      places.kind ≠ .character ∧ (v.length = 0 ↔ places.length = 0) ∧
      (∀ index,
        Rounding (v.wholeFor index) (places.numberFor index) (roundedResult v places index)) ∧
      ∃ w, v.roundTo places = .ok (w, [.integerOverflow 1]) ∧
        Computed .integer (roundedResult v places) v places w [.integerOverflow 1] := by
  intro v places
  have formed : v.WellFormed := by
    have valid : ∀ cell ∈ [Cell.number 25, .number (-1499), .missing, .number 295149,
        .number 2147483647], cell.belongsTo .integer := by decide +kernel
    exact follows_unnamed valid
  have placesFormed : places.WellFormed := by
    have valid : ∀ cell ∈ [Cell.number (-1), .number (-3), .number 2, .number 9, .number (-1)],
        cell.belongsTo .double := by decide +kernel
    exact follows_unnamed valid
  have integral : v.kind.rank ≤ Kind.integer.rank := by decide
  have numeric : places.kind ≠ .character := by decide
  have fitting : v.length = 0 ↔ places.length = 0 := by decide
  have told : (v.roundTo places).map Prod.snd = .ok [.integerOverflow 1] := by decide +kernel
  obtain ⟨rounding, w, warnings, ok, computed⟩ :=
    roundTo_integers formed placesFormed integral numeric fitting
  rw [ok] at told
  cases Except.ok.inj told
  exact ⟨formed, placesFormed, integral, numeric, fitting, rounding, w, ok, computed⟩

/-- One integer is missed by scaling it up and back, and one is lost to a power of ten that is
infinite, though both results are whole numbers in range. -/
theorem roundTo_integers_lost :
    let v := make .integer (RadixArray.ofList [.number 295149, .number 7]) none
    let places := make .double (RadixArray.ofList [.number 15, .number (-309)]) none
    (v.roundTo places).map (fun (w, warnings) => (w.cells.toList, warnings)) =
        .ok ([.missing, .missing], [.integerOverflow 2]) ∧
      ¬Restored 295149 15 ∧ roundedToMultiple 7 (tenTo 309) = 0 := by
  decide +kernel

end TypedVector
end TypedVectors
