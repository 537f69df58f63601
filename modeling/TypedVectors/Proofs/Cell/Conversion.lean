import TypedVectors.Cell.Conversion
import TypedVectors.Elementwise.Unary

/-!
Cells stay valid for their kind. Promotion, conversion and the change of a sign take a valid cell of
one kind to a valid cell of the other, whatever the two kinds are.
-/
namespace TypedVectors

namespace Binary64

theorem fitsInteger_unsignedZero {x : Binary64} (fits : x.fitsInteger) :
    x.unsignedZero.fitsInteger := by
  unfold unsignedZero
  split
  · decide +kernel
  · exact fits

theorem natAbs_toInt?_neg (x : Binary64) :
    (-x).toInt?.map Int.natAbs = x.toInt?.map Int.natAbs := by
  cases x with
  | nan => rfl
  | infinite negative => rfl
  | finite negative steps representable =>
    change (toInt? (finite (!negative) steps representable)).map Int.natAbs = _
    simp only [toInt?]
    generalize unit = scale
    split
    · cases negative <;> simp
    · rfl

theorem fitsInteger_neg {x : Binary64} (fits : x.fitsInteger) : (-x).fitsInteger := by
  have magnitudes := natAbs_toInt?_neg x
  unfold fitsInteger at *
  cases whole : x.toInt? with
  | none => simp [whole] at fits
  | some n =>
    rw [whole, Option.map_some, Option.map_eq_some_iff] at magnitudes
    obtain ⟨m, found, same⟩ := magnitudes
    rw [whole] at fits
    rw [found]
    simpa [same] using fits

theorem fitsInteger_numberOfTruth (value : Bool) : (Cell.numberOfTruth value).fitsInteger := by
  cases value <;> decide +kernel

end Binary64

namespace Cell

theorem belongsTo_kindAlone (cell : Cell) : cell.belongsTo cell.kindAlone := by
  cases cell <;> rfl

theorem isMissing_iff (cell : Cell) : cell.isMissing ↔ cell = missing := by
  cases cell <;> simp [isMissing]

@[simp]
theorem raise_missing (source target : Kind) : missing.raise source target = missing := by
  cases source <;> cases target <;> rfl

theorem raise_self (kind : Kind) (cell : Cell) : cell.raise kind kind = cell := if_pos rfl

theorem promote_eq {source target : Kind} (up : source.rank ≤ target.rank) (cell : Cell) :
    cell.promote source target = .ok (cell.raise source target) := if_neg (Nat.not_lt.2 up)

theorem promote_success {source target : Kind} {cell result : Cell}
    (ok : cell.promote source target = .ok result) :
    source.rank ≤ target.rank ∧ cell.raise source target = result := by
  unfold promote at ok
  split at ok
  · cases ok
  · next up => exact ⟨Nat.not_lt.1 up, Except.ok.inj ok⟩

/-- Up the order of kinds, conversion is promotion. -/
theorem raise_eq_convert {source target : Kind} (up : source.rank ≤ target.rank) (cell : Cell) :
    cell.raise source target = (cell.convert source target).cell := by
  unfold convert
  split
  · next absent => rw [(isMissing_iff cell).1 absent, raise_missing]
  · rfl

theorem convert_self (kind : Kind) (cell : Cell) : cell.convert kind kind = ⟨cell, false⟩ := by
  unfold convert
  split
  · next missing => rw [(isMissing_iff cell).1 missing]
  · rw [if_pos (Nat.le_refl _), raise_self]

theorem belongsTo_missing (kind : Kind) : missing.belongsTo kind := rfl

theorem belongsTo_truth {kind : Kind} {value : Bool} :
    (truth value).belongsTo kind ↔ kind = .logical := by
  simp [belongsTo]

theorem belongsTo_number {kind : Kind} {x : Binary64} :
    (number x).belongsTo kind ↔ kind = .double ∨ kind = .integer ∧ x.fitsInteger := by
  simp [belongsTo]

theorem belongsTo_text {kind : Kind} {value : String} :
    (text value).belongsTo kind ↔ kind = .character := by
  simp [belongsTo]

theorem raise_belongsTo {source target : Kind} {cell : Cell} (up : source.rank ≤ target.rank)
    (valid : cell.belongsTo source) : (cell.raise source target).belongsTo target := by
  by_cases same : source = target
  · subst same
    rwa [raise_self]
  · cases cell with
    | missing => rw [raise_missing, belongsTo_missing]
    | truth value =>
      rw [belongsTo_truth] at valid
      subst valid
      cases target with
      | logical => exact absurd rfl same
      | integer =>
        exact belongsTo_number.2 (.inr ⟨rfl, Binary64.fitsInteger_numberOfTruth value⟩)
      | double => exact belongsTo_number.2 (.inl rfl)
      | character => exact belongsTo_text.2 rfl
    | number x =>
      rw [belongsTo_number] at valid
      rcases valid with rfl | ⟨rfl, fits⟩
      · cases target with
        | character => exact belongsTo_text.2 rfl
        | double => exact absurd rfl same
        | logical | integer => simp [Kind.rank] at up
      · cases target with
        | character => exact belongsTo_text.2 rfl
        | double => exact belongsTo_number.2 (.inl rfl)
        | integer => exact absurd rfl same
        | logical => simp [Kind.rank] at up
    | text value =>
      rw [belongsTo_text] at valid
      subst valid
      cases target with
      | character => exact absurd rfl same
      | logical | integer | double => simp [Kind.rank] at up

theorem integerOfNumber_belongsTo (x : Binary64) :
    (integerOfNumber x).cell.belongsTo .integer := by
  unfold integerOfNumber
  split
  · rfl
  · split
    · next fits => exact belongsTo_number.2 (.inr ⟨rfl, Binary64.fitsInteger_unsignedZero fits⟩)
    · rfl

theorem toTruth_belongsTo (cell : Cell) :
    cell.toTruth.belongsTo .logical := by
  cases cell with
  | missing => rfl
  | truth value => rfl
  | number x =>
    simp only [toTruth]
    split <;> rfl
  | text word =>
    simp only [toTruth]
    cases truthOfWord? word <;> rfl

theorem toInteger_belongsTo (cell : Cell) : cell.toInteger.cell.belongsTo .integer := by
  cases cell with
  | missing => rfl
  | truth value =>
    exact belongsTo_number.2 (.inr ⟨rfl, Binary64.fitsInteger_numberOfTruth value⟩)
  | number x => exact integerOfNumber_belongsTo x
  | text word =>
    simp only [toInteger]
    split
    · exact integerOfNumber_belongsTo _
    · rfl

theorem toDouble_belongsTo (cell : Cell) : cell.toDouble.cell.belongsTo .double := by
  cases cell with
  | missing => rfl
  | truth value => rfl
  | number x => rfl
  | text word =>
    simp only [toDouble]
    split <;> rfl

/-- Down the order of kinds every cell becomes a valid one. -/
theorem convert_down_belongsTo {source target : Kind} (down : target.rank < source.rank)
    (cell : Cell) : (cell.convert source target).cell.belongsTo target := by
  unfold convert
  split
  · rfl
  · rw [if_neg (Nat.not_le.2 down)]
    cases target with
    | logical => exact toTruth_belongsTo cell
    | integer => exact toInteger_belongsTo cell
    | double => exact toDouble_belongsTo cell
    | character => exact absurd down (by cases source <;> decide)

theorem convert_belongsTo {source target : Kind} {cell : Cell} (valid : cell.belongsTo source) :
    (cell.convert source target).cell.belongsTo target := by
  rcases Nat.lt_or_ge target.rank source.rank with down | up
  · exact convert_down_belongsTo down cell
  · rw [← raise_eq_convert up]
    exact raise_belongsTo up valid

theorem negatedCell_belongsTo {kind : Kind} {cell : Cell} (valid : cell.belongsTo kind) :
    (TypedVector.negatedCell kind cell).belongsTo kind := by
  cases cell with
  | missing | truth value | text value => rfl
  | number x =>
    rw [belongsTo_number] at valid
    rcases valid with rfl | ⟨rfl, fits⟩
    · exact belongsTo_number.2 (.inl rfl)
    · exact belongsTo_number.2
        (.inr ⟨rfl, Binary64.fitsInteger_unsignedZero (Binary64.fitsInteger_neg fits)⟩)

end Cell
end TypedVectors
