import TypedVectors.Proofs.Cell.Rendering
import TypedVectors.Proofs.Elementwise.Integers

/-!
Logical and integer vectors in a higher kind and back. Nothing is lost on the way, neither through
numbers nor through text: a whole number has few enough digits to be read back from its text. Only
the sign of an integer zero does not come back.
-/
namespace TypedVectors

namespace Binary64

variable {x : Binary64} {n : ℤ}

theorem unsignedZero_zero (zero : x.isZero) : x.unsignedZero = 0 := if_pos zero

theorem unsignedZero_nonzero (nonzero : ¬x.isZero) : x.unsignedZero = x := if_neg nonzero

theorem unsignedZero_again (x : Binary64) : x.unsignedZero.unsignedZero = x.unsignedZero := by
  by_cases zero : x.isZero
  · rw [unsignedZero_zero zero]
    decide +kernel
  · rw [unsignedZero_nonzero zero, unsignedZero_nonzero zero]

/-- A whole number of at most fifteen digits is read back from its text, a zero without its sign. -/
theorem read?_cellText_whole (whole : x.toInt? = some n) (few : n.natAbs < tenTo 15) :
    Numeral.read? x.cellText = some x.unsignedZero := by
  by_cases zero : n = 0
  · rw [unsignedZero_zero ((Binary64.isZero_iff whole).2 zero)]
    obtain ⟨sign, representable, rfl, -⟩ := toInt?_success whole
    rw [cellText_zero (by rw [zero, Int.natAbs_zero, Nat.zero_mul]), read?_zero]
  · obtain ⟨sign, representable, rfl, -⟩ := toInt?_success whole
    have nonzero := Int.natAbs_ne_zero.2 zero
    have steps := Nat.mul_ne_zero nonzero unit_pos.ne'
    rw [read?_of_fifteen steps (Decimal.rounded_whole nonzero few representable),
      unsignedZero_nonzero (mt beq_iff_eq.1 steps)]

theorem read?_cellText_integer (fits : x.fitsInteger) :
    Numeral.read? x.cellText = some x.unsignedZero := by
  obtain ⟨n, whole, limited⟩ := fitsInteger_iff.1 fits
  have digits : integerLimit < tenTo 15 := by decide
  exact read?_cellText_whole whole (by omega)

theorem trunc_whole (whole : x.toInt? = some n) : x.trunc = x := by
  obtain ⟨sign, representable, rfl, -⟩ := toInt?_success whole
  rw [trunc, Nat.mul_div_cancel _ unit_pos,
    ofSteps_finite sign (roundSteps_of_leading representable.1) representable]

end Binary64

namespace Cell

/-- A cell with the positive zero in the place of the negative one. -/
def unsignedZero : Cell → Cell
  | number x => number x.unsignedZero
  | other => other

variable {source target : Kind} {cell : Cell}

theorem integerOfNumber_integer {x : Binary64} (fits : x.fitsInteger) :
    integerOfNumber x = ⟨number x.unsignedZero, false⟩ := by
  obtain ⟨n, whole, -⟩ := Binary64.fitsInteger_iff.1 fits
  have number : x.isNaN = false := by
    obtain ⟨sign, representable, rfl, -⟩ := Binary64.toInt?_success whole
    rfl
  rw [integerOfNumber, number, if_neg Bool.false_ne_true, Binary64.trunc_whole whole, if_pos fits]

theorem convert_missing (source target : Kind) :
    missing.convert source target = ⟨missing, false⟩ := rfl

/-- Truth values come back from every kind: from numbers as zero and one, from text as words. -/
theorem truth_returns (value : Bool) (target : Kind) :
    ((truth value).convert .logical target).cell.convert target .logical =
      ⟨truth value, false⟩ := by
  cases target with
  | logical => rw [convert_self, convert_self]
  | integer | double | character => cases value <;> decide +kernel

theorem integer_returns {x : Binary64} (fits : x.fitsInteger) (above : target ≠ .integer)
    (up : Kind.integer.rank ≤ target.rank) :
    ((number x).convert .integer target).cell.convert target .integer =
      ⟨number x.unsignedZero, false⟩ := by
  cases target with
  | logical => exact absurd up (by decide)
  | integer => exact absurd rfl above
  | double => exact integerOfNumber_integer fits
  | character =>
    change toInteger (text x.cellText) = _
    rw [toInteger, Binary64.read?_cellText_integer fits]
    dsimp only
    rw [integerOfNumber_integer (Binary64.fitsInteger_unsignedZero fits),
      Binary64.unsignedZero_again]

/-- A cell that went up from a logical or integer vector comes back. -/
theorem convert_returns (integral : source.rank ≤ Kind.integer.rank)
    (up : source.rank ≤ target.rank) (valid : cell.belongsTo source) :
    (cell.convert source target).cell.convert target source =
      ⟨if source = target then cell else cell.unsignedZero, false⟩ := by
  by_cases same : source = target
  · subst same
    rw [convert_self, convert_self, if_pos rfl]
  · rw [if_neg same]
    cases cell with
    | missing => rfl
    | truth value =>
      obtain rfl : source = .logical := belongsTo_truth.1 valid
      exact truth_returns value target
    | number x =>
      rcases belongsTo_number.1 valid with rfl | ⟨rfl, fits⟩
      · exact absurd integral (by decide)
      · exact integer_returns fits (Ne.symm same) up
    | text value =>
      obtain rfl : source = .character := belongsTo_text.1 valid
      exact absurd integral (by decide)

theorem lossy_up (up : source.rank ≤ target.rank) :
    (cell.convert source target).lossy = false := by
  unfold convert
  split
  · rfl
  · rfl

end Cell

namespace TypedVector

variable {v : TypedVector} {kind : Kind}

/-- The vector in another kind and in its own again. -/
def through (v : TypedVector) (kind : Kind) : TypedVector × List Warning :=
  (v.convert kind).1.convert v.kind

/-- A vector comes back from another kind: neither conversion warns, and the second gives the vector
again, without the signs of its zeros if it was in another kind at all. -/
structure Returns (v : TypedVector) (kind : Kind) : Prop where
  silent : (v.convert kind).2 = []
  lossless : (v.through kind).2 = []
  sameKind : (v.through kind).1.kind = v.kind
  length : (v.through kind).1.length = v.length
  names : (v.through kind).1.names? = v.names?
  cells : (v.through kind).1.cells.toList =
    v.cells.toList.map fun cell => if v.kind = kind then cell else cell.unsignedZero

theorem toList_through (v : TypedVector) (kind : Kind) : (v.through kind).1.cells.toList =
    v.cells.toList.map fun cell =>
      ((cell.convert v.kind kind).cell.convert kind v.kind).cell := by
  rw [through, toList_convert, toList_convert, List.map_map]
  rfl

theorem lossless_iff : (v.through kind).2 = [] ↔ ∀ cell ∈ v.cells.toList,
    ((cell.convert v.kind kind).cell.convert kind v.kind).lossy = false := by
  rw [through, silent_iff, toList_convert, List.forall_mem_map]
  rfl

theorem length_convert (regular : v.Regular) (kind : Kind) :
    (v.convert kind).1.length = v.length := by
  have count := congrArg List.length (v.toList_convert kind)
  rwa [← (Follows.convert CellRule.stable_any regular kind).length_eq, List.length_map,
    ← regular.length_eq] at count

/-- Logical and integer vectors come back from every kind that is not below their own, because every
integer is read back from its text. -/
theorem widening_returns (formed : v.WellFormed) (integral : v.kind.rank ≤ Kind.integer.rank)
    (up : v.kind.rank ≤ kind.rank) :
    v.Returns kind ∧
      ∀ x : Binary64, x.fitsInteger → Numeral.read? x.cellText = some x.unsignedZero := by
  have each : ∀ cell ∈ v.cells.toList,
      (cell.convert v.kind kind).cell.convert kind v.kind =
        ⟨if v.kind = kind then cell else cell.unsignedZero, false⟩ :=
    fun cell inside => Cell.convert_returns integral up (formed.cells cell inside)
  have regular := formed.regular
  refine ⟨⟨?_, ?_, rfl, ?_, rfl, ?_⟩, fun x => Binary64.read?_cellText_integer⟩
  · exact silent_iff.2 fun cell _ => Cell.lossy_up up
  · exact lossless_iff.2 fun cell inside => congrArg Cell.Converted.lossy (each cell inside)
  · rw [through, length_convert (Follows.convert CellRule.stable_any regular kind),
      length_convert regular]
  · rw [toList_through]
    exact List.map_congr_left fun cell inside => congrArg Cell.Converted.cell (each cell inside)

/-- Integers through text: the ends of the range, a missing cell and a zero with a sign. -/
theorem widening_returns_largest :
    let v := make .integer
      (RadixArray.ofList [.number 2147483647, .missing, .number (-2147483647), .number (-0)])
      (some (RadixArray.ofList ["a", "", "b", "c"]))
    v.WellFormed ∧ v.kind.rank ≤ Kind.integer.rank ∧ v.kind.rank ≤ Kind.character.rank ∧
      v.Returns .character ∧
      ((v.convert .character).1.cells.toList =
        [.text "2147483647", .missing, .text "-2147483647", .text "0"]) := by
  intro v
  have formed : v.WellFormed := by
    have valid : ∀ cell ∈ [Cell.number 2147483647, .missing, .number (-2147483647), .number (-0)],
        cell.belongsTo .integer := by decide +kernel
    refine follows_make valid fun names named => ?_
    cases named
    exact ⟨RadixArray.canonical_ofList _, rfl⟩
  have texts : (v.convert .character).1.cells.toList =
      [.text "2147483647", .missing, .text "-2147483647", .text "0"] := by decide +kernel
  have integral : v.kind.rank ≤ Kind.integer.rank := by decide
  have up : v.kind.rank ≤ Kind.character.rank := by decide
  exact ⟨formed, integral, up, (widening_returns formed integral up).1, texts⟩

end TypedVector
end TypedVectors
