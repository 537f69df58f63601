import TypedVectors.Binary64.Interchange
import TypedVectors.Proofs.Decimal.Range
import TypedVectors.Proofs.Numeral
import TypedVectors.Proofs.TypedVector.Follows

/-!
Numbers as text and back. The text of a number denotes a number with the same text, so that a double
vector passes through text with no more than a rounding to fifteen digits. The exception are the
largest finite numbers: their fifteen digits reach past the range, and their text is no numeral.
-/
namespace TypedVectors

namespace Binary64

/-- Whether fifteen digits take a finite number past the range of numbers. -/
def roundsPast : Binary64 → Bool
  | finite _ steps _ => Decimal.roundingLimit ≤ steps
  | _ => false

theorem roundsPast_finite {negative : Bool} {steps : ℕ} {representable : Representable steps} :
    (finite negative steps representable).roundsPast ↔ Decimal.roundingLimit ≤ steps := by
  unfold roundsPast
  exact decide_eq_true_iff

/-- The text of a number denotes a number, and that one has the same text. -/
def ReadsBack (x : Binary64) : Prop :=
  ∃ y, Numeral.read? x.cellText = some y ∧ y.cellText = x.cellText

theorem cellText_eq (negative : Bool) {steps : ℕ} (representable : Representable steps) :
    (finite negative steps representable).cellText =
      (toFifteenDigits (finite negative steps representable)).text .cell := rfl

section

variable {negative : Bool} {steps : ℕ} {representable : Representable steps} (nonzero : steps ≠ 0)
include nonzero

theorem cellText_finite : (finite negative steps representable).cellText =
    ((Decimal.ofLeading 15 steps).toBinary64 negative).text .cell := by
  have digits : toFifteenDigits (finite negative steps representable) =
      (Decimal.ofLeading 15 steps).toBinary64 negative := if_neg nonzero
  rw [cellText_eq, digits]

/-- A number of fifteen digits is read back from its text. -/
theorem read?_of_fifteen (fifteen : (Decimal.ofLeading 15 steps).rounded = steps) :
    Numeral.read? (finite negative steps representable).cellText =
      some (finite negative steps representable) := by
  have read := Decimal.toBinary64_finite negative fifteen representable
  have shortest := (Decimal.readsAs_iff.1 (Decimal.readsAs_shortest
    (Decimal.readsAs_iff.2 ⟨fifteen, representable.2⟩))).1
  have coefficient : (Decimal.shortest steps).coefficient ≠ 0 := by
    intro zero
    rw [Decimal.rounded_zero zero] at shortest
    exact nonzero shortest.symm
  have text : (finite negative steps representable).text .cell =
      String.ofList (if negative then '-' :: (Decimal.shortest steps).digitText .cell
        else (Decimal.shortest steps).digitText .cell) := if_neg nonzero
  rw [cellText_finite nonzero, read, text, Decimal.read?_digitText .cell coefficient,
    Decimal.toBinary64_finite negative shortest representable]

theorem cellText_infinite (past : Decimal.roundingLimit ≤ steps) :
    (finite negative steps representable).cellText = (infinite negative).text .cell := by
  have infinite := (Decimal.stepLimit_le_rounded_iff nonzero representable.2).2 past
  rw [cellText_finite nonzero, Decimal.toBinary64_infinite negative infinite]

theorem readsBack_finite (within : steps < Decimal.roundingLimit) :
    (finite negative steps representable).ReadsBack := by
  have limit := Decimal.stepLimit_le_rounded_iff nonzero representable.2
  have bounded := not_le.1 (mt limit.1 (Nat.not_le.2 within))
  have present := Decimal.fifteen_ne_zero nonzero representable.2
  have fifteen := Decimal.rounded_fifteen nonzero representable.2 rfl present bounded
  have read : Representable (Decimal.ofLeading 15 steps).rounded :=
    ⟨roundSteps_leading _ _, bounded⟩
  have same :
      (finite negative _ read).cellText = (finite negative steps representable).cellText := by
    rw [cellText_finite present, Decimal.toBinary64_finite negative fifteen read,
      cellText_finite nonzero, Decimal.toBinary64_finite negative rfl read]
  refine ⟨finite negative _ read, ?_, same⟩
  rw [← same]
  exact read?_of_fifteen present fifteen

end

theorem cellText_zero {negative : Bool} {steps : ℕ} {representable : Representable steps}
    (zero : steps = 0) : (finite negative steps representable).cellText = "0" := by
  have digits : toFifteenDigits (finite negative steps representable) = ofSteps negative 0 1 :=
    if_pos zero
  rw [cellText_eq, digits]
  cases negative <;> decide +kernel

theorem read?_zero : Numeral.read? "0" = some 0 := by decide +kernel

theorem readsBack_zero {negative : Bool} {steps : ℕ} {representable : Representable steps}
    (zero : steps = 0) : (finite negative steps representable).ReadsBack := by
  rw [ReadsBack, cellText_zero zero]
  exact ⟨0, read?_zero, by decide +kernel⟩

/-- The texts that infinite numbers have in messages are no numerals, and no mark of a missing
cell either. -/
theorem read?_messageText_infinite (negative : Bool) :
    Numeral.read? ((infinite negative).text .cell) = none ∧
      Cell.isMissingMark ((infinite negative).text .cell) = false := by
  cases negative <;> decide +kernel

theorem lost_of_roundsPast {x : Binary64} (past : x.roundsPast) :
    Numeral.read? x.cellText = none ∧ Cell.isMissingMark x.cellText = false := by
  cases x with
  | nan | infinite => cases past
  | finite negative steps representable =>
    have reached := roundsPast_finite.1 past
    have nonzero := Nat.ne_of_gt (Nat.lt_of_lt_of_le Decimal.roundingLimit_pos reached)
    rw [cellText_infinite nonzero reached]
    exact read?_messageText_infinite negative

theorem readsBack_iff (x : Binary64) : x.ReadsBack ↔ ¬x.roundsPast := by
  constructor
  · rintro ⟨y, read, _⟩ past
    rw [(lost_of_roundsPast past).1] at read
    cases read
  · intro within
    cases x with
    | nan => exact ⟨nan, by decide +kernel, rfl⟩
    | infinite negative =>
      refine ⟨infinite negative, ?_, rfl⟩
      cases negative <;> decide +kernel
    | finite negative steps representable =>
      by_cases zero : steps = 0
      · exact readsBack_zero zero
      · exact readsBack_finite zero (Nat.not_le.1 (mt roundsPast_finite.2 within))

end Binary64

namespace Cell

/-- A double cell as text, which loses nothing, and as a double cell again. -/
def throughText (cell : Cell) : Converted :=
  (cell.convert .double .character).cell.convert .character .double

theorem throughText_past {x : Binary64} (past : x.roundsPast) :
    (number x).throughText = ⟨missing, true⟩ := by
  obtain ⟨unread, unmarked⟩ := Binary64.lost_of_roundsPast past
  change toDouble (text x.cellText) = _
  unfold toDouble
  dsimp only
  rw [unread, unmarked]
  rfl

theorem throughText_readsBack {x : Binary64} (reads : x.ReadsBack) :
    ∃ y, (number x).throughText = ⟨number y, false⟩ ∧ y.cellText = x.cellText := by
  obtain ⟨y, read, same⟩ := reads
  refine ⟨y, ?_, same⟩
  change toDouble (text x.cellText) = _
  unfold toDouble
  dsimp only
  rw [read]

end Cell

namespace TypedVector

/-- The vector as text and as a double vector again. -/
def throughText (v : TypedVector) : TypedVector × List Warning :=
  (v.convert .character).1.convert .double

/-- Text keeps a vector: neither conversion warns, the same cells are missing, and the texts of the
new vector are those of the first, without a warning either. -/
structure KeptByText (v : TypedVector) : Prop where
  silent : (v.convert .character).2 = []
  lossless : v.throughText.2 = []
  missing : v.throughText.1.cells.toList.map Cell.isMissing = v.cells.toList.map Cell.isMissing
  again : v.throughText.1.convert .character = v.convert .character

theorem silent_iff {v : TypedVector} {kind : Kind} :
    (v.convert kind).2 = [] ↔
      ∀ cell ∈ v.cells.toList, (cell.convert v.kind kind).lossy = false := by
  have nothing : (v.cells.toList.map (·.convert v.kind kind)).countP (·.lossy) = 0 ↔
      ∀ cell ∈ v.cells.toList, (cell.convert v.kind kind).lossy = false := by
    simp [List.countP_eq_zero]
  rw [← nothing]
  unfold convert
  dsimp only
  rw [toList_toArray]
  split
  · next silent => exact iff_of_true rfl silent
  · next told => exact iff_of_false (List.cons_ne_nil _ _) told

theorem toList_convert (v : TypedVector) (kind : Kind) :
    (v.convert kind).1.cells.toList =
      v.cells.toList.map fun cell => (cell.convert v.kind kind).cell := by
  change (RadixArray.ofList _).toList = _
  rw [RadixArray.toList_ofList, List.map_map, toList_toArray]
  rfl

theorem convert_congr {v w : TypedVector} {kind : Kind} (names : v.names? = w.names?)
    (cells : v.cells.toList.map (·.convert v.kind kind) =
      w.cells.toList.map (·.convert w.kind kind)) : v.convert kind = w.convert kind := by
  unfold convert withCells
  rw [toList_toArray, toList_toArray, cells, names]

theorem throughText_silent_iff {v : TypedVector} (double : v.kind = .double) :
    v.throughText.2 = [] ↔ ∀ cell ∈ v.cells.toList, cell.throughText.lossy = false := by
  rw [throughText, silent_iff, toList_convert, List.forall_mem_map, double]
  rfl

theorem toList_throughText {v : TypedVector} (double : v.kind = .double) :
    v.throughText.1.cells.toList = v.cells.toList.map fun cell => cell.throughText.cell := by
  rw [throughText, toList_convert, toList_convert, List.map_map, double]
  rfl

section

variable {v : TypedVector} (wellFormed : v.WellFormed) (double : v.kind = .double)
include wellFormed double

theorem double_cases {cell : Cell} (inside : cell ∈ v.cells.toList) :
    cell = .missing ∨ ∃ x, cell = .number x := by
  have valid := wellFormed.cells cell inside
  rw [double] at valid
  cases cell with
  | missing => exact .inl rfl
  | number x => exact .inr ⟨x, rfl⟩
  | truth value => cases valid
  | text value => cases valid

theorem silent_toText : (v.convert .character).2 = [] := by
  rw [silent_iff, double]
  intro cell inside
  rcases double_cases wellFormed double inside with rfl | ⟨x, rfl⟩
  · rfl
  · rfl

theorem keptByText_iff : v.KeptByText ↔ ∀ x, .number x ∈ v.cells.toList → ¬x.roundsPast := by
  constructor
  · intro kept x inside past
    have lossless := (throughText_silent_iff double).1 kept.lossless _ inside
    rw [Cell.throughText_past past] at lossless
    cases lossless
  · intro within
    have reads : ∀ x, .number x ∈ v.cells.toList → x.ReadsBack :=
      fun x inside => (Binary64.readsBack_iff x).2 (within x inside)
    have cells : ∀ cell ∈ v.cells.toList, cell.throughText.lossy = false ∧
        cell.throughText.cell.isMissing = cell.isMissing ∧
          cell.throughText.cell.convert .double .character = cell.convert .double .character := by
      intro cell inside
      rcases double_cases wellFormed double inside with rfl | ⟨x, rfl⟩
      · exact ⟨rfl, rfl, rfl⟩
      · obtain ⟨y, back, same⟩ := Cell.throughText_readsBack (reads x inside)
        rw [back]
        refine ⟨rfl, rfl, ?_⟩
        change Cell.Converted.mk (.text y.cellText) false = ⟨.text x.cellText, false⟩
        rw [same]
    refine ⟨silent_toText wellFormed double, ?_, ?_, ?_⟩
    · exact (throughText_silent_iff double).2 fun cell inside => (cells cell inside).1
    · rw [toList_throughText double, List.map_map]
      exact List.map_congr_left fun cell inside => (cells cell inside).2.1
    · refine convert_congr rfl ?_
      rw [toList_throughText double, List.map_map, double]
      exact List.map_congr_left fun cell inside => (cells cell inside).2.2

end

end TypedVector

/-- Every number but the largest ones is read back from its text, and a double vector passes through
text unless one of those is in it. -/
theorem text_readsBack_iff (x : Binary64) (v : TypedVector) :
    (x.ReadsBack ↔ ¬x.roundsPast) ∧
      (v.WellFormed → v.kind = .double →
        (v.KeptByText ↔ ∀ y, .number y ∈ v.cells.toList → ¬y.roundsPast)) :=
  ⟨x.readsBack_iff, fun wellFormed double => TypedVector.keptByText_iff wellFormed double⟩

theorem text_readsBack_tenth :
    (Binary64.ofWord 0x3fb999999999999a).ReadsBack ∧
      (TypedVector.make .double
        (RadixArray.ofList [.missing, .number (Binary64.ofWord 0x3fb999999999999a)])
        none).KeptByText := by
  have valid : ∀ cell ∈ [Cell.missing, .number (Binary64.ofWord 0x3fb999999999999a)],
      cell.belongsTo .double := by
    decide +kernel
  have within : ¬(Binary64.ofWord 0x3fb999999999999a).roundsPast := by decide +kernel
  obtain ⟨number, vector⟩ := text_readsBack_iff (Binary64.ofWord 0x3fb999999999999a)
    (.make .double (RadixArray.ofList [.missing, .number (Binary64.ofWord 0x3fb999999999999a)])
      none)
  refine ⟨number.2 within, (vector (TypedVector.follows_unnamed valid) rfl).2 fun y inside => ?_⟩
  rw [TypedVector.make, RadixArray.toList_ofList] at inside
  have same := (List.mem_cons.1 inside).resolve_left (by rintro ⟨⟩)
  rwa [Cell.number.inj (List.mem_singleton.1 same)]

/-- The largest number has the text of no number, and is lost on its way through text. -/
theorem largest_unread :
    ¬(Binary64.ofWord 0x7fefffffffffffff).ReadsBack ∧
      ¬(TypedVector.make .double
          (RadixArray.ofList [.number (Binary64.ofWord 0x7fefffffffffffff)]) none).KeptByText := by
  have text : Numeral.read? (Binary64.ofWord 0x7fefffffffffffff).cellText = none := by
    decide +kernel
  have lost : (TypedVector.make .double
      (RadixArray.ofList [.number (Binary64.ofWord 0x7fefffffffffffff)]) none).throughText.2 =
        [.lossyConversion 1] := by
    decide +kernel
  constructor
  · rintro ⟨y, read, _⟩
    rw [text] at read
    cases read
  · intro kept
    rw [kept.lossless] at lost
    cases lost

end TypedVectors
