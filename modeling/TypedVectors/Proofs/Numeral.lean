import Mathlib.Data.List.TakeDrop
import TypedVectors.Decimal.Text
import TypedVectors.Numeral
import TypedVectors.Proofs.Decimal.Value

/-!
Texts of decimals and the numbers they denote. The writer chooses between four ways to spell a
decimal and the reader knows one grammar; each of the four is a sentence of it, with the value that
was written.
-/
namespace TypedVectors

namespace Numeral

theorem digitsValue_eq {digits : List Char} (all : ∀ c ∈ digits, c.isDigit) :
    digitsValue 10 digits = Nat.ofDigitChars 10 digits 0 := by
  unfold digitsValue Nat.ofDigitChars
  refine List.foldl_ext _ _ _ fun value c member => ?_
  rw [digitValue, if_pos (all c member)]

theorem isDigit_zeros (count : ℕ) : ∀ c ∈ List.replicate count '0', c.isDigit := by
  intro c member
  rw [List.eq_of_mem_replicate member]
  rfl

theorem isDigit_toDigits (n : ℕ) : ∀ c ∈ Nat.toDigits 10 n, c.isDigit :=
  fun _ member => Nat.isDigit_of_mem_toDigits (by decide) (by decide) member

theorem isDigit_append {front back : List Char} (first : ∀ c ∈ front, c.isDigit)
    (second : ∀ c ∈ back, c.isDigit) : ∀ c ∈ front ++ back, c.isDigit := by
  intro c member
  exact (List.mem_append.1 member).elim (first c) (second c)

theorem digitsValue_toDigits (n : ℕ) : digitsValue 10 (Nat.toDigits 10 n) = n := by
  rw [digitsValue_eq (isDigit_toDigits n), Nat.ofDigitChars_ten_toDigits]

theorem digitsValue_append_zeros {digits : List Char} (all : ∀ c ∈ digits, c.isDigit) (count : ℕ) :
    digitsValue 10 (digits ++ List.replicate count '0') = digitsValue 10 digits * tenTo count := by
  rw [digitsValue_eq (isDigit_append all (isDigit_zeros count)), digitsValue_eq all,
    Nat.ofDigitChars_append, Nat.ofDigitChars_replicate_zero, Nat.mul_comm]
  rfl

theorem digitsValue_zeros_append {digits : List Char} (all : ∀ c ∈ digits, c.isDigit) (count : ℕ) :
    digitsValue 10 (List.replicate count '0' ++ digits) = digitsValue 10 digits := by
  rw [digitsValue_eq (isDigit_append (isDigit_zeros count) all), digitsValue_eq all,
    Nat.ofDigitChars_append, Nat.ofDigitChars_replicate_zero, Nat.mul_zero]

theorem span_digits {digits rest : List Char} (all : ∀ c ∈ digits, c.isDigit)
    (stop : ∀ c ∈ rest.head?, c.isDigit = false) :
    (digits ++ rest).span Char.isDigit = (digits, rest) := by
  rw [List.span_eq_takeWhile_dropWhile, List.takeWhile_append_of_pos all,
    List.dropWhile_append_of_pos all]
  cases rest with
  | nil => simp
  | cons c rest =>
    have other := stop c rfl
    rw [List.takeWhile_cons_of_neg (by simp [other]), List.dropWhile_cons_of_neg (by simp [other]),
      List.append_nil]

theorem takeSign_digit {c : Char} (digit : c.isDigit) (rest : List Char) :
    takeSign (c :: rest) = (false, c :: rest) := by
  unfold takeSign
  split
  · next same =>
    cases same
    cases digit
  · next same =>
    cases same
    cases digit
  · rfl

/-- The reader gets a written exponent back. -/
theorem exponent?_exponentText (style : Decimal.Style) (exponent : ℤ) :
    exponent? (Decimal.exponentText style exponent) = some exponent := by
  unfold Decimal.exponentText exponent?
  dsimp only
  generalize style.exponentDigits - (Nat.toDigits 10 exponent.natAbs).length = padding
  have digits := isDigit_append (isDigit_zeros padding) (isDigit_toDigits exponent.natAbs)
  have value := digitsValue_zeros_append (isDigit_toDigits exponent.natAbs) padding
  rw [digitsValue_toDigits] at value
  have nonempty : (List.replicate padding '0' ++ Nat.toDigits 10 exponent.natAbs) ≠ [] := by
    simp
  generalize List.replicate padding '0' ++ Nat.toDigits 10 exponent.natAbs = written at *
  have sign : takeSign ((if exponent < 0 then '-' else '+') :: written) =
      (decide (exponent < 0), written) := by
    by_cases minus : exponent < 0
    · simp only [minus, if_true, decide_true]
      rfl
    · simp only [minus, if_false, decide_false]
      rfl
  rw [if_pos (.inl rfl), sign]
  dsimp only
  rw [if_neg (by simp [nonempty, List.all_eq_true.2 digits]), value]
  congr 1
  split
  · next minus =>
    rw [decide_eq_true_iff] at minus
    omega
  · next plus =>
    rw [decide_eq_true_iff] at plus
    omega

theorem mem_takeSign {c : Char} {cs : List Char} (member : c ∈ cs) :
    c = '-' ∨ c = '+' ∨ c ∈ (takeSign cs).2 := by
  unfold takeSign
  split
  · exact (List.mem_cons.1 member).imp_right .inr
  · exact .inr (List.mem_cons.1 member)
  · exact .inr (.inr member)

/-- What is read as an exponent starts with its mark and has only a sign and digits after it. -/
theorem exponent?_shape {mark : Char} {rest : List Char} {power : ℤ}
    (read : exponent? (mark :: rest) = some power) :
    (mark = 'e' ∨ mark = 'E') ∧ ∀ c ∈ (takeSign rest).2, c.isDigit := by
  have marked : mark = 'e' ∨ mark = 'E' := by
    by_contra other
    rw [exponent?, if_neg other] at read
    cases read
  refine ⟨marked, List.all_eq_true.1 ?_⟩
  rw [exponent?, if_pos marked] at read
  dsimp only at read
  by_contra other
  rw [if_pos (by simp [Bool.eq_false_iff.2 other])] at read
  cases read

theorem exponent?_stops {tail : List Char} {power : ℤ} (read : exponent? tail = some power) :
    ∀ c ∈ tail.head?, c.isDigit = false ∧ c ≠ '.' := by
  cases tail with
  | nil => simp
  | cons mark rest =>
    rintro c ⟨⟩
    rcases (exponent?_shape read).1 with rfl | rfl
    · decide
    · decide

theorem isBlank_digit {c : Char} (digit : c.isDigit) : Text.isBlank c = false := by
  have bounds : 48 ≤ c.toNat ∧ c.toNat ≤ 57 := Char.isDigit_iff_toNat.1 digit
  have apart : ∀ range ∈ Text.blankRanges, range.2 < 48 ∨ 57 < range.1 := by decide
  refine List.any_eq_false.2 fun range member => ?_
  have outside := apart range member
  rw [Bool.and_eq_true, decide_eq_true_iff, decide_eq_true_iff]
  omega

theorem exponent?_clear {tail : List Char} {power : ℤ} (read : exponent? tail = some power) :
    ∀ c ∈ tail, Text.isBlank c = false := by
  cases tail with
  | nil => simp
  | cons mark rest =>
    obtain ⟨marked, digits⟩ := exponent?_shape read
    intro c member
    rcases List.mem_cons.1 member with rfl | later
    · rcases marked with rfl | rfl
      · decide
      · decide
    · rcases mem_takeSign later with rfl | rfl | digit
      · decide
      · decide
      · exact isBlank_digit (digits c digit)

theorem trim_eq_self {cs : List Char} (clear : ∀ c ∈ cs, Text.isBlank c = false) :
    Text.trim cs = cs := by
  have keep : ∀ {part : List Char}, (∀ c ∈ part, Text.isBlank c = false) →
      part.dropWhile Text.isBlank = part := by
    intro part clear
    cases part with
    | nil => rfl
    | cons c rest => exact List.dropWhile_cons_of_neg (by simp [clear c List.mem_cons_self])
  rw [Text.trim, keep clear, keep fun c member => clear c (List.mem_reverse.1 member),
    List.reverse_reverse]

/-- The digits after a point, and what follows them. -/
def afterPoint : List Char → List Char × List Char
  | '.' :: rest => rest.span Char.isDigit
  | rest => ([], rest)

theorem decimal?_span {cs whole rest fraction tail : List Char}
    (first : cs.span Char.isDigit = (whole, rest)) (second : afterPoint rest = (fraction, tail)) :
    decimal? cs = if whole.isEmpty && fraction.isEmpty then none
      else (exponent? tail).map fun exponent =>
        ⟨digitsValue 10 (whole ++ fraction), exponent - fraction.length⟩ := by
  unfold decimal?
  rw [first]
  change (if whole.isEmpty && (afterPoint rest).1.isEmpty then none
    else (exponent? (afterPoint rest).2).map fun exponent =>
      (⟨digitsValue 10 (whole ++ (afterPoint rest).1), exponent - (afterPoint rest).1.length⟩ :
        Decimal)) = _
  rw [second]

theorem decimal?_eq {cs whole rest fraction tail : List Char}
    (first : cs.span Char.isDigit = (whole, rest)) (second : afterPoint rest = (fraction, tail))
    (present : whole ≠ []) :
    decimal? cs = (exponent? tail).map fun exponent =>
      ⟨digitsValue 10 (whole ++ fraction), exponent - fraction.length⟩ := by
  rw [decimal?_span first second, List.isEmpty_eq_false_iff.2 present]
  rfl

/-- The point and what follows it, or nothing. -/
def fractionText : List Char → List Char
  | [] => []
  | fraction => '.' :: fraction

theorem fractionText_eq {fraction : List Char} (nonempty : fraction ≠ []) :
    fractionText fraction = '.' :: fraction := by
  cases fraction with
  | nil => exact absurd rfl nonempty
  | cons => rfl

/-- A way to spell a decimal: digits before the point and after it, and an exponent. -/
structure Spelling where
  whole : List Char
  fraction : List Char
  tail : List Char
  power : ℤ
  digits : ∀ c ∈ whole ++ fraction, c.isDigit
  present : whole ≠ []
  read : exponent? tail = some power

namespace Spelling

def text (spelling : Spelling) : List Char :=
  spelling.whole ++ (fractionText spelling.fraction ++ spelling.tail)

def decimal (spelling : Spelling) : Decimal :=
  ⟨digitsValue 10 (spelling.whole ++ spelling.fraction),
    spelling.power - spelling.fraction.length⟩

theorem isDigit_whole (spelling : Spelling) : ∀ c ∈ spelling.whole, c.isDigit :=
  fun c member => spelling.digits c (List.mem_append_left _ member)

theorem isDigit_fraction (spelling : Spelling) : ∀ c ∈ spelling.fraction, c.isDigit :=
  fun c member => spelling.digits c (List.mem_append_right _ member)

/-- Every spelling is read as the decimal it stands for. -/
theorem decimal?_text (spelling : Spelling) : decimal? spelling.text = some spelling.decimal := by
  have stop := exponent?_stops spelling.read
  have first : spelling.text.span Char.isDigit =
      (spelling.whole, fractionText spelling.fraction ++ spelling.tail) := by
    refine span_digits spelling.isDigit_whole fun c member => ?_
    cases fraction : spelling.fraction with
    | nil =>
      rw [fraction] at member
      exact (stop c member).1
    | cons =>
      rw [fraction] at member
      cases member
      rfl
  have second : afterPoint (fractionText spelling.fraction ++ spelling.tail) =
      (spelling.fraction, spelling.tail) := by
    have digits := spelling.isDigit_fraction
    cases fraction : spelling.fraction with
    | nil =>
      change afterPoint spelling.tail = _
      unfold afterPoint
      split
      · next rest same =>
        rw [same] at stop
        exact absurd rfl (stop '.' rfl).2
      · rfl
    | cons =>
      rw [fraction] at digits
      exact span_digits digits fun c member => (stop c member).1
  rw [decimal?_eq first second spelling.present, spelling.read]
  rfl

theorem text_clear (spelling : Spelling) : ∀ c ∈ spelling.text, Text.isBlank c = false := by
  intro c member
  rw [text, List.mem_append, List.mem_append] at member
  rcases member with whole | fraction | tail
  · exact isBlank_digit (spelling.isDigit_whole c whole)
  · have digits := spelling.isDigit_fraction
    cases same : spelling.fraction with
    | nil =>
      rw [same] at fraction
      cases fraction
    | cons first rest =>
      rw [same] at fraction digits
      rcases List.mem_cons.1 fraction with rfl | digit
      · decide
      · exact isBlank_digit (digits c digit)
  · exact exponent?_clear spelling.read c tail

theorem takeSign_text (spelling : Spelling) : takeSign spelling.text = (false, spelling.text) := by
  have digits := spelling.isDigit_whole
  unfold text
  cases whole : spelling.whole with
  | nil => exact absurd whole spelling.present
  | cons first rest =>
    rw [whole] at digits
    exact takeSign_digit (digits first List.mem_cons_self) _

theorem signedDecimal?_text (spelling : Spelling) (negative : Bool) :
    signedDecimal? (if negative then '-' :: spelling.text else spelling.text) =
      some (spelling.decimal.toBinary64 negative) := by
  have sign : takeSign (if negative then '-' :: spelling.text else spelling.text) =
      (negative, spelling.text) := by
    cases negative with
    | false => exact spelling.takeSign_text
    | true => rfl
  unfold signedDecimal?
  rw [sign]
  dsimp only
  rw [decimal?_text]
  rfl

theorem read?_text (spelling : Spelling) (negative : Bool) :
    read? (String.ofList (if negative then '-' :: spelling.text else spelling.text)) =
      some (spelling.decimal.toBinary64 negative) := by
  have clear : ∀ c ∈ (if negative then '-' :: spelling.text else spelling.text),
      Text.isBlank c = false := by
    intro c member
    cases negative with
    | false => exact spelling.text_clear c member
    | true =>
      rcases List.mem_cons.1 member with rfl | other
      · decide
      · exact spelling.text_clear c other
  unfold read?
  dsimp only
  rw [String.toList_ofList, trim_eq_self clear, signedDecimal?_text]
  rfl

end Spelling

end Numeral

namespace Decimal

theorem toDigits_eq_significantDigits (d : Decimal) : ∃ zeros,
    Nat.toDigits 10 d.coefficient = d.significantDigits ++ List.replicate zeros '0' := by
  unfold significantDigits
  generalize Nat.toDigits 10 d.coefficient = digits
  have split := List.takeWhile_append_dropWhile (p := (· == '0')) (l := digits.reverse)
  have zeros : ∀ c ∈ digits.reverse.takeWhile (· == '0'), c = '0' := fun c member =>
    beq_iff_eq.1 (List.all_eq_true.1 List.all_takeWhile c member)
  refine ⟨(digits.reverse.takeWhile (· == '0')).length, ?_⟩
  rw [← List.reverse_replicate, ← List.eq_replicate_of_mem zeros, ← List.reverse_append, split,
    List.reverse_reverse]

theorem isDigit_significantDigits (d : Decimal) : ∀ c ∈ d.significantDigits, c.isDigit := by
  obtain ⟨zeros, split⟩ := d.toDigits_eq_significantDigits
  intro c member
  refine Numeral.isDigit_toDigits d.coefficient c ?_
  rw [split]
  exact List.mem_append_left _ member

theorem coefficient_eq (d : Decimal) : ∃ zeros : ℕ,
    d.coefficient = Numeral.digitsValue 10 d.significantDigits * tenTo zeros ∧
      d.pointPlace = d.significantDigits.length + zeros + d.exponent := by
  obtain ⟨zeros, split⟩ := d.toDigits_eq_significantDigits
  refine ⟨zeros, ?_, ?_⟩
  · rw [← Numeral.digitsValue_append_zeros d.isDigit_significantDigits, ← split,
      Numeral.digitsValue_toDigits]
  · rw [pointPlace, split, List.length_append, List.length_replicate]
    push_cast
    rfl

theorem significantDigits_ne_nil {d : Decimal} (nonzero : d.coefficient ≠ 0) :
    d.significantDigits ≠ [] := by
  obtain ⟨zeros, value, _⟩ := d.coefficient_eq
  intro empty
  rw [empty] at value
  exact nonzero (value.trans (Nat.zero_mul _))

/-- The value of a decimal by its digits and the place of the point among them. -/
theorem inSteps_eq (d : Decimal) : d.inSteps =
    Numeral.digitsValue 10 d.significantDigits *
      scale (d.pointPlace - d.significantDigits.length) := by
  obtain ⟨zeros, value, place⟩ := d.coefficient_eq
  have exponent : d.pointPlace - d.significantDigits.length = d.exponent + zeros := by omega
  rw [exponent, scale_add, inSteps, value]
  push_cast
  ring

/-- A text spells a decimal of the given digits with the point at the given place among them. -/
def Spells (text significant : List Char) (place : ℤ) : Prop :=
  ∃ spelling : Numeral.Spelling, spelling.text = text ∧
    spelling.decimal.inSteps =
      Numeral.digitsValue 10 significant * scale (place - significant.length)

theorem inSteps_spelling {spelling : Numeral.Spelling} {significant : List Char} {place : ℤ}
    (zeros : ℕ)
    (value : Numeral.digitsValue 10 (spelling.whole ++ spelling.fraction) =
      Numeral.digitsValue 10 significant * tenTo zeros)
    (exponent : spelling.power - spelling.fraction.length + zeros = place - significant.length) :
    spelling.decimal.inSteps =
      Numeral.digitsValue 10 significant * scale (place - significant.length) := by
  unfold inSteps Numeral.Spelling.decimal
  dsimp only
  rw [← exponent, scale_add, value]
  push_cast
  ring

section

variable {significant : List Char} (digits : ∀ c ∈ significant, c.isDigit)
  (nonempty : significant ≠ []) {place : ℤ}
include digits nonempty

/-- Digits before the point with zeros up to it. -/
theorem spells_zeros (short : significant.length ≤ place) :
    Spells (significant ++ List.replicate (place.toNat - significant.length) '0') significant
      place := by
  have zeros := Numeral.isDigit_zeros (place.toNat - significant.length)
  refine ⟨⟨significant ++ List.replicate (place.toNat - significant.length) '0', [], [], 0,
    ?_, ?_, rfl⟩, List.append_nil _, inSteps_spelling (place.toNat - significant.length) ?_ ?_⟩
  · rw [List.append_nil]
    exact Numeral.isDigit_append digits zeros
  · exact List.append_ne_nil_of_left_ne_nil nonempty _
  · rw [List.append_nil, Numeral.digitsValue_append_zeros digits]
  · change (0 : ℤ) - (0 : ℕ) + _ = _
    omega

/-- Digits with the point among them or after the last one, and an exponent. -/
theorem spells_split (count : ℕ) (before : count ≠ 0) (within : count ≤ significant.length)
    {tail : List Char} {power : ℤ} (read : Numeral.exponent? tail = some power)
    (shift : power + count = place) :
    Spells (significant.take count ++ (Numeral.fractionText (significant.drop count) ++ tail))
      significant place := by
  have cut := List.take_append_drop count significant
  refine ⟨⟨significant.take count, significant.drop count, tail, power, ?_, ?_, read⟩, rfl,
    inSteps_spelling 0 ?_ ?_⟩
  · rwa [cut]
  · rw [Ne, List.take_eq_nil_iff]
    exact not_or.2 ⟨before, nonempty⟩
  · rw [cut]
    exact (Nat.mul_one _).symm
  · change power - (significant.drop count).length + (0 : ℕ) = _
    rw [List.length_drop]
    omega

/-- Zeros between the point and the digits. -/
theorem spells_small (below : place ≤ 0) :
    Spells ('0' :: '.' :: (List.replicate (-place).toNat '0' ++ significant)) significant
      place := by
  have zeros := Numeral.isDigit_zeros (-place).toNat
  have fraction := Numeral.isDigit_append zeros digits
  have present := List.append_ne_nil_of_right_ne_nil (List.replicate (-place).toNat '0') nonempty
  refine ⟨⟨['0'], List.replicate (-place).toNat '0' ++ significant, [], 0, ?_, ?_, rfl⟩, ?_,
    inSteps_spelling 0 ?_ ?_⟩
  · exact Numeral.isDigit_append (Numeral.isDigit_zeros 1) fraction
  · exact List.cons_ne_nil _ _
  · rw [Numeral.Spelling.text, Numeral.fractionText_eq present, List.append_nil]
    rfl
  · rw [← Numeral.digitsValue_zeros_append digits (-place).toNat]
    exact (Numeral.digitsValue_zeros_append fraction 1).trans (Nat.mul_one _).symm
  · change (0 : ℤ) - (List.replicate (-place).toNat '0' ++ significant).length + (0 : ℕ) = _
    rw [List.length_append, List.length_replicate]
    omega

end

/-- Each way of writing a decimal spells its digits. -/
theorem spells_digitText (style : Style) {d : Decimal} (nonzero : d.coefficient ≠ 0) :
    Spells (d.digitText style) d.significantDigits d.pointPlace := by
  have digits := d.isDigit_significantDigits
  have nonempty := significantDigits_ne_nil nonzero
  have length := List.length_pos_iff.2 nonempty
  unfold digitText
  dsimp only
  generalize d.significantDigits = significant at *
  generalize d.pointPlace = place
  split
  · next within =>
    split
    · next short => exact spells_zeros digits nonempty (by omega)
    · next long =>
      have rest : significant.drop place.toNat ≠ [] := by
        rw [Ne, List.drop_eq_nil_iff]
        exact long
      have unmarked : Numeral.exponent? [] = some 0 := rfl
      have spells : Spells _ significant place :=
        spells_split digits nonempty place.toNat (by omega) (by omega) unmarked (by omega)
      rwa [Numeral.fractionText_eq rest, List.append_nil] at spells
  · split
    · next small => exact spells_small digits nonempty small.2
    · rw [List.append_assoc]
      exact spells_split digits nonempty 1 one_ne_zero length
        (Numeral.exponent?_exponentText style (place - 1)) (by omega)

/-- The text of a decimal, with its sign, denotes the number that the decimal reads as. -/
theorem read?_digitText (style : Style) {d : Decimal} (nonzero : d.coefficient ≠ 0)
    (negative : Bool) :
    Numeral.read? (String.ofList
        (if negative then '-' :: d.digitText style else d.digitText style)) =
      some (d.toBinary64 negative) := by
  obtain ⟨spelling, text, value⟩ := spells_digitText style nonzero
  rw [← inSteps_eq] at value
  rw [← text, spelling.read?_text, toBinary64_congr negative value]

end Decimal

end TypedVectors
