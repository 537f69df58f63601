import Mathlib.Data.Nat.Digits.Defs
import TypedVectors.Proofs.Binary64.Whole
import TypedVectors.Proofs.Numeral
import TypedVectors.Proofs.Text.Blank

/-!
The grammar of numerals in text cells, as it is written down and not as it is read: signed decimals,
signed hexadecimals and words. The reader takes exactly the sentences of this grammar, and whole
numbers of at most 53 bits are read as what their digits denote.
-/
namespace TypedVectors.Numeral

/-! ### The grammar -/

def decimals : List Char := "0123456789".toList

def hexadecimals : List Char := "0123456789abcdefABCDEF".toList

/-- One digit or more. -/
structure Digits (alphabet cs : List Char) : Prop where
  present : cs ≠ []
  known : ∀ c ∈ cs, c ∈ alphabet

/-- The sign that a numeral may start with; true means minus. -/
inductive Sign : Bool → List Char → Prop
  | none : Sign false []
  | plus : Sign false ['+']
  | minus : Sign true ['-']

/-- Digits with at most one point after, among or before them. -/
inductive Mantissa : List Char → Prop
  | whole {digits : List Char} : Digits decimals digits → Mantissa digits
  | pointed {digits fraction : List Char} : Digits decimals digits →
      (∀ c ∈ fraction, c ∈ decimals) → Mantissa (digits ++ '.' :: fraction)
  | fraction {digits : List Char} : Digits decimals digits → Mantissa ('.' :: digits)

inductive Exponent : List Char → Prop
  | none : Exponent []
  | some {mark : Char} {minus : Bool} {sign digits : List Char} : mark ∈ ['e', 'E'] →
      Sign minus sign → Digits decimals digits → Exponent (mark :: (sign ++ digits))

inductive SignedDecimal : List Char → Prop
  | signed {minus : Bool} {sign mantissa exponent : List Char} : Sign minus sign →
      Mantissa mantissa → Exponent exponent → SignedDecimal (sign ++ (mantissa ++ exponent))

/-- A decimal without point and exponent. -/
inductive SignedWhole : Bool → List Char → List Char → Prop
  | signed {minus : Bool} {sign digits : List Char} : Sign minus sign →
      Digits decimals digits → SignedWhole minus digits (sign ++ digits)

inductive SignedHex : Bool → List Char → List Char → Prop
  | signed {minus : Bool} {sign digits : List Char} {mark : Char} : Sign minus sign →
      mark ∈ ['x', 'X'] → Digits hexadecimals digits →
      SignedHex minus digits (sign ++ '0' :: mark :: digits)

def Word (text : String) : Prop := text ∈ ["Inf", "+Inf", "inf", "-Inf", "-inf", "NaN"]

/-- The value of a digit by its place in the row of digits; the two cases mean the same. -/
def place (c : Char) : ℕ := "0123456789abcdef".toList.idxOf c.toLower

/-- What digits denote in a base, the last digit being the lowest. -/
def denoted (base : ℕ) (digits : List Char) : ℕ := Nat.ofDigits base (digits.reverse.map place)

/-- A number read as a natural number under a sign, which a zero keeps as well. -/
def ReadAs (read : Option Binary64) (minus : Bool) (n : ℕ) : Prop :=
  ∃ x, read = some x ∧ x.negative = minus ∧ x.toInt? = some (if minus then -(n : ℤ) else n)

/-! ### Characters -/

theorem mem_of_codes {alphabet : List Char} (first count : ℕ)
    (codes : ∀ code ∈ List.range' first count, Char.ofNat code ∈ alphabet) {c : Char}
    (lower : first ≤ c.toNat) (upper : c.toNat < first + count) : c ∈ alphabet := by
  have member := codes c.toNat (List.mem_range'_1.2 ⟨lower, upper⟩)
  rwa [Char.ofNat_toNat] at member

theorem mem_decimals_iff {c : Char} : c ∈ decimals ↔ c.isDigit := by
  constructor
  · have all : decimals.all Char.isDigit := by decide
    exact List.all_eq_true.1 all c
  · intro digit
    have bounds : 48 ≤ c.toNat ∧ c.toNat ≤ 57 := Char.isDigit_iff_toNat.1 digit
    exact mem_of_codes 48 10 (by decide) bounds.1 (by omega)

theorem mem_hexadecimals {c : Char} (decimal : c ∈ decimals) : c ∈ hexadecimals :=
  List.mem_append_left "abcdefABCDEF".toList decimal

theorem mem_hexadecimals_iff {c : Char} : c ∈ hexadecimals ↔ isDigitIn 16 c := by
  constructor
  · have all : hexadecimals.all (isDigitIn 16) := by decide
    exact List.all_eq_true.1 all c
  · intro digit
    have small : digitValue c < 16 := of_decide_eq_true digit
    unfold digitValue at small
    split at small
    · next decimal => exact mem_hexadecimals (mem_decimals_iff.2 decimal)
    · split at small
      · next lower =>
        obtain ⟨above, below⟩ : 97 ≤ c.toNat ∧ c.toNat ≤ 102 := lower
        exact mem_of_codes 97 6 (by decide) above (by omega)
      · split at small
        · next upper =>
          obtain ⟨above, below⟩ : 65 ≤ c.toNat ∧ c.toNat ≤ 70 := upper
          exact mem_of_codes 65 6 (by decide) above (by omega)
        · exact absurd small (Nat.lt_irrefl 16)

theorem Digits.isDigit {digits : List Char} (valid : Digits decimals digits) :
    ∀ c ∈ digits, c.isDigit :=
  fun c inside => mem_decimals_iff.1 (valid.known c inside)

theorem digits_iff {digits : List Char} :
    Digits decimals digits ↔ (digits.isEmpty || !digits.all Char.isDigit) = false := by
  rw [Bool.or_eq_false_iff, Bool.not_eq_false', List.all_eq_true, List.isEmpty_eq_false_iff]
  exact ⟨fun valid => ⟨valid.present, valid.isDigit⟩, fun ⟨present, all⟩ =>
    ⟨present, fun c inside => mem_decimals_iff.2 (all c inside)⟩⟩

theorem digitsValue_append (base : ℕ) (front : List Char) (c : Char) :
    digitsValue base (front ++ [c]) = base * digitsValue base front + digitValue c :=
  List.foldl_concat _ _ _ _

/-- Digits read from the left have the value that they denote from the right. -/
theorem digitsValue_denoted (base : ℕ) {digits : List Char}
    (known : ∀ c ∈ digits, c ∈ hexadecimals) : digitsValue base digits = denoted base digits := by
  have places : hexadecimals.all fun c => digitValue c == place c := by decide
  induction digits using List.reverseRecOn with
  | nil => rfl
  | append_singleton front c ih =>
    rw [digitsValue_append, ih fun c inside => known c (List.mem_append_left _ inside), denoted,
      denoted, List.reverse_append, List.map_append, Nat.ofDigits_append,
      beq_iff_eq.1 (List.all_eq_true.1 places c (known c (by simp)))]
    simp [Nat.add_comm]

/-! ### Parts of a decimal -/

theorem takeSign_split (cs : List Char) :
    ∃ sign, Sign (takeSign cs).1 sign ∧ sign ++ (takeSign cs).2 = cs := by
  unfold takeSign
  split
  · exact ⟨_, .minus, rfl⟩
  · exact ⟨_, .plus, rfl⟩
  · exact ⟨_, .none, rfl⟩

theorem Sign.takeSign_eq {minus : Bool} {sign rest : List Char} (signed : Sign minus sign)
    (unsigned : ∀ c ∈ rest.head?, c ≠ '-' ∧ c ≠ '+') : takeSign (sign ++ rest) = (minus, rest) := by
  cases signed with
  | minus | plus => rfl
  | none =>
    unfold takeSign
    split
    · next same =>
      cases same
      exact absurd rfl (unsigned '-' rfl).1
    · next same =>
      cases same
      exact absurd rfl (unsigned '+' rfl).2
    · rfl

theorem unsigned_digit {c : Char} (digit : c.isDigit) : c ≠ '-' ∧ c ≠ '+' := by
  constructor
  · rintro rfl
    cases digit
  · rintro rfl
    cases digit

theorem Digits.unsigned {digits : List Char} (valid : Digits decimals digits) (rest : List Char) :
    ∀ c ∈ (digits ++ rest).head?, c ≠ '-' ∧ c ≠ '+' := by
  have known := valid.isDigit
  cases digits with
  | nil => exact absurd rfl valid.present
  | cons c digits =>
    rintro _ ⟨⟩
    exact unsigned_digit (known c List.mem_cons_self)

theorem exponent?_isSome {cs : List Char} : (exponent? cs).isSome ↔ Exponent cs := by
  constructor
  · intro read
    cases cs with
    | nil => exact .none
    | cons mark rest =>
      obtain ⟨sign, signed, split⟩ := takeSign_split rest
      unfold exponent? at read
      dsimp only at read
      split at read
      · next marked =>
        split at read
        · cases read
        · next digits =>
          rw [← split]
          exact .some (by simpa using marked) signed
            (digits_iff.2 (Bool.eq_false_iff.2 digits))
      · cases read
  · intro exponent
    cases exponent with
    | none => rfl
    | some marked signed digits =>
      have sign := signed.takeSign_eq (by simpa using digits.unsigned [])
      rw [exponent?, if_pos (by simpa using marked), sign]
      dsimp only
      rw [digits_iff.1 digits]
      rfl

theorem span_split (cs : List Char) : ∃ digits rest, cs.span Char.isDigit = (digits, rest) ∧
    cs = digits ++ rest ∧ ∀ c ∈ digits, c ∈ decimals := by
  refine ⟨_, _, List.span_eq_takeWhile_dropWhile _ _, List.takeWhile_append_dropWhile.symm, ?_⟩
  exact fun c inside => mem_decimals_iff.2 (List.all_eq_true.1 List.all_takeWhile c inside)

theorem mantissa_of_span {whole fraction rest tail : List Char} (known : ∀ c ∈ whole, c ∈ decimals)
    (second : afterPoint rest = (fraction, tail)) (present : ¬(whole = [] ∧ fraction = [])) :
    ∃ mantissa, Mantissa mantissa ∧ whole ++ rest = mantissa ++ tail := by
  unfold afterPoint at second
  split at second
  · next rest =>
    obtain ⟨digits, others, span, rfl, all⟩ := span_split rest
    rw [span] at second
    cases second
    cases whole with
    | nil => exact ⟨_, .fraction ⟨fun empty => present ⟨rfl, empty⟩, all⟩, rfl⟩
    | cons first whole => exact ⟨_, .pointed ⟨List.cons_ne_nil _ _, known⟩ all, by simp⟩
  · cases second
    exact ⟨whole, .whole ⟨fun empty => present ⟨empty, rfl⟩, known⟩, rfl⟩

theorem afterPoint_eq {tail : List Char} (stop : ∀ c ∈ tail.head?, c.isDigit = false ∧ c ≠ '.') :
    afterPoint tail = ([], tail) := by
  unfold afterPoint
  split
  · next rest => exact absurd rfl (stop '.' rfl).2
  · rfl

theorem Mantissa.decimal?_isSome {mantissa tail : List Char} (valid : Mantissa mantissa)
    (exponent : (exponent? tail).isSome) : (decimal? (mantissa ++ tail)).isSome := by
  obtain ⟨power, read⟩ := Option.isSome_iff_exists.1 exponent
  have stop := exponent?_stops read
  have notDigit : ∀ c ∈ tail.head?, c.isDigit = false := fun c first => (stop c first).1
  have point : ∀ rest, ∀ c ∈ ('.' :: rest).head?, c.isDigit = false := by
    rintro rest _ ⟨⟩
    rfl
  cases valid with
  | whole digits =>
    rw [decimal?_eq (span_digits digits.isDigit notDigit) (afterPoint_eq stop) digits.present,
      Option.isSome_map, exponent]
  | @pointed digits fraction whole known =>
    have all : ∀ c ∈ fraction, c.isDigit := fun c inside => mem_decimals_iff.1 (known c inside)
    rw [List.append_assoc, List.cons_append, decimal?_eq (span_digits whole.isDigit (point _))
      (span_digits all notDigit) whole.present, Option.isSome_map, exponent]
  | @fraction digits fraction =>
    have nothing : ∀ c ∈ ([] : List Char), c.isDigit := nofun
    have first : ('.' :: digits ++ tail).span Char.isDigit = ([], '.' :: digits ++ tail) :=
      span_digits nothing (point _)
    rw [decimal?_span first (span_digits fraction.isDigit notDigit),
      List.isEmpty_eq_false_iff.2 fraction.present, Bool.and_false, if_neg Bool.false_ne_true,
      Option.isSome_map, exponent]

theorem decimal?_isSome {cs : List Char} : (decimal? cs).isSome ↔
    ∃ mantissa exponent, Mantissa mantissa ∧ Exponent exponent ∧ cs = mantissa ++ exponent := by
  constructor
  · intro read
    obtain ⟨whole, rest, first, rfl, known⟩ := span_split cs
    generalize second : afterPoint rest = parts
    obtain ⟨fraction, tail⟩ := parts
    rw [decimal?_span first second] at read
    split at read
    · cases read
    · next present =>
      rw [Bool.and_eq_true, List.isEmpty_iff, List.isEmpty_iff] at present
      rw [Option.isSome_map] at read
      obtain ⟨mantissa, valid, split⟩ := mantissa_of_span known second present
      exact ⟨mantissa, tail, valid, exponent?_isSome.1 read, split⟩
  · rintro ⟨mantissa, tail, valid, exponent, rfl⟩
    exact valid.decimal?_isSome (exponent?_isSome.2 exponent)

/-! ### Numerals -/

theorem Mantissa.unsigned {mantissa : List Char} (valid : Mantissa mantissa) (rest : List Char) :
    ∀ c ∈ (mantissa ++ rest).head?, c ≠ '-' ∧ c ≠ '+' := by
  cases valid with
  | whole digits => exact digits.unsigned rest
  | pointed digits _ =>
    rw [List.append_assoc]
    exact digits.unsigned _
  | fraction _ =>
    rintro _ ⟨⟩
    decide

theorem signedDecimal?_isSome {cs : List Char} : (signedDecimal? cs).isSome ↔ SignedDecimal cs := by
  rw [signedDecimal?, Option.isSome_map, decimal?_isSome]
  constructor
  · rintro ⟨mantissa, exponent, valid, power, split⟩
    obtain ⟨sign, signed, whole⟩ := takeSign_split cs
    rw [← whole, split]
    exact .signed signed valid power
  · rintro ⟨signed, valid, power⟩
    rw [signed.takeSign_eq (valid.unsigned _)]
    exact ⟨_, _, valid, power, rfl⟩

theorem unsigned_zero (rest : List Char) : ∀ c ∈ ('0' :: rest).head?, c ≠ '-' ∧ c ≠ '+' := by
  rintro _ ⟨⟩
  decide

theorem hexDigits_iff {mark : Char} {digits : List Char} :
    mark ∈ ['x', 'X'] ∧ Digits hexadecimals digits ↔
      (['x', 'X'].contains mark && !digits.isEmpty && digits.all (isDigitIn 16)) = true := by
  rw [Bool.and_eq_true, Bool.and_eq_true, List.contains_iff_mem, Bool.not_eq_true',
    List.isEmpty_eq_false_iff, List.all_eq_true, and_assoc]
  refine and_congr_right fun _ => ⟨fun valid => ⟨valid.present, fun c inside =>
    mem_hexadecimals_iff.1 (valid.known c inside)⟩, fun ⟨present, all⟩ => ⟨present, fun c inside =>
    mem_hexadecimals_iff.2 (all c inside)⟩⟩

theorem SignedHex.signedHex?_eq {minus : Bool} {digits cs : List Char}
    (valid : SignedHex minus digits cs) :
    signedHex? cs = some (Binary64.ofQuotient minus (denoted 16 digits) 1) := by
  obtain ⟨signed, marked, digits⟩ := valid
  rw [signedHex?, signed.takeSign_eq (unsigned_zero _)]
  dsimp only
  rw [marked?, if_pos (hexDigits_iff.1 ⟨marked, digits⟩), digitsValue_denoted 16 digits.known]
  rfl

theorem signedHex?_isSome {cs : List Char} :
    (signedHex? cs).isSome ↔ ∃ minus digits, SignedHex minus digits cs := by
  constructor
  · intro read
    obtain ⟨sign, signed, split⟩ := takeSign_split cs
    rw [signedHex?, Option.isSome_map] at read
    rw [← split]
    generalize (takeSign cs).2 = rest at read
    unfold marked? at read
    split at read
    · split at read
      · next valid =>
        obtain ⟨marked, digits⟩ := hexDigits_iff.2 valid
        exact ⟨_, _, .signed signed marked digits⟩
      · cases read
    · cases read
  · rintro ⟨minus, digits, valid⟩
    rw [valid.signedHex?_eq]
    rfl

theorem lookup_isSome {text : String} : (words.lookup text).isSome ↔ Word text := by
  rw [List.lookup_isSome_iff]
  simp [words, Word]

theorem lookup_nan {text : String} : words.lookup text = some .nan ↔ text = "NaN" := by
  constructor
  · intro found
    obtain ⟨front, back, row, -⟩ := List.lookup_eq_some_iff.1 found
    have member : (text, Binary64.nan) ∈ words := by simp [row]
    have only : ∀ entry ∈ words, entry.2 = .nan → entry.1 = "NaN" := by decide
    exact only _ member rfl
  · rintro rfl
    rfl

theorem signedDecimal?_ne_nan (cs : List Char) : signedDecimal? cs ≠ some .nan := by
  intro read
  obtain ⟨d, -, same⟩ := Option.map_eq_some_iff.1 read
  rw [Decimal.toBinary64_eq] at same
  exact Binary64.ofSteps_ne_nan _ _ _ same

theorem signedHex?_ne_nan (cs : List Char) : signedHex? cs ≠ some .nan := by
  intro read
  obtain ⟨value, -, same⟩ := Option.map_eq_some_iff.1 read
  exact Binary64.ofSteps_ne_nan _ _ _ same

theorem decimal?_marked {mark : Char} (marked : mark ∈ ['x', 'X']) (digits : List Char) :
    decimal? ('0' :: mark :: digits) = none := by
  obtain ⟨other, noExponent⟩ :
      (mark.isDigit = false ∧ mark ≠ '.') ∧ ¬(mark = 'e' ∨ mark = 'E') := by
    rcases List.mem_pair.1 marked with rfl | rfl
    · decide
    · decide
  have zero : ∀ c ∈ ['0'], c.isDigit := List.forall_mem_singleton.2 rfl
  have stop : ∀ c ∈ (mark :: digits).head?, c.isDigit = false ∧ c ≠ '.' := by
    rintro _ ⟨⟩
    exact other
  have first := span_digits zero fun c first => (stop c first).1
  rw [← List.singleton_append, decimal?_eq first (afterPoint_eq stop) (List.cons_ne_nil _ _),
    exponent?, if_neg noExponent]
  rfl

/-- The zero before the mark of a hexadecimal is a decimal, but nothing may follow it. -/
theorem SignedHex.signedDecimal?_eq {minus : Bool} {digits cs : List Char}
    (valid : SignedHex minus digits cs) : signedDecimal? cs = none := by
  obtain ⟨signed, marked, digits⟩ := valid
  rw [signedDecimal?, signed.takeSign_eq (unsigned_zero _)]
  dsimp only
  rw [decimal?_marked marked]
  rfl

theorem Digits.decimal?_eq {digits : List Char} (valid : Digits decimals digits) :
    decimal? digits = some ⟨denoted 10 digits, 0⟩ := by
  have span : (digits ++ []).span Char.isDigit = (digits, []) :=
    span_digits valid.isDigit nofun
  rw [List.append_nil] at span
  rw [Numeral.decimal?_eq span rfl valid.present, List.append_nil,
    digitsValue_denoted 10 fun c inside => mem_hexadecimals (valid.known c inside)]
  rfl

theorem SignedWhole.signedDecimal?_eq {minus : Bool} {digits cs : List Char}
    (valid : SignedWhole minus digits cs) : signedDecimal? cs =
      some (Binary64.ofQuotient minus (denoted 10 digits) 1) := by
  obtain ⟨signed, digits⟩ := valid
  have unsigned := digits.unsigned []
  rw [List.append_nil] at unsigned
  rw [signedDecimal?, signed.takeSign_eq unsigned]
  dsimp only
  rw [digits.decimal?_eq, Option.map_some, Decimal.toBinary64_whole]

/-! ### The reader -/

theorem readAs_small {minus : Bool} {n : ℕ} (small : n < 2 ^ 53) :
    ReadAs (some (Binary64.ofQuotient minus n 1)) minus n := by
  obtain ⟨representable, kept⟩ := Binary64.ofSteps_shifted minus (Nat.le_of_lt small)
  rw [Binary64.ofQuotient, kept]
  exact ⟨_, rfl, rfl, Binary64.toInt?_finite minus representable⟩

/-- What the reader makes of a text, by the middle between the blanks at its ends. -/
structure Reading (text : String) (body : List Char) : Prop where
  trimmed : ∀ middle, Text.Trimmed text.toList middle ↔ middle = body
  accepted : (read? text).isSome ↔
    SignedDecimal body ∨ (∃ minus digits, SignedHex minus digits body) ∨ Word (String.ofList body)
  notANumber : read? text = some .nan ↔ String.ofList body = "NaN"
  hexadecimal : ∀ {minus digits}, SignedHex minus digits body → denoted 16 digits < 2 ^ 53 →
    ReadAs (read? text) minus (denoted 16 digits)
  whole : ∀ {minus digits}, SignedWhole minus digits body → denoted 10 digits < 2 ^ 53 →
    ReadAs (read? text) minus (denoted 10 digits)

theorem read?_nan {text : String} :
    read? text = some .nan ↔ String.ofList (Text.trim text.toList) = "NaN" := by
  unfold read?
  dsimp only
  generalize Text.trim text.toList = body
  constructor
  · intro read
    rcases Option.or_eq_some_iff.1 read with decimal | ⟨-, read⟩
    · exact absurd decimal (signedDecimal?_ne_nan body)
    · rcases Option.or_eq_some_iff.1 read with hex | ⟨-, word⟩
      · exact absurd hex (signedHex?_ne_nan body)
      · exact lookup_nan.1 word
  · intro word
    obtain rfl : body = "NaN".toList := by rw [← word, String.toList_ofList]
    rfl

/-- The reader takes the sentences of the grammar and no others. -/
theorem read_by_grammar (text : String) : Reading text (Text.trim text.toList) where
  trimmed _ := Text.trimmed_iff
  accepted := by
    rw [read?, Option.isSome_or, Option.isSome_or, Bool.or_eq_true, Bool.or_eq_true,
      signedDecimal?_isSome, signedHex?_isSome, lookup_isSome]
  notANumber := read?_nan
  hexadecimal valid small := by
    rw [read?, valid.signedDecimal?_eq, valid.signedHex?_eq]
    exact readAs_small small
  whole valid small := by
    rw [read?, valid.signedDecimal?_eq]
    exact readAs_small small

example : read? "\t-0X1f " = some (-31) ∧ read? "1." = some 1 ∧ read? "." = none ∧
    read? "1e" = none ∧ read? "0x" = none ∧ read? "1 0" = none := by decide +kernel

end TypedVectors.Numeral
