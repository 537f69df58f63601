import TypedVectors.Decimal.Basic
import TypedVectors.Text.Blank

/-!
Numerals, the texts that denote numbers. `read?` takes those of text cells: decimals, signed
hexadecimals and the words for infinity and not-a-number. `readLoosely` takes what a text compares
as beside a number: the empty text is zero and what is no numeral is not a number.
-/
namespace TypedVectors.Numeral

/-- Splits off a sign; true means minus. -/
def takeSign : List Char → Bool × List Char
  | '-' :: rest => (true, rest)
  | '+' :: rest => (false, rest)
  | rest => (false, rest)

/-- The value of a digit up to `f`. -/
def digitValue (c : Char) : Nat :=
  if c.isDigit then c.toNat - '0'.toNat
  else if 'a' ≤ c ∧ c ≤ 'f' then c.toNat - 'a'.toNat + 10
  else if 'A' ≤ c ∧ c ≤ 'F' then c.toNat - 'A'.toNat + 10
  else 16

/-- Whether a character is a digit in the given base, which is at most sixteen. -/
def isDigitIn (base : Nat) (c : Char) : Bool := digitValue c < base

/-- The value of digits in the given base. -/
def digitsValue (base : Nat) (digits : List Char) : Nat :=
  digits.foldl (fun value c => base * value + digitValue c) 0

/-- The exponent part: nothing, or `e`, a sign and at least one digit. -/
def exponent? : List Char → Option Int
  | [] => some 0
  | c :: rest =>
    if c = 'e' ∨ c = 'E' then
      let (minus, digits) := takeSign rest
      if digits.isEmpty || !digits.all Char.isDigit then none
      else some (if minus then -(digitsValue 10 digits : Int) else digitsValue 10 digits)
    else none

/-- An unsigned decimal: digits with at most one point among or around them, then an exponent. -/
def decimal? (cs : List Char) : Option Decimal :=
  let (whole, rest) := cs.span Char.isDigit
  let (fraction, rest) := match rest with
    | '.' :: rest => rest.span Char.isDigit
    | rest => ([], rest)
  if whole.isEmpty && fraction.isEmpty then none
  else
    (exponent? rest).map fun exponent =>
      ⟨digitsValue 10 (whole ++ fraction), exponent - fraction.length⟩

/-- Digits in the given base after a zero and one of the given marks. -/
def marked? (base : Nat) (marks : List Char) : List Char → Option Nat
  | '0' :: mark :: digits =>
    if marks.contains mark && !digits.isEmpty && digits.all (isDigitIn base) then
      some (digitsValue base digits)
    else none
  | _ => none

/-- The words that stand for numbers in text cells. -/
def words : List (String × Binary64) :=
  [("Inf", .infinite false), ("+Inf", .infinite false), ("inf", .infinite false),
    ("-Inf", .infinite true), ("-inf", .infinite true), ("NaN", .nan)]

/-- A signed decimal. -/
def signedDecimal? (cs : List Char) : Option Binary64 :=
  let (minus, rest) := takeSign cs
  (decimal? rest).map (·.toBinary64 minus)

/-- A signed hexadecimal. -/
def signedHex? (cs : List Char) : Option Binary64 :=
  let (minus, rest) := takeSign cs
  (marked? 16 ['x', 'X'] rest).map fun value => Binary64.ofQuotient minus value 1

/-- The number that a text cell denotes, blanks at its ends aside. -/
def read? (text : String) : Option Binary64 :=
  let cs := Text.trim text.toList
  (signedDecimal? cs).or <| (signedHex? cs).or (words.lookup (String.ofList cs))

/-- The number a text compares as beside a number. Hexadecimals, octals and binaries take no
sign here, and infinity is written in full. -/
def readLoosely (text : String) : Binary64 :=
  let cs := Text.trim text.toList
  if cs.isEmpty then 0
  else
    let unsigned := (marked? 16 ['x', 'X'] cs).or <|
      (marked? 8 ['o', 'O'] cs).or (marked? 2 ['b', 'B'] cs)
    let infinity := match takeSign cs with
      | (minus, rest) => if rest = "Infinity".toList then some (Binary64.infinite minus) else none
    ((signedDecimal? cs).or <| (unsigned.map Binary64.ofNat).or infinity).getD .nan

end TypedVectors.Numeral
