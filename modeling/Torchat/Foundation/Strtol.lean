import Torchat.Foundation.Decimal
import Torchat.Foundation.Scan

/-!
Contract: numbers that `strtol` reads with base 0, and their conversion to `int`.

Owns the sign, the base that the first digits choose, the saturation at the ends of
`long`, what is left behind the number, and that a decimal numeral is read whole.

Does not own what is done with the text behind the number.
-/

set_option autoImplicit false

namespace Torchat.Foundation

/-- The value of a digit or a letter; no base is larger than 36. -/
def digitIn (byte : Byte) : Nat :=
  if isDigit byte then digitValue byte
  else if 0x61 ≤ byte && byte ≤ 0x7A then byte.toNat - 0x61 + 10
  else if 0x41 ≤ byte && byte ≤ 0x5A then byte.toNat - 0x41 + 10
  else 36

/-- Whether a sign says minus, and the text behind the sign. -/
def strtolSign (text : Bytes) : Bool × Bytes :=
  if text.head? = some 0x2D then (true, text.tail)
  else if text.head? = some 0x2B then (false, text.tail)
  else (false, text)

/-- The base, and the text behind the prefix of hexadecimal numbers. -/
def strtolBase (text : Bytes) : Nat × Bytes :=
  if text.head? = some 0x30 then
    if (text[1]? = some 0x78 || text[1]? = some 0x58) && text[2]?.any (digitIn · < 16) then
      (16, text.drop 2)
    else (8, text)
  else (10, text)

/-- The number of some digits. -/
def numeral (base : Nat) (digits : Bytes) : Nat :=
  digits.foldl (fun value byte => base * value + digitIn byte) 0

/-- `LONG_MIN` and `LONG_MAX`. -/
def clampLong (value : Int) : Int := max (-2 ^ 63) (min value (2 ^ 63 - 1))

/-- `strtol (text, &rest, 0)`: the number and the rest; all of the text is left where
there is no number. -/
def strtol (text : Bytes) : Int × Bytes :=
  let (negative, signed) := strtolSign (text.dropWhile isWhite)
  let (base, digits) := strtolBase signed
  let number := digits.takeWhile (digitIn · < base)
  if number = [] then (0, text)
  else
    let value : Int := numeral base number
    (clampLong (if negative then -value else value), digits.drop number.length)

/-- The conversion of a `long` to an `int`. -/
def toInt (value : Int) : Int := value.bmod (2 ^ 32)

section Decimal

variable {byte : Byte}

private theorem digitIn_of_isDigit (digit : isDigit byte = true) : digitIn byte = digitValue byte :=
  if_pos digit

private theorem digitIn_lt_ten (digit : isDigit byte = true) : digitIn byte < 10 := by
  rw [digitIn_of_isDigit digit, digitValue]
  rw [isDigit, Bool.and_eq_true, decide_eq_true_eq, decide_eq_true_eq] at digit
  omega

private theorem ne_of_isDigit (digit : isDigit byte = true) {other : Byte}
    (noDigit : isDigit other = false) : byte ≠ other := by
  rintro rfl
  rw [digit] at noDigit
  contradiction

private theorem isWhite_of_isDigit (digit : isDigit byte = true) : isWhite byte = false := by
  rw [isDigit, Bool.and_eq_true, decide_eq_true_eq, decide_eq_true_eq] at digit
  rw [isWhite, Bool.or_eq_false_iff, Bool.and_eq_false_iff, decide_eq_false_iff_not,
    decide_eq_false_iff_not, decide_eq_false_iff_not, ← UInt8.toNat_inj, UInt8.le_iff_toNat_le,
    UInt8.le_iff_toNat_le]
  have blank : (0x20 : Byte).toNat = 32 := rfl
  have last : (0x0D : Byte).toNat = 13 := rfl
  omega

private theorem numeral_ten {digits : Bytes} (all : ∀ byte ∈ digits, isDigit byte = true) :
    numeral 10 digits = decimalValue digits := by
  unfold numeral decimalValue
  apply List.foldl_ext
  intro value byte member
  rw [digitIn_of_isDigit (all byte member)]

/-- A numeral without a zero in front is read to its end. -/
theorem strtol_decimal {value : Nat} (small : value < 2 ^ 63) :
    strtol (decimal value) = ((value : Int), []) := by
  have all : ∀ byte ∈ decimal value, isDigit byte = true := fun _ member =>
    isDigit_of_mem_decimal member
  have denotes := decimalValue_decimal value
  obtain ⟨digit, rest, shape, lessTen, zero⟩ := decimal_eq_cons value
  rw [shape] at all denotes ⊢
  have first := all _ List.mem_cons_self
  by_cases isZero : digit = 0
  · rw [isZero, zero isZero] at denotes ⊢
    have nothing : value = 0 := denotes.symm
    rw [nothing]
    decide
  · have notWhite : ¬ isWhite (digitByte digit) = true := by
      rw [isWhite_of_isDigit first]
      exact Bool.false_ne_true
    have noZero : digitByte digit ≠ 0x30 := by
      intro same
      have values := congrArg UInt8.toNat same
      rw [digitByte_toNat lessTen] at values
      have ascii_ : (0x30 : Byte).toNat = 48 := rfl
      omega
    have signed : strtolSign (digitByte digit :: rest) = (false, digitByte digit :: rest) := by
      rw [strtolSign, List.head?_cons, if_neg, if_neg]
      · exact fun same => ne_of_isDigit first rfl (Option.some.inj same)
      · exact fun same => ne_of_isDigit first rfl (Option.some.inj same)
    have based : strtolBase (digitByte digit :: rest) = (10, digitByte digit :: rest) := by
      rw [strtolBase, List.head?_cons, if_neg]
      exact fun same => noZero (Option.some.inj same)
    have whole :
        (digitByte digit :: rest).takeWhile (digitIn · < 10) = digitByte digit :: rest := by
      rw [List.takeWhile_eq_self_iff]
      intro byte member
      exact decide_eq_true (digitIn_lt_ten (all byte member))
    have clamped : clampLong (value : Int) = value := by
      rw [clampLong]
      omega
    simp only [strtol, List.dropWhile_cons_of_neg notWhite, signed, based, whole,
      numeral_ten all, denotes, List.drop_length]
    rw [if_neg (List.cons_ne_nil _ _)]
    exact congrArg (·, []) clamped

theorem toInt_of_small {value : Nat} (small : value < 2 ^ 31) : toInt value = value := by
  rw [toInt, Int.bmod_def]
  omega

end Decimal

end Torchat.Foundation
