import Mathlib.Data.Nat.Digits.Lemmas
import Torchat.Foundation.CString

/-!
Contract: decimal digits in ASCII.

Owns the digit class, the value of a digit string, the shortest notation of a
natural number, the fixed-width notation that drops high digits, and their
round trips.

Does not own signs, exponents or overflow of a machine type.
-/

set_option autoImplicit false

namespace Torchat.Foundation

def digitByte (digit : Nat) : Byte := UInt8.ofNat (48 + digit)

def isDigit (byte : Byte) : Bool := 48 ≤ byte.toNat && byte.toNat ≤ 57

def digitValue (byte : Byte) : Nat := byte.toNat - 48

/-- The number a string of digits denotes, read from the left. -/
def decimalValue (digits : Bytes) : Nat :=
  digits.foldl (fun value byte => 10 * value + digitValue byte) 0

/-- The shortest notation of a number. -/
def decimal (value : Nat) : Bytes :=
  if value = 0 then [digitByte 0] else (Nat.digits 10 value).reverse.map digitByte

/-- The last `width` digits of a number, with zeroes in front. -/
def fixedDigits : Nat → Nat → Bytes
  | 0, _ => []
  | width + 1, value => fixedDigits width (value / 10) ++ [digitByte (value % 10)]

theorem digitByte_toNat {digit : Nat} (small : digit < 10) :
    (digitByte digit).toNat = 48 + digit := by
  rw [digitByte, UInt8.toNat_ofNat']
  omega

theorem isDigit_digitByte {digit : Nat} (small : digit < 10) :
    isDigit (digitByte digit) = true := by
  rw [isDigit, digitByte_toNat small]
  simp only [Bool.and_eq_true, decide_eq_true_eq]
  omega

theorem digitValue_digitByte {digit : Nat} (small : digit < 10) :
    digitValue (digitByte digit) = digit := by
  rw [digitValue, digitByte_toNat small]
  omega

@[simp] theorem decimalValue_nil : decimalValue [] = 0 := rfl

@[simp] theorem decimalValue_concat (digits : Bytes) (last : Byte) :
    decimalValue (digits ++ [last]) = 10 * decimalValue digits + digitValue last := by
  simp [decimalValue]

private theorem decimalValue_reverse_map (digits : List Nat) (small : ∀ digit ∈ digits, digit < 10) :
    decimalValue (digits.reverse.map digitByte) = Nat.ofDigits 10 digits := by
  induction digits with
  | nil => rfl
  | cons head tail inductionHypothesis =>
      have headSmall : head < 10 := small head (by simp)
      have tailSmall : ∀ digit ∈ tail, digit < 10 := by
        intro digit member
        exact small digit (by simp [member])
      rw [List.reverse_cons, List.map_append, List.map_singleton, decimalValue_concat,
        inductionHypothesis tailSmall, digitValue_digitByte headSmall, Nat.ofDigits_cons]
      omega

theorem decimalValue_decimal (value : Nat) : decimalValue (decimal value) = value := by
  unfold decimal
  split
  next zero =>
    subst zero
    rfl
  next nonzero =>
    rw [decimalValue_reverse_map _ fun _ member => Nat.digits_lt_base (by omega) member,
      Nat.ofDigits_digits]

theorem isDigit_of_mem_decimal {value : Nat} {byte : Byte} (member : byte ∈ decimal value) :
    isDigit byte = true := by
  unfold decimal at member
  split at member
  next zero =>
    rw [List.mem_singleton] at member
    subst member
    exact isDigit_digitByte (by omega)
  next nonzero =>
    simp only [List.mem_map, List.mem_reverse] at member
    obtain ⟨digit, inDigits, rfl⟩ := member
    exact isDigit_digitByte (Nat.digits_lt_base (by omega) inDigits)

theorem length_decimal_le {value width : Nat} (positive : 1 ≤ width)
    (small : value < 10 ^ width) : (decimal value).length ≤ width := by
  unfold decimal
  split
  next => exact positive
  next =>
    rw [List.length_map, List.length_reverse]
    exact (Nat.digits_length_le_iff (by omega) value).mpr small

/-- Only zero has a notation that starts with the digit zero. -/
theorem decimal_eq_cons (value : Nat) :
    ∃ digit rest, decimal value = digitByte digit :: rest ∧ digit < 10 ∧
      (digit = 0 → rest = []) := by
  unfold decimal
  split
  next zero => exact ⟨0, [], rfl, by omega, fun _ => rfl⟩
  next nonzero =>
    have notNil : Nat.digits 10 value ≠ [] := Nat.digits_ne_nil_iff_ne_zero.mpr nonzero
    have split := List.dropLast_concat_getLast notNil
    have lastNonzero := Nat.getLast_digit_ne_zero 10 nonzero
    refine ⟨(Nat.digits 10 value).getLast notNil,
      (Nat.digits 10 value).dropLast.reverse.map digitByte, ?_, ?_, ?_⟩
    · conv_lhs => rw [← split]
      simp
    · exact Nat.digits_lt_base (by omega) (List.getLast_mem notNil)
    · intro zero
      exact absurd zero lastNonzero

@[simp] theorem length_fixedDigits (width value : Nat) :
    (fixedDigits width value).length = width := by
  induction width generalizing value with
  | zero => rfl
  | succ width inductionHypothesis => simp [fixedDigits, inductionHypothesis]

theorem isDigit_of_mem_fixedDigits {width value : Nat} {byte : Byte}
    (member : byte ∈ fixedDigits width value) : isDigit byte = true := by
  induction width generalizing value with
  | zero => simp [fixedDigits] at member
  | succ width inductionHypothesis =>
      rw [fixedDigits, List.mem_append, List.mem_singleton] at member
      rcases member with high | rfl
      · exact inductionHypothesis high
      · exact isDigit_digitByte (Nat.mod_lt _ (by omega))

/-- The fixed-width notation wraps at `10 ^ width`. -/
theorem decimalValue_fixedDigits (width value : Nat) :
    decimalValue (fixedDigits width value) = value % 10 ^ width := by
  induction width generalizing value with
  | zero => simp [fixedDigits, Nat.mod_one]
  | succ width inductionHypothesis =>
      rw [fixedDigits, decimalValue_concat, inductionHypothesis,
        digitValue_digitByte (Nat.mod_lt _ (by omega)), Nat.pow_succ', Nat.mod_mul]
      omega

/-- Scanning digits stops at the first byte that is none. -/
theorem takeWhile_isDigit_append {digits rest : Bytes}
    (all : ∀ byte ∈ digits, isDigit byte = true)
    (stop : ∀ byte ∈ rest.head?, isDigit byte = false) :
    (digits ++ rest).takeWhile isDigit = digits ∧ (digits ++ rest).dropWhile isDigit = rest := by
  rw [List.takeWhile_append_of_pos all, List.dropWhile_append_of_pos all]
  cases rest with
  | nil => simp
  | cons byte tail =>
      have stopped := stop byte rfl
      simp [stopped]

end Torchat.Foundation
