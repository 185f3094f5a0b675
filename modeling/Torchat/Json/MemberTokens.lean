import Mathlib.Data.Rat.Cast.CharZero
import Mathlib.Data.List.Forall2
import Torchat.Json.Parser

/-!
Contract: the members of a JSON text by the tokens that their values start with.

A number token denotes a number exactly, and the parser keeps what fits a machine
type. Owns the tokens of the members as the parser meets them, the exact value of a
number token, and the integers that come out of the parser as they went in.

Does not own the parser; see `Parser`.
-/

set_option autoImplicit false

namespace Torchat.Json

open Torchat.Foundation

/-! ## The value of a number token -/

/-- The sign of a number in decimal notation, and the fraction that it denotes. -/
def decimalFraction (lexeme : Bytes) : Bool × Nat × Nat :=
  let negative : Bool := lexeme.head? = some minus
  let body := if negative then lexeme.drop 1 else lexeme
  let digits := body.takeWhile isDigit
  let behind := body.dropWhile isDigit
  let fraction := (scanFraction behind).drop 1
  let exponent := scanExponent (behind.drop (scanFraction behind).length)
  let power := decimalValue (exponent.filter isDigit)
  let mantissa := decimalValue (digits ++ fraction)
  if minus ∈ exponent then (negative, mantissa, 10 ^ (fraction.length + power))
  else (negative, mantissa * 10 ^ power, 10 ^ fraction.length)

theorem strtod_eq (lexeme : Bytes) :
    strtod lexeme = Double.ofFraction (decimalFraction lexeme).1 (decimalFraction lexeme).2.1
      (decimalFraction lexeme).2.2 := by
  unfold strtod decimalFraction
  dsimp only
  split <;> split <;> rfl

theorem decimalFraction_positive (lexeme : Bytes) : 0 < (decimalFraction lexeme).2.2 := by
  unfold decimalFraction
  dsimp only
  repeat' split
  all_goals exact Nat.pow_pos (Nat.succ_pos 9)

def Token.isNumber : Token → Bool
  | .valueUnsigned _ | .valueInteger _ | .valueFloat _ => true
  | _ => false

/-- The number that a number token denotes. -/
def Token.value : Token → Rat
  | .valueUnsigned lexeme => decimalValue lexeme
  | .valueInteger lexeme => -decimalValue (lexeme.drop 1)
  | .valueFloat lexeme =>
      let magnitude : Rat := (decimalFraction lexeme).2.1 / (decimalFraction lexeme).2.2
      if (decimalFraction lexeme).1 then -magnitude else magnitude
  | _ => 0

/-! ## Integers in decimal notation -/

namespace Double

/-- A fraction that is a small integer is rounded to it. -/
theorem truncate_ofFraction {number denominator : Nat} (positive : 0 < number)
    (small : number < 2 ^ 31) (denominatorPositive : 0 < denominator) :
    ∃ value, ofFraction false (number * denominator) denominator = some value ∧
      value.truncate = number := by
  have product : number * denominator ≠ 0 :=
    Nat.mul_ne_zero (Nat.ne_of_gt positive) (Nat.ne_of_gt denominatorPositive)
  have bits : (number * denominator).log2 < denominator.log2 + 32 := by
    rw [Nat.log2_lt product]
    calc number * denominator
        < 2 ^ 31 * 2 ^ (denominator.log2 + 1) :=
          Nat.mul_lt_mul'' small Nat.lt_log2_self
      _ = 2 ^ (denominator.log2 + 32) := by rw [← Nat.pow_add]; congr 1; omega
  have negative : exponentOf (number * denominator) denominator < 0 := by
    unfold exponentOf
    dsimp only
    split <;> omega
  obtain ⟨shift, same⟩ : ∃ shift : Nat, -exponentOf (number * denominator) denominator = shift :=
    ⟨_, (Int.toNat_of_nonneg (by omega)).symm⟩
  have notUp : ¬ 0 ≤ exponentOf (number * denominator) denominator := by omega
  have rounded : roundToEven (number * denominator * 2 ^ shift) denominator = number * 2 ^ shift := by
    have whole : number * denominator * 2 ^ shift = number * 2 ^ shift * denominator := by ring
    rw [roundToEven, whole, Nat.mul_div_cancel _ denominatorPositive, Nat.mul_mod_left, if_neg]
    omega
  refine ⟨⟨false, number * 2 ^ shift, exponentOf (number * denominator) denominator⟩, ?_, ?_⟩
  · rw [ofFraction, if_neg product]
    simp only [scaled, same, Int.toNat_natCast, rounded, notUp, false_and, if_false]
  · rw [truncate]
    simp only [if_neg notUp, same, Int.toNat_natCast]
    rw [Nat.mul_div_cancel _ (Nat.two_pow_pos shift)]
    simp

end Double

/-- The fraction of a token that denotes a positive integer. -/
private theorem decimalFraction_of_value {lexeme : Bytes} {number : Nat} (positive : 0 < number)
    (value : (Token.valueFloat lexeme).value = number) :
    (decimalFraction lexeme).1 = false ∧
      (decimalFraction lexeme).2.1 = number * (decimalFraction lexeme).2.2 := by
  have denominator := decimalFraction_positive lexeme
  have nonzero : ((decimalFraction lexeme).2.2 : Rat) ≠ 0 :=
    Nat.cast_ne_zero.mpr (Nat.ne_of_gt denominator)
  unfold Token.value at value
  dsimp only at value
  split at value
  next =>
    rw [← neg_div, div_eq_iff nonzero, neg_eq_iff_add_eq_zero] at value
    have sum : (decimalFraction lexeme).2.1 + number * (decimalFraction lexeme).2.2 = 0 := by
      exact_mod_cast value
    have product := Nat.mul_pos positive denominator
    omega
  next positive =>
    rw [div_eq_iff nonzero] at value
    exact ⟨Bool.eq_false_of_not_eq_true positive, by exact_mod_cast value⟩

/-- A number token that denotes a small integer is read as that integer. -/
theorem toInt_of_value {token : Token} {rest : Bytes} {number : Nat} {result : BasicJson}
    (positive : 0 < number) (small : number < 2 ^ 31) (value : token.value = number)
    (read : getNumber token rest = .ok result) : result.toInt = .ok (Int32.ofNat number) := by
  have notZero : (number : Rat) ≠ 0 := Nat.cast_ne_zero.mpr (Nat.ne_of_gt positive)
  cases token with
  | valueUnsigned lexeme =>
      have same : decimalValue lexeme = number := Nat.cast_injective value
      have fits : number < 2 ^ 64 := Nat.lt_trans small (by decide)
      rw [getNumber, same, if_pos fits] at read
      cases read
      rw [BasicJson.toInt, Int32.ofInt_eq_ofNat]
  | valueInteger lexeme =>
      rw [Token.value, neg_eq_iff_add_eq_zero] at value
      have sum : decimalValue (lexeme.drop 1) + number = 0 := by exact_mod_cast value
      omega
  | valueFloat lexeme =>
      obtain ⟨sign, fraction⟩ := decimalFraction_of_value positive value
      obtain ⟨double, rounded, truncated⟩ :=
        Double.truncate_ofFraction positive small (decimalFraction_positive lexeme)
      rw [getNumber, getFloat, strtod_eq, sign, fraction, rounded] at read
      cases read
      rw [BasicJson.toInt, truncated, if_pos (by omega), Int32.ofInt_eq_ofNat]
  | _ => exact absurd value.symm notZero

/-! ## The members of a text -/

/-- The token of a value with the input behind it, and in front of the next token. -/
abbrev ValueToken := Token × Bytes

/-- The token behind a value; a number is not converted. -/
def skipValue : Nat → Token → Bytes → Option (Token × Bytes)
  | 0, _, _ => none
  | fuel + 1, token, rest =>
      if token.isNumber then some (scan rest)
      else
        match parseInternal (fuel + 1) token rest with
        | .ok (_, next, behind) => some (next, behind)
        | .error _ => none

/-- The members of an object from a key on, with the tokens that their values start
with, and the token behind the object. -/
def scanMembers : Nat → List (Bytes × ValueToken) → Token → Bytes →
    Option (List (Bytes × ValueToken) × Token × Bytes)
  | 0, _, _, _ => none
  | fuel + 1, members, token, rest =>
      match token with
      | .valueString raw =>
          match getString raw, (scan rest).1 with
          | some key, .nameSeparator =>
              let first := scan (scan rest).2
              match skipValue fuel first.1 first.2 with
              | some (.valueSeparator, behind) =>
                  scanMembers fuel (insertMember key first members) (scan behind).1 (scan behind).2
              | some (.endObject, behind) => some (insertMember key first members, scan behind)
              | _ => none
          | _, _ => none
      | _ => none

/-- The members of a text that is an object. -/
def memberTokens (text : Bytes) : Option (List (Bytes × ValueToken)) :=
  match scan text with
  | (.beginObject, rest) =>
      match scanMembers (2 * text.length + 2) [] (scan rest).1 (scan rest).2 with
      | some (members, .endOfInput, _) => some members
      | _ => none
  | _ => none

/-- What the parser makes of the token of a number or a string. -/
def ReadAs (first : ValueToken) (value : BasicJson) : Prop :=
  match first.1 with
  | .valueString raw => ∃ text, getString raw = some text ∧ value = .string text
  | token => token.isNumber = true → getNumber token first.2 = .ok value

/-- The members of a value, in the same order, are read from these tokens. -/
def MembersReadAs (tokens : List (Bytes × ValueToken)) (members : List (Bytes × BasicJson)) :
    Prop :=
  List.Forall₂ (fun first member => first.1 = member.1 ∧ ReadAs first.2 member.2) tokens members

section Members

variable {tokens : List (Bytes × ValueToken)} {members : List (Bytes × BasicJson)}

private theorem membersReadAs_insertMember (readAs : MembersReadAs tokens members) {key : Bytes}
    {first : ValueToken} {value : BasicJson} (new : ReadAs first value) :
    MembersReadAs (insertMember key first tokens) (insertMember key value members) := by
  induction readAs with
  | nil => exact List.Forall₂.cons ⟨rfl, new⟩ List.Forall₂.nil
  | @cons token member tokens members head tail inductionHypothesis =>
      obtain ⟨sameKey, value⟩ := head
      unfold insertMember
      rw [sameKey]
      split
      · exact List.Forall₂.cons ⟨rfl, new⟩ tail
      split
      · exact List.Forall₂.cons ⟨rfl, new⟩ (List.Forall₂.cons ⟨sameKey, value⟩ tail)
      · exact List.Forall₂.cons ⟨sameKey, value⟩ inductionHypothesis

/-- A member is found where its token is. -/
theorem findMember_of_tokens (readAs : MembersReadAs tokens members) {key : Bytes}
    {first : ValueToken} (found : findMember key tokens = some first) :
    ∃ value, findMember key members = some value ∧ ReadAs first value := by
  induction readAs with
  | nil => contradiction
  | @cons token member tokens members head tail inductionHypothesis =>
      unfold findMember at found ⊢
      rw [head.1] at found
      split at found
      next here =>
        cases found
        rw [if_pos here]
        exact ⟨member.2, rfl, head.2⟩
      next elsewhere =>
        rw [if_neg elsewhere]
        exact inductionHypothesis found

theorem findMember_eq_none_of_tokens (readAs : MembersReadAs tokens members) {key : Bytes}
    (absent : findMember key tokens = none) : findMember key members = none := by
  induction readAs with
  | nil => rfl
  | @cons token member tokens members head tail inductionHypothesis =>
      unfold findMember at absent ⊢
      rw [head.1] at absent
      split at absent
      next => contradiction
      next elsewhere =>
        rw [if_neg elsewhere]
        exact inductionHypothesis absent

end Members

/-- A number that is not converted is out of range, or has a point behind it that
starts no token. -/
private theorem getNumber_error {token : Token} {rest : Bytes} {exception : JsonException}
    (number : token.isNumber = true) (thrown : getNumber token rest = .error exception) :
    exception = .outOfRange ∨ (scan rest).1 = .parseError := by
  have float (lexeme : Bytes) (thrown : getFloat lexeme = .error exception) :
      exception = .outOfRange := by
    unfold getFloat at thrown
    split at thrown <;> cases thrown
    rfl
  have large (lexeme : Bytes) (thrown : getLargeInteger lexeme rest = .error exception) :
      exception = .outOfRange ∨ (scan rest).1 = .parseError := by
    unfold getLargeInteger at thrown
    split at thrown
    next isPoint =>
      cases rest with
      | nil => contradiction
      | cons byte behind =>
          cases isPoint
          exact Or.inr rfl
    next => exact Or.inl (float lexeme thrown)
  cases token with
  | valueUnsigned lexeme =>
      rw [getNumber] at thrown
      split at thrown
      next => cases thrown
      next => exact large _ thrown
  | valueInteger lexeme =>
      rw [getNumber] at thrown
      split at thrown
      next => cases thrown
      next => exact large _ thrown
  | valueFloat lexeme => exact Or.inl (float _ thrown)
  | _ => exact absurd number Bool.false_ne_true

private theorem parseInternal_number {token : Token} (number : token.isNumber = true) (fuel : Nat)
    (rest : Bytes) :
    parseInternal (fuel + 1) token rest =
      (do let value ← getNumber token rest; .ok (value, scan rest)) := by
  cases token with
  | valueUnsigned lexeme => rw [parseInternal]
  | valueInteger lexeme => rw [parseInternal]
  | valueFloat lexeme => rw [parseInternal]
  | _ => exact absurd number Bool.false_ne_true

private theorem readAs_of_number {token : Token} {rest : Bytes} {value : BasicJson}
    (number : token.isNumber = true) (read : getNumber token rest = .ok value) :
    ReadAs (token, rest) value := by
  cases token with
  | valueString raw => exact absurd number Bool.false_ne_true
  | _ => exact fun _ => read

theorem getNumber_of_readAs {token : Token} {rest : Bytes} {value : BasicJson}
    (number : token.isNumber = true) (readAs : ReadAs (token, rest) value) :
    getNumber token rest = .ok value := by
  cases token with
  | valueString raw => exact absurd number Bool.false_ne_true
  | _ => exact readAs number

private theorem readAs_of_other {fuel : Nat} {token : Token} {rest : Bytes} {value : BasicJson}
    {behind : Token × Bytes} (other : ¬ token.isNumber = true)
    (parsed : parseInternal (fuel + 1) token rest = .ok (value, behind)) :
    ReadAs (token, rest) value := by
  cases token with
  | valueString raw =>
      rw [parseInternal] at parsed
      split at parsed
      next text valid =>
        cases parsed
        exact ⟨text, valid, rfl⟩
      next => contradiction
  | _ => exact fun number => absurd number other

private theorem parseInternal_object {rest : Bytes} (notEmpty : (scan rest).1 ≠ .endObject)
    (fuel : Nat) :
    parseInternal (fuel + 1) .beginObject rest =
      parseMembers fuel [] (scan rest).1 (scan rest).2 := by
  rw [parseInternal]
  split
  next closed => exact absurd closed notEmpty
  next => rfl

/-- The parser finds the value that is skipped, or a number out of range. -/
private theorem parseInternal_of_skipValue {fuel : Nat} {token next : Token} {rest behind : Bytes}
    (skipped : skipValue fuel token rest = some (next, behind)) (goesOn : next ≠ .parseError) :
    (∃ value, parseInternal fuel token rest = .ok (value, next, behind) ∧
        ReadAs (token, rest) value) ∨
      parseInternal fuel token rest = .error .outOfRange := by
  cases fuel with
  | zero => contradiction
  | succ fuel =>
      rw [skipValue] at skipped
      split at skipped
      next number =>
        have scanned := Option.some.inj skipped
        rw [parseInternal_number number]
        cases read : getNumber token rest with
        | ok value =>
            rw [← scanned]
            exact Or.inl ⟨value, rfl, readAs_of_number number read⟩
        | error exception =>
            rcases getNumber_error number read with rfl | stuck
            · exact Or.inr rfl
            · rw [scanned] at stuck
              exact absurd stuck goesOn
      next other =>
        split at skipped
        next value _ _ parsed =>
          cases skipped
          exact Or.inl ⟨value, parsed, readAs_of_other other parsed⟩
        next => contradiction

/-- The parser finds the members whose tokens are scanned, or a number out of range. -/
private theorem parseMembers_of_scanMembers {fuel : Nat} {tokens found : List (Bytes × ValueToken)}
    {members : List (Bytes × BasicJson)} {token : Token} {rest : Bytes} {next : Token × Bytes}
    (readAs : MembersReadAs tokens members)
    (scanned : scanMembers fuel tokens token rest = some (found, next)) :
    (∃ result, parseMembers fuel members token rest = .ok (.object result, next) ∧
        MembersReadAs found result) ∨
      parseMembers fuel members token rest = .error .outOfRange := by
  induction fuel generalizing tokens members token rest with
  | zero => contradiction
  | succ fuel inductionHypothesis =>
      unfold scanMembers at scanned
      split at scanned
      next raw =>
        split at scanned
        next key validKey separated =>
          dsimp only at scanned
          split at scanned
          next behind skipped =>
            rcases parseInternal_of_skipValue skipped Token.noConfusion with
              ⟨value, parsed, new⟩ | thrown
            · have inserted := @membersReadAs_insertMember _ _ readAs key _ _ new
              rcases inductionHypothesis inserted scanned with found | thrown
              · left
                simpa only [parseMembers, validKey, separated, parsed, bind, Except.bind] using found
              · right
                simpa only [parseMembers, validKey, separated, parsed, bind, Except.bind] using thrown
            · right
              simp only [parseMembers, validKey, separated, thrown, bind, Except.bind]
          next behind skipped =>
            cases scanned
            rcases parseInternal_of_skipValue skipped Token.noConfusion with
              ⟨value, parsed, new⟩ | thrown
            · left
              refine ⟨_, ?_, membersReadAs_insertMember readAs new⟩
              simp only [parseMembers, validKey, separated, parsed, bind, Except.bind]
            · right
              simp only [parseMembers, validKey, separated, thrown, bind, Except.bind]
          next => contradiction
        next => contradiction
      next => contradiction

/-- A text with these members is parsed to an object with their values, or a number
in it is out of range. -/
theorem parse_of_memberTokens {text : Bytes} {tokens : List (Bytes × ValueToken)}
    (scanned : memberTokens text = some tokens) :
    (∃ members, parse text = .ok (.object members) ∧ MembersReadAs tokens members) ∨
      parse text = .error .outOfRange := by
  unfold memberTokens at scanned
  split at scanned
  next rest opened =>
    split at scanned
    next found behind membersScanned =>
      cases scanned
      have notEmpty : (scan rest).1 ≠ .endObject := by
        intro closed
        simp [closed, scanMembers] at membersScanned
      have members := parseMembers_of_scanMembers
        (List.Forall₂.nil : MembersReadAs [] []) membersScanned
      have descends : parseInternal (2 * text.length + 3) (scan text).1 (scan text).2 =
          parseMembers (2 * text.length + 2) [] (scan rest).1 (scan rest).2 := by
        rw [opened]
        exact parseInternal_object notEmpty (2 * text.length + 2)
      unfold parse
      rw [descends]
      rcases members with ⟨result, parsed, readAs⟩ | thrown
      · rw [parsed]
        exact Or.inl ⟨result, rfl, readAs⟩
      · rw [thrown]
        exact Or.inr rfl
    next => contradiction
  next => contradiction

end Torchat.Json
