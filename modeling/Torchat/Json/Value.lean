import Mathlib.Algebra.Order.Ring.Int
import Torchat.Foundation.CString

/-!
Contract: JSON values as the embedded library stores them.

Owns the value type, the exception families, the binary64 numbers a text can
denote with their rounding and truncation, and objects as sorted maps.

Does not own the text format.
-/

set_option autoImplicit false

namespace Torchat.Json

open Torchat.Foundation

/-- The exception families of the library. `exhausted` is none of them: it is
the recursion bound of the parser's model (`parse_ne_exhausted`). -/
inductive JsonException where
  | parseError
  | outOfRange
  | typeError
  | exhausted
deriving DecidableEq, Repr

/-! ## Floating-point numbers -/

/-- The finite binary64 number `± significand * 2 ^ exponent`. -/
structure Double where
  negative : Bool
  significand : Nat
  exponent : Int
deriving DecidableEq, Repr

namespace Double

/-- `numerator / denominator` over `2 ^ exponent`, as a fraction. -/
def scaled (numerator denominator : Nat) (exponent : Int) : Nat × Nat :=
  if 0 ≤ exponent then (numerator, denominator * 2 ^ exponent.toNat)
  else (numerator * 2 ^ (-exponent).toNat, denominator)

/-- The nearest integer to a fraction, ties to even. -/
def roundToEven (numerator denominator : Nat) : Nat :=
  let quotient := numerator / denominator
  let twice := 2 * (numerator % denominator)
  if denominator < twice ∨ (twice = denominator ∧ quotient % 2 = 1) then quotient + 1
  else quotient

/-- The exponent at which a positive fraction has a significand of 53 bits, or
the least exponent where the fraction is subnormal. -/
def exponentOf (numerator denominator : Nat) : Int :=
  let estimate : Int := (Nat.log2 numerator : Int) - Nat.log2 denominator - 52
  let fraction := scaled numerator denominator estimate
  let exponent := if fraction.1 < 2 ^ 52 * fraction.2 then estimate - 1 else estimate
  max exponent (-1074)

/-- The nearest double; `none` where it is infinite. -/
def ofFraction (negative : Bool) (numerator denominator : Nat) : Option Double :=
  if numerator = 0 then
    some ⟨negative, 0, 0⟩
  else
    let exponent := exponentOf numerator denominator
    let fraction := scaled numerator denominator exponent
    let significand := roundToEven fraction.1 fraction.2
    if 0 ≤ exponent ∧ 2 ^ 1024 ≤ significand * 2 ^ exponent.toNat then none
    else some ⟨negative, significand, exponent⟩

/-- The integer part, rounded towards zero. -/
def truncate (value : Double) : Int :=
  let magnitude : Nat :=
    if 0 ≤ value.exponent then value.significand * 2 ^ value.exponent.toNat
    else value.significand / 2 ^ (-value.exponent).toNat
  if value.negative then -(magnitude : Int) else magnitude

end Double

/-! ## Objects -/

/-- The order of `std::string`: bytewise, a prefix first. -/
def keyLt : Bytes → Bytes → Bool
  | [], [] => false
  | [], _ :: _ => true
  | _ :: _, [] => false
  | left :: lefts, right :: rights =>
      if left = right then keyLt lefts rights else left.toNat < right.toNat

/-- `object[key] = value` on a map sorted by key. -/
def insertMember {α : Type} (key : Bytes) (value : α) :
    List (Bytes × α) → List (Bytes × α)
  | [] => [(key, value)]
  | member :: rest =>
      if key = member.1 then (key, value) :: rest
      else if keyLt key member.1 then (key, value) :: member :: rest
      else member :: insertMember key value rest

def findMember {α : Type} (key : Bytes) : List (Bytes × α) → Option α
  | [] => none
  | member :: rest => if key = member.1 then some member.2 else findMember key rest

/-! ## Values -/

/-- `basic_json`. -/
inductive BasicJson where
  | null
  | boolean (value : Bool)
  | numberUnsigned (value : Nat)
  | numberInteger (value : Int)
  | numberFloat (value : Double)
  | string (value : Bytes)
  | array (elements : List BasicJson)
  | object (members : List (Bytes × BasicJson))

/-- `operator[]` with a key on a value that is not `const`: null becomes an
object, a missing key gets a null value, and no other type has members. -/
def BasicJson.at (document : BasicJson) (key : Bytes) : Except JsonException (BasicJson × BasicJson) :=
  let inObject (members : List (Bytes × BasicJson)) : BasicJson × BasicJson :=
    match findMember key members with
    | some value => (.object members, value)
    | none => (.object (insertMember key .null members), .null)
  match document with
  | .object members => .ok (inObject members)
  | .null => .ok (inObject [])
  | _ => .error .typeError

/-- `find`: the member of an object, and nothing in any other value. -/
def BasicJson.find (document : BasicJson) (key : Bytes) : Option BasicJson :=
  match document with
  | .object members => findMember key members
  | _ => none

/-- The conversion to `std::string`. -/
def BasicJson.toStdString : BasicJson → Except JsonException Bytes
  | .string value => .ok value
  | _ => .error .typeError

/-- The conversion to `int`. A float outside the range of `int` is the value
that the conversion instruction of x86-64 gives; the language leaves it open. -/
def BasicJson.toInt : BasicJson → Except JsonException Int32
  | .numberUnsigned value => .ok (Int32.ofInt value)
  | .numberInteger value => .ok (Int32.ofInt value)
  | .numberFloat value =>
      if -2 ^ 31 ≤ value.truncate ∧ value.truncate < 2 ^ 31 then
        .ok (Int32.ofInt value.truncate)
      else
        .ok Int32.minValue
  | .boolean value => .ok (if value then 1 else 0)
  | _ => .error .typeError

end Torchat.Json
