import Torchat.Foundation.Decimal
import Torchat.Json.StringToken
import Torchat.Json.Value

/-!
Contract: the tokens of a JSON text.

Owns the scanner, the conversion of number tokens and how much of its input one
scan takes. The scanner of numbers falls back to the last point where it could
have stopped.

Does not own the grammar above the tokens.
-/

set_option autoImplicit false

namespace Torchat.Json

open Torchat.Foundation

/-- `token_type`, with the bytes that `get_string` and `get_number` read. -/
inductive Token where
  | literalTrue
  | literalFalse
  | literalNull
  | valueString (raw : Bytes)
  | valueUnsigned (lexeme : Bytes)
  | valueInteger (lexeme : Bytes)
  | valueFloat (lexeme : Bytes)
  | beginArray
  | beginObject
  | endArray
  | endObject
  | nameSeparator
  | valueSeparator
  | parseError
  | endOfInput
deriving DecidableEq

def isSpace (byte : Byte) : Bool := byte = 0x09 || byte = 0x0A || byte = 0x0D || byte = 0x20

/-! ## Numbers -/

abbrev minus : Byte := 0x2D

abbrev point : Byte := 0x2E

/-- A point and digits; nothing where no digit follows the point. -/
def scanFraction : Bytes → Bytes
  | [] => []
  | byte :: rest =>
      if byte = point ∧ rest.takeWhile isDigit ≠ [] then byte :: rest.takeWhile isDigit else []

/-- A letter, perhaps a sign, and digits; nothing where the digits are missing. -/
def scanExponent : Bytes → Bytes
  | [] => []
  | letter :: rest =>
      if letter = 0x65 ∨ letter = 0x45 then
        match rest with
        | [] => []
        | sign :: digits =>
            if sign = 0x2B ∨ sign = minus then
              if digits.takeWhile isDigit ≠ [] then letter :: sign :: digits.takeWhile isDigit
              else []
            else if rest.takeWhile isDigit ≠ [] then letter :: rest.takeWhile isDigit
            else []
      else []

/-- A number token from its digits on; `sign` is the minus in front of them. -/
def scanNumber (sign text : Bytes) : Token × Bytes :=
  let digits := text.takeWhile isDigit
  let behind := text.dropWhile isDigit
  if digits.head? = some (digitByte 0) ∧ digits.length ≠ 1 then
    (.parseError, behind)
  else
    let fraction := scanFraction behind
    let exponent := scanExponent (behind.drop fraction.length)
    let rest := behind.drop (fraction.length + exponent.length)
    if fraction = [] ∧ exponent = [] then
      if sign = [] then (.valueUnsigned digits, rest) else (.valueInteger (sign ++ digits), rest)
    else
      (.valueFloat (sign ++ digits ++ fraction ++ exponent), rest)

/-! ## The scanner -/

def scanLiteral (token : Token) (word text : Bytes) : Token × Bytes :=
  if word.isPrefixOf text then (token, text.drop word.length) else (.parseError, text)

/-- The tokens of one byte. A NUL ends the input; any other byte is no token. -/
def structural (byte : Byte) : Token :=
  if byte = 0 then .endOfInput
  else if byte = 0x2C then .valueSeparator
  else if byte = 0x3A then .nameSeparator
  else if byte = 0x5B then .beginArray
  else if byte = 0x5D then .endArray
  else if byte = 0x7B then .beginObject
  else if byte = 0x7D then .endObject
  else .parseError

/-- The token at a byte that is no white space, and the input behind it. -/
def scanAt (byte : Byte) (rest : Bytes) : Token × Bytes :=
  if byte = quote then
    match scanString (.text .start) rest with
    | some (raw, rest) => (.valueString raw, rest)
    | none => (.parseError, rest)
  else if byte = minus then
    match rest with
    | [] => (.parseError, [])
    | digit :: _ => if isDigit digit then scanNumber [minus] rest else (.parseError, rest)
  else if isDigit byte then scanNumber [] (byte :: rest)
  else if byte = 0x66 then scanLiteral .literalFalse (ascii "alse") rest
  else if byte = 0x6E then scanLiteral .literalNull (ascii "ull") rest
  else if byte = 0x74 then scanLiteral .literalTrue (ascii "rue") rest
  else (structural byte, rest)

/-- `scan`. The end of the text reads as the NUL that is put behind it. -/
def scan (text : Bytes) : Token × Bytes :=
  match text.dropWhile isSpace with
  | [] => (.endOfInput, [])
  | byte :: rest => scanAt byte rest

/-! ## Conversion of numbers -/

/-- `strtod` on a number token: an exact fraction, then the nearest double. -/
def strtod (lexeme : Bytes) : Option Double :=
  let negative : Bool := lexeme.head? = some minus
  let body := if negative then lexeme.drop 1 else lexeme
  let digits := body.takeWhile isDigit
  let behind := body.dropWhile isDigit
  let fraction := (scanFraction behind).drop 1
  let exponent := scanExponent (behind.drop (scanFraction behind).length)
  let exponentDigits := exponent.filter isDigit
  let power := decimalValue exponentDigits
  let mantissa := decimalValue (digits ++ fraction)
  if minus ∈ exponent then
    Double.ofFraction negative mantissa (10 ^ (fraction.length + power))
  else
    Double.ofFraction negative (mantissa * 10 ^ power) (10 ^ fraction.length)

/-- The last conversion of `get_number`. -/
def getFloat (lexeme : Bytes) : Except JsonException BasicJson :=
  match strtod lexeme with
  | some value => .ok (.numberFloat value)
  | none => .error .outOfRange

/-- An integer token too large for its type is read as a float, but `strtod`
takes a point behind it as well: the conversion then fails, and the point,
which starts no token, is a parse error before the value is used. -/
def getLargeInteger (lexeme rest : Bytes) : Except JsonException BasicJson :=
  if rest.head? = some point then .error .parseError else getFloat lexeme

/-- `get_number`, on a token and the input behind it. -/
def getNumber (token : Token) (rest : Bytes) : Except JsonException BasicJson :=
  match token with
  | .valueUnsigned lexeme =>
      if decimalValue lexeme < 2 ^ 64 then .ok (.numberUnsigned (decimalValue lexeme))
      else getLargeInteger lexeme rest
  | .valueInteger lexeme =>
      if decimalValue (lexeme.drop 1) ≤ 2 ^ 63 then
        .ok (.numberInteger (-(decimalValue (lexeme.drop 1) : Int)))
      else getLargeInteger lexeme rest
  | .valueFloat lexeme => getFloat lexeme
  | _ => .error .parseError

/-! ## What a scan takes -/

private theorem length_drop_le (text : Bytes) (count : Nat) :
    (text.drop count).length ≤ text.length := by
  rw [List.length_drop]
  omega

private theorem scanNumber_rest_le (sign text : Bytes) :
    (scanNumber sign text).2.length ≤ (text.dropWhile isDigit).length := by
  unfold scanNumber
  dsimp only
  split
  · exact Nat.le_refl _
  · split
    · split <;> exact length_drop_le _ _
    · exact length_drop_le _ _

private theorem length_dropWhile_le (predicate : Byte → Bool) (text : Bytes) :
    (text.dropWhile predicate).length ≤ text.length :=
  (List.dropWhile_suffix predicate).length_le

private theorem scanLiteral_rest_le (token : Token) (word rest : Bytes) :
    (scanLiteral token word rest).2.length ≤ rest.length := by
  unfold scanLiteral
  split
  · exact length_drop_le _ _
  · exact Nat.le_refl _

private theorem scanAt_rest_le (byte : Byte) (rest : Bytes) :
    (scanAt byte rest).2.length ≤ rest.length := by
  unfold scanAt
  split
  next =>
    split
    next raw behind scanned =>
      have split := (scanRun_of_scanString scanned).2
      rw [split]
      simp only [List.length_append, List.length_cons]
      omega
    next => exact Nat.le_refl _
  split
  next =>
    cases rest with
    | nil => exact Nat.le_refl _
    | cons digit tail =>
        dsimp only
        split
        · exact (scanNumber_rest_le _ _).trans (length_dropWhile_le _ _)
        · exact Nat.le_refl _
  split
  next digit =>
    refine (scanNumber_rest_le _ _).trans ?_
    rw [List.dropWhile_cons_of_pos digit]
    exact length_dropWhile_le _ _
  split
  next => exact scanLiteral_rest_le _ _ _
  split
  next => exact scanLiteral_rest_le _ _ _
  split
  next => exact scanLiteral_rest_le _ _ _
  next => exact Nat.le_refl _

/-- A scan that is not at the end of the input takes a byte of it. -/
theorem scan_rest_lt {text rest : Bytes} {token : Token} (scanned : scan text = (token, rest))
    (more : token ≠ .endOfInput) : rest.length < text.length := by
  unfold scan at scanned
  split at scanned
  next => exact absurd (congrArg Prod.fst scanned).symm more
  next byte behind dropped =>
    have taken := length_dropWhile_le isSpace text
    have bound := scanAt_rest_le byte behind
    rw [dropped, List.length_cons] at taken
    rw [scanned] at bound
    exact Nat.lt_of_le_of_lt bound taken

/-- A scan gives nothing back. -/
theorem length_scan_le (text : Bytes) : (scan text).2.length ≤ text.length := by
  unfold scan
  split
  next => exact Nat.zero_le _
  next byte behind dropped =>
    have taken := length_dropWhile_le isSpace text
    rw [dropped, List.length_cons] at taken
    exact (scanAt_rest_le byte behind).trans (Nat.le_of_succ_le taken)

/-! ## String tokens -/

private theorem scanNumber_not_string (sign text raw : Bytes) :
    (scanNumber sign text).1 ≠ .valueString raw := by
  unfold scanNumber
  dsimp only
  split
  · exact Token.noConfusion
  · split
    · split <;> exact Token.noConfusion
    · exact Token.noConfusion

private theorem structural_not_string (byte : Byte) (raw : Bytes) :
    structural byte ≠ .valueString raw := by
  unfold structural
  repeat' split
  all_goals exact Token.noConfusion

private theorem scanLiteral_not_string {token : Token} {raw : Bytes}
    (other : token ≠ .valueString raw) (word text : Bytes) :
    (scanLiteral token word text).1 ≠ .valueString raw := by
  unfold scanLiteral
  split
  · exact other
  · exact Token.noConfusion

/-- A string token is scanned behind a quote. -/
theorem scanString_of_scan {text raw rest : Bytes} (scanned : scan text = (.valueString raw, rest)) :
    ∃ behind, behind.length < text.length ∧
      scanString (.text .start) behind = some (raw, rest) := by
  unfold scan at scanned
  split at scanned
  next => exact absurd (congrArg Prod.fst scanned) Token.noConfusion
  next byte behind dropped =>
    have taken := length_dropWhile_le isSpace text
    rw [dropped, List.length_cons] at taken
    refine ⟨behind, taken, ?_⟩
    unfold scanAt at scanned
    split at scanned
    next =>
      split at scanned
      next found stringScanned =>
        cases scanned
        exact stringScanned
      next => exact absurd (congrArg Prod.fst scanned) Token.noConfusion
    split at scanned
    next =>
      split at scanned
      next => exact absurd (congrArg Prod.fst scanned) Token.noConfusion
      next =>
        split at scanned
        · exact absurd (congrArg Prod.fst scanned) (scanNumber_not_string _ _ _)
        · exact absurd (congrArg Prod.fst scanned) Token.noConfusion
    split at scanned
    next => exact absurd (congrArg Prod.fst scanned) (scanNumber_not_string _ _ _)
    split at scanned
    next => exact absurd (congrArg Prod.fst scanned) (scanLiteral_not_string Token.noConfusion _ _)
    split at scanned
    next => exact absurd (congrArg Prod.fst scanned) (scanLiteral_not_string Token.noConfusion _ _)
    split at scanned
    next => exact absurd (congrArg Prod.fst scanned) (scanLiteral_not_string Token.noConfusion _ _)
    next => exact absurd (congrArg Prod.fst scanned) (structural_not_string _ _)

/-- The bytes between the quotes of a string token passed the scanner. -/
theorem scanRun_of_scan {text raw rest : Bytes} (scanned : scan text = (.valueString raw, rest)) :
    scanRun (.text .start) raw = some (.text .start) := by
  obtain ⟨_, _, stringScanned⟩ := scanString_of_scan scanned
  exact (scanRun_of_scanString stringScanned).1

/-- There are fewer of them than of all. -/
theorem length_raw_lt_of_scan {text raw rest : Bytes}
    (scanned : scan text = (.valueString raw, rest)) : raw.length < text.length := by
  obtain ⟨behind, shorter, stringScanned⟩ := scanString_of_scan scanned
  have split := (scanRun_of_scanString stringScanned).2
  rw [split, List.length_append, List.length_cons] at shorter
  omega

end Torchat.Json
