import Torchat.Json.Parser

/-!
Contract: the text of an object of strings and integers.

Owns `dump` for such objects and its round trip through the parser. A
non-negative integer comes back as an unsigned one.

Does not own arrays, floats or nested objects, which are never written.
-/

set_option autoImplicit false

namespace Torchat.Json

open Torchat.Foundation

/-- The values of the members that are written. -/
inductive Scalar where
  | string (text : Bytes)
  | integer (value : Int)
deriving DecidableEq

abbrev colon : Byte := 0x3A

abbrev comma : Byte := 0x2C

abbrev closingBrace : Byte := 0x7D

/-- `dump_integer`. -/
def dumpInteger (value : Int) : Bytes :=
  if value < 0 then minus :: decimal value.natAbs else decimal value.natAbs

def dumpString (text : Bytes) : Bytes := quote :: (dumpEscaped text ++ [quote])

def Scalar.dump : Scalar → Bytes
  | .string text => dumpString text
  | .integer value => dumpInteger value

def dumpMember (member : Bytes × Scalar) : Bytes :=
  dumpString member.1 ++ colon :: member.2.dump

def dumpMembers : List (Bytes × Scalar) → Bytes
  | [] => []
  | [member] => dumpMember member
  | member :: next :: rest => dumpMember member ++ comma :: dumpMembers (next :: rest)

/-- `dump`, without indentation. -/
def dump (members : List (Bytes × Scalar)) : Bytes :=
  0x7B :: (dumpMembers members ++ [closingBrace])

/-- A number of 32 bits has ten digits and a sign. -/
theorem length_dumpInteger_le {value : Int} (small : value.natAbs < 10 ^ 10) :
    (dumpInteger value).length ≤ 11 := by
  have digits := length_decimal_le (by omega) small
  unfold dumpInteger
  split
  next => exact Nat.succ_le_succ digits
  next => omega

/-- Strings that are written alike are the same. -/
theorem dumpString_injective : Function.Injective dumpString := by
  intro left right written
  have escaped : dumpEscaped left = dumpEscaped right :=
    List.append_cancel_right (List.cons.inj written).2
  have read := getString_dumpEscaped left
  rw [escaped, getString_dumpEscaped] at read
  exact (Option.some.inj read).symm

/-! ## No NUL is written -/

/-- The bytes of which escapes are made. -/
def isEscape (byte : Byte) : Bool :=
  isHexDigit byte || byte ∈ [quote, backslash, letterU, 0x6E, 0x72, 0x74]

private theorem isEscape_of_pair {letter written : Byte} (known : isEscape letter = true)
    (member : written ∈ [backslash, letter]) : isEscape written = true := by
  have slash : isEscape backslash = true := by decide
  rcases List.mem_cons.mp member with first | second
  · rw [first]
    exact slash
  · rw [List.mem_singleton.mp second]
    exact known

private theorem isEscape_of_hexify {digit : Nat} (small : digit < 16) :
    isEscape (hexify digit) = true := by
  rw [isEscape, (hexify_spec small).1]
  rfl

/-- A byte that is not itself is written as an escape. -/
theorem mem_escapeByte {byte written : Byte} (member : written ∈ escapeByte byte) :
    isEscape written = true ∨ written = byte ∧ 0x20 ≤ byte.toNat := by
  unfold escapeByte at member
  split at member
  · exact Or.inl (isEscape_of_pair (by decide) member)
  split at member
  · exact Or.inl (isEscape_of_pair (by decide) member)
  split at member
  · exact Or.inl (isEscape_of_pair (by decide) member)
  split at member
  · exact Or.inl (isEscape_of_pair (by decide) member)
  split at member
  · exact Or.inl (isEscape_of_pair (by decide) member)
  split at member
  · exact Or.inl (isEscape_of_pair (by decide) member)
  split at member
  · exact Or.inl (isEscape_of_pair (by decide) member)
  split at member
  next control =>
    left
    have high := isEscape_of_hexify (show byte.toNat / 16 < 16 by omega)
    have low := isEscape_of_hexify (show byte.toNat % 16 < 16 by omega)
    have fixed : isEscape backslash = true ∧ isEscape letterU = true ∧
        isEscape 0x30 = true := by decide
    simp only [List.mem_cons, List.not_mem_nil, or_false] at member
    rcases member with rfl | rfl | rfl | rfl | rfl | rfl
    · exact fixed.1
    · exact fixed.2.1
    · exact fixed.2.2
    · exact fixed.2.2
    · exact high
    · exact low
  next printable => exact Or.inr ⟨List.mem_singleton.mp member, Nat.le_of_not_lt printable⟩

private theorem zero_notMem_escapeByte (byte : Byte) : 0 ∉ escapeByte byte := by
  have notEscape : ¬ isEscape 0 = true := by decide
  intro zero
  rcases mem_escapeByte zero with escape | ⟨same, printable⟩
  · exact notEscape escape
  · rw [← same] at printable
    contradiction

private theorem zero_notMem_dumpString (text : Bytes) : 0 ∉ dumpString text := by
  have quoteNotZero : (0 : Byte) ≠ quote := by decide
  simp only [dumpString, dumpEscaped, List.mem_cons, List.mem_append, List.mem_flatMap,
    List.not_mem_nil, or_false, not_or, not_exists, not_and]
  exact ⟨quoteNotZero, fun byte _ => zero_notMem_escapeByte byte, quoteNotZero⟩

private theorem zero_notMem_scalar (scalar : Scalar) : 0 ∉ scalar.dump := by
  cases scalar with
  | string text => exact zero_notMem_dumpString text
  | integer value =>
      have digits : 0 ∉ decimal value.natAbs := by
        intro zero
        have digit := isDigit_of_mem_decimal zero
        revert digit
        decide
      have minusNotZero : (0 : Byte) ≠ minus := by decide
      rw [Scalar.dump, dumpInteger]
      split
      · simp [digits, minusNotZero]
      · exact digits

theorem zero_notMem_dump (members : List (Bytes × Scalar)) : 0 ∉ dump members := by
  have member_ (member : Bytes × Scalar) : 0 ∉ dumpMember member := by
    have colonNotZero : (0 : Byte) ≠ colon := by decide
    simp only [dumpMember, List.mem_append, List.mem_cons, not_or]
    exact ⟨zero_notMem_dumpString _, colonNotZero, zero_notMem_scalar _⟩
  have inside : 0 ∉ dumpMembers members := by
    induction members with
    | nil => exact List.not_mem_nil
    | cons member rest inductionHypothesis =>
        cases rest with
        | nil => exact member_ member
        | cons next others =>
            have commaNotZero : (0 : Byte) ≠ comma := by decide
            simp only [dumpMembers, List.mem_append, List.mem_cons, not_or]
            exact ⟨member_ member, commaNotZero, inductionHypothesis⟩
  have braces : (0 : Byte) ≠ 0x7B ∧ (0 : Byte) ≠ closingBrace := by decide
  simp only [dump, List.mem_cons, List.mem_append, List.not_mem_nil, or_false, not_or]
  exact ⟨braces.1, inside, braces.2⟩

/-! ## What is read back -/

def Scalar.reread : Scalar → BasicJson
  | .string text => .string text
  | .integer value => if value < 0 then .numberInteger value else .numberUnsigned value.natAbs

/-- A scalar that the text format can carry: whole characters, and an integer
that fits the integer types of the library. -/
def Scalar.Writable : Scalar → Prop
  | .string text => ValidUtf8 text
  | .integer value => -2 ^ 63 ≤ value ∧ value < 2 ^ 64

def reread (members : List (Bytes × Scalar)) : List (Bytes × BasicJson) :=
  members.foldl (fun read member => insertMember member.1 member.2.reread read) []

/-- The input behind a value in an object. -/
inductive Follows : Bytes → Prop where
  | comma (rest : Bytes) : Follows (comma :: rest)
  | closingBrace (rest : Bytes) : Follows (closingBrace :: rest)

private theorem scan_string {text : Bytes} (valid : ValidUtf8 text) (rest : Bytes) :
    scan (dumpString text ++ rest) = (.valueString (dumpEscaped text), rest) := by
  have same : dumpString text ++ rest = quote :: (dumpEscaped text ++ quote :: rest) := by
    simp [dumpString]
  have notSpace : isSpace quote = false := by decide
  rw [same, scan, List.dropWhile_cons_of_neg (by simp [notSpace])]
  simp [scanAt, scanString_dumpEscaped valid]

private theorem Follows.stops {rest : Bytes} (follows : Follows rest) :
    (∀ byte ∈ rest.head?, isDigit byte = false) ∧ scanFraction rest = [] ∧
      scanExponent rest = [] := by
  cases follows with
  | comma rest =>
      have notPoint : Json.comma ≠ point := by decide
      refine ⟨?_, by simp [scanFraction, notPoint], by simp [scanExponent, Json.comma]⟩
      rintro byte ⟨⟩
      decide
  | closingBrace rest =>
      have notPoint : Json.closingBrace ≠ point := by decide
      refine ⟨?_, by simp [scanFraction, notPoint], by simp [scanExponent, Json.closingBrace]⟩
      rintro byte ⟨⟩
      decide

private theorem digitByte_eq_zero {digit : Nat} (small : digit < 10)
    (zero : digitByte digit = digitByte 0) : digit = 0 := by
  have values := congrArg digitValue zero
  rw [digitValue_digitByte small, digitValue_digitByte (by omega)] at values
  exact values

private theorem scanNumber_decimal (sign : Bytes) (value : Nat) {rest : Bytes}
    (follows : Follows rest) :
    scanNumber sign (decimal value ++ rest) =
      (if sign = [] then .valueUnsigned (decimal value) else .valueInteger (sign ++ decimal value),
        rest) := by
  obtain ⟨notDigit, noFraction, noExponent⟩ := follows.stops
  obtain ⟨taken, behind⟩ :=
    takeWhile_isDigit_append
      (show ∀ byte ∈ decimal value, isDigit byte = true from
        fun _ member => isDigit_of_mem_decimal member) notDigit
  obtain ⟨digit, more, split, small, zeroAlone⟩ := decimal_eq_cons value
  have noLeadingZero :
      ¬ ((decimal value).head? = some (digitByte 0) ∧ (decimal value).length ≠ 1) := by
    rintro ⟨zero, long⟩
    rw [split, List.head?_cons] at zero
    have alone := zeroAlone (digitByte_eq_zero small (Option.some.inj zero))
    rw [split, alone] at long
    exact long rfl
  unfold scanNumber
  simp only [taken, behind, if_neg noLeadingZero, noFraction, noExponent, List.length_nil,
    List.drop_zero, and_self, if_true]
  split <;> rfl

private theorem isDigit_not_special {byte : Byte} (digit : isDigit byte = true) :
    isSpace byte = false ∧ byte ≠ quote ∧ byte ≠ minus := by
  refine ⟨?_, ?_, ?_⟩
  · by_contra space
    simp only [Bool.not_eq_false, isSpace, Bool.or_eq_true, decide_eq_true_eq] at space
    rcases space with ((rfl | rfl) | rfl) | rfl <;> revert digit <;> decide
  · rintro rfl
    revert digit
    decide
  · rintro rfl
    revert digit
    decide

private theorem scan_nonnegative (value : Nat) {rest : Bytes} (follows : Follows rest) :
    scan (decimal value ++ rest) = (.valueUnsigned (decimal value), rest) := by
  obtain ⟨digit, more, split, small, _⟩ := decimal_eq_cons value
  have isDigitFirst := isDigit_digitByte small
  obtain ⟨notSpace, notQuote, notMinus⟩ := isDigit_not_special isDigitFirst
  have number := scanNumber_decimal [] value follows
  rw [split, List.cons_append] at number ⊢
  rw [scan, List.dropWhile_cons_of_neg (by simp [notSpace])]
  simp only [scanAt, if_neg notQuote, if_neg notMinus, isDigitFirst, if_true, number]

private theorem scan_negative (value : Nat) {rest : Bytes} (follows : Follows rest) :
    scan (minus :: (decimal value ++ rest)) = (.valueInteger (minus :: decimal value), rest) := by
  obtain ⟨digit, more, split, small, _⟩ := decimal_eq_cons value
  have isDigitFirst := isDigit_digitByte small
  have notSpace : isSpace minus = false := by decide
  have notQuote : minus ≠ quote := by decide
  have number := scanNumber_decimal [minus] value follows
  rw [split, List.cons_append] at number ⊢
  rw [scan, List.dropWhile_cons_of_neg (by simp [notSpace])]
  simp only [scanAt, if_neg notQuote, if_true, isDigitFirst, number]
  rfl

private theorem parseInternal_scalar {scalar : Scalar} (writable : scalar.Writable) (fuel : Nat)
    {rest : Bytes} (follows : Follows rest) :
    parseInternal (fuel + 1) (scan (scalar.dump ++ rest)).1 (scan (scalar.dump ++ rest)).2 =
      .ok (scalar.reread, scan rest) := by
  cases scalar with
  | string text =>
      rw [Scalar.dump, scan_string writable]
      simp only [parseInternal, getString_dumpEscaped]
      rfl
  | integer value =>
      obtain ⟨lower, upper⟩ := writable
      rw [Scalar.dump, dumpInteger, Scalar.reread]
      by_cases negative : value < 0
      · have fits : value.natAbs ≤ 2 ^ 63 := by omega
        have same : -(value.natAbs : Int) = value := by omega
        rw [if_pos negative, if_pos negative, List.cons_append, scan_negative _ follows]
        simp only [parseInternal, getNumber, List.drop_one, List.tail_cons,
          decimalValue_decimal, fits, if_true, same]
        rfl
      · have fits : value.natAbs < 2 ^ 64 := by omega
        rw [if_neg negative, if_neg negative, scan_nonnegative _ follows]
        simp only [parseInternal, getNumber, decimalValue_decimal, fits, if_true]
        rfl

private theorem scan_colon (rest : Bytes) : scan (colon :: rest) = (.nameSeparator, rest) := rfl

private theorem scan_comma (rest : Bytes) : scan (comma :: rest) = (.valueSeparator, rest) := rfl

private theorem scan_closingBrace (rest : Bytes) :
    scan (closingBrace :: rest) = (.endObject, rest) := rfl

/-- Key, colon and value of one member, and what the loop does behind them. -/
private theorem parseMembers_member {key : Bytes} {scalar : Scalar} (keyValid : ValidUtf8 key)
    (writable : scalar.Writable) (fuel : Nat) (members : List (Bytes × BasicJson))
    {rest : Bytes} (follows : Follows rest) :
    parseMembers (fuel + 2) members (scan (dumpMember (key, scalar) ++ rest)).1
        (scan (dumpMember (key, scalar) ++ rest)).2 =
      match (scan rest).1 with
      | .valueSeparator =>
          parseMembers (fuel + 1) (insertMember key scalar.reread members)
            (scan (scan rest).2).1 (scan (scan rest).2).2
      | .endObject => .ok (.object (insertMember key scalar.reread members), scan (scan rest).2)
      | _ => .error .parseError := by
  have split : dumpMember (key, scalar) ++ rest =
      dumpString key ++ colon :: (scalar.dump ++ rest) := by simp [dumpMember]
  rw [split, scan_string keyValid, parseMembers]
  simp only [getString_dumpEscaped, scan_colon, parseInternal_scalar writable fuel follows]
  rfl

private theorem parseMembers_dumpMembers {members : List (Bytes × Scalar)}
    (nonempty : members ≠ [])
    (writable : ∀ member ∈ members, ValidUtf8 member.1 ∧ member.2.Writable) {fuel : Nat}
    (enough : members.length + 1 ≤ fuel) (before : List (Bytes × BasicJson)) (rest : Bytes) :
    parseMembers fuel before (scan (dumpMembers members ++ closingBrace :: rest)).1
        (scan (dumpMembers members ++ closingBrace :: rest)).2 =
      .ok (.object (members.foldl
        (fun read member => insertMember member.1 member.2.reread read) before), scan rest) := by
  induction members generalizing fuel before with
  | nil => exact absurd rfl nonempty
  | cons member tail inductionHypothesis =>
      obtain ⟨keyValid, valueWritable⟩ := writable member List.mem_cons_self
      obtain ⟨lessFuel, rfl⟩ : ∃ lessFuel, fuel = lessFuel + 2 :=
        ⟨fuel - 2, by rw [List.length_cons] at enough; omega⟩
      cases tail with
      | nil =>
          have step := parseMembers_member keyValid valueWritable lessFuel before
            (Follows.closingBrace rest)
          rw [dumpMembers, step, scan_closingBrace]
          rfl
      | cons next others =>
          have split : dumpMembers (member :: next :: others) ++ closingBrace :: rest =
              dumpMember member ++ comma :: (dumpMembers (next :: others) ++ closingBrace :: rest) := by
            simp [dumpMembers]
          have step := parseMembers_member keyValid valueWritable lessFuel before
            (Follows.comma (dumpMembers (next :: others) ++ closingBrace :: rest))
          rw [split, step, scan_comma]
          dsimp only
          rw [inductionHypothesis (by simp)
            (fun later inTail => writable later (List.mem_cons_of_mem _ inTail))
            (by simp only [List.length_cons] at enough ⊢; omega)]
          rfl

private theorem parseInternal_beginObject (fuel : Nat) {rest : Bytes}
    (more : (scan rest).1 ≠ .endObject) :
    parseInternal (fuel + 1) .beginObject rest =
      parseMembers fuel [] (scan rest).1 (scan rest).2 := by
  rw [parseInternal]
  split
  next closing => exact absurd closing more
  next => rfl

private theorem length_le_dumpMembers (members : List (Bytes × Scalar)) :
    members.length ≤ (dumpMembers members).length := by
  induction members with
  | nil => exact Nat.zero_le _
  | cons member tail inductionHypothesis =>
      cases tail with
      | nil => simp [dumpMembers, dumpMember, dumpString]
      | cons next others =>
          simp only [dumpMembers, List.length_append, List.length_cons] at inductionHypothesis ⊢
          omega

/-- The parser inverts the writer. -/
theorem parse_dump {members : List (Bytes × Scalar)} (nonempty : members ≠ [])
    (writable : ∀ member ∈ members, ValidUtf8 member.1 ∧ member.2.Writable) :
    parse (dump members) = .ok (.object (reread members)) := by
  have open_ : scan (dump members) = (.beginObject, dumpMembers members ++ [closingBrace]) := rfl
  have bound := length_le_dumpMembers members
  have fuel : ∃ fuel, 2 * (dump members).length + 3 = fuel + 1 ∧ members.length + 1 ≤ fuel := by
    refine ⟨2 * (dump members).length + 2, rfl, ?_⟩
    simp only [dump, List.length_cons, List.length_append]
    omega
  obtain ⟨fuel, fuelEq, enough⟩ := fuel
  have loop := parseMembers_dumpMembers nonempty writable enough [] []
  have first : (scan (dumpMembers members ++ [closingBrace])).1 ≠ .endObject := by
    intro closing
    rw [closing] at loop
    obtain ⟨lessFuel, rfl⟩ : ∃ lessFuel, fuel = lessFuel + 1 := ⟨fuel - 1, by omega⟩
    simp [parseMembers] at loop
  unfold parse
  rw [fuelEq, open_, parseInternal_beginObject fuel first, loop]
  rfl

end Torchat.Json
