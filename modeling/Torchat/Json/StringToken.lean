import Torchat.Json.Utf8

/-!
Contract: string tokens of the JSON text format.

Owns the scanner's automaton for the bytes between two quotes, the reading of
escapes, the writer's escapes, their round trip, and that every string the
scanner accepts is valid UTF-8 once its escapes are read.

Does not own other tokens.
-/

set_option autoImplicit false

namespace Torchat.Json

open Torchat.Foundation

abbrev quote : Byte := 0x22

abbrev backslash : Byte := 0x5C

abbrev letterU : Byte := 0x75

/-! ## Hexadecimal digits -/

def isHexDigit (byte : Byte) : Bool :=
  (0x30 ≤ byte.toNat && byte.toNat ≤ 0x39) ||
    (0x41 ≤ byte.toNat && byte.toNat ≤ 0x46) || (0x61 ≤ byte.toNat && byte.toNat ≤ 0x66)

def hexValue (byte : Byte) : Nat :=
  if byte.toNat ≤ 0x39 then byte.toNat - 0x30
  else if byte.toNat ≤ 0x46 then byte.toNat - 0x41 + 10
  else byte.toNat - 0x61 + 10

/-- `hexify`: the lower-case digit of a number below 16. -/
def hexify (digit : Nat) : Byte :=
  if digit < 10 then UInt8.ofNat (0x30 + digit) else UInt8.ofNat (0x61 + (digit - 10))

def hex4 (first second third fourth : Byte) : Nat :=
  ((hexValue first * 16 + hexValue second) * 16 + hexValue third) * 16 + hexValue fourth

theorem hexValue_lt {byte : Byte} (digit : isHexDigit byte = true) : hexValue byte < 16 := by
  simp only [isHexDigit, Bool.or_eq_true, Bool.and_eq_true, decide_eq_true_eq] at digit
  unfold hexValue
  split
  · omega
  · split <;> omega

theorem hex4_le {first second third fourth : Byte} (firstDigit : isHexDigit first = true)
    (secondDigit : isHexDigit second = true) (thirdDigit : isHexDigit third = true)
    (fourthDigit : isHexDigit fourth = true) : hex4 first second third fourth ≤ 0xFFFF := by
  have firstLt := hexValue_lt firstDigit
  have secondLt := hexValue_lt secondDigit
  have thirdLt := hexValue_lt thirdDigit
  have fourthLt := hexValue_lt fourthDigit
  unfold hex4
  omega

theorem hexify_spec {digit : Nat} (small : digit < 16) :
    isHexDigit (hexify digit) = true ∧ hexValue (hexify digit) = digit := by
  have all : ∀ digit, digit < 16 →
      isHexDigit (hexify digit) = true ∧ hexValue (hexify digit) = digit := by decide
  exact all digit small

/-! ## Scanning -/

/-- Where the scanner stands inside a string token. -/
inductive ScanState where
  | text (state : Utf8State)
  | escape
  | hex (more : Nat)
deriving DecidableEq, Repr

/-- The letters after a backslash that stand for one byte. -/
def isEscapeLetter (byte : Byte) : Bool :=
  byte = quote || byte = backslash || byte = 0x2F || byte = 0x62 || byte = 0x66 ||
    byte = 0x6E || byte = 0x72 || byte = 0x74

/-- Behind a hexadecimal digit, with the number of digits still to come. -/
def ScanState.afterDigit : Nat → ScanState
  | 0 => .text .start
  | more + 1 => .hex more

/-- One byte of the token other than its closing quote. -/
def ScanState.next : ScanState → Byte → Option ScanState
  | .text .start, byte =>
      if byte = quote then none
      else if byte = backslash then some .escape
      else if byte.toNat < 0x20 then none
      else (Utf8State.start.step byte).map .text
  | .text state, byte => (state.step byte).map .text
  | .escape, byte =>
      if byte = letterU then some (.hex 3)
      else if isEscapeLetter byte then some (.text .start)
      else none
  | .hex more, byte =>
      if isHexDigit byte then some (afterDigit more) else none

/-- The bytes up to the closing quote and the bytes behind it; `none` where the
token is malformed. -/
def scanString : ScanState → Bytes → Option (Bytes × Bytes)
  | _, [] => none
  | state, byte :: rest =>
      if state = .text .start ∧ byte = quote then some ([], rest)
      else
        match state.next byte with
        | some next => (scanString next rest).map fun found => (byte :: found.1, found.2)
        | none => none

def scanRun : ScanState → Bytes → Option ScanState
  | state, [] => some state
  | state, byte :: rest =>
      match state.next byte with
      | some next => scanRun next rest
      | none => none

theorem scanRun_append (state : ScanState) (left right : Bytes) :
    scanRun state (left ++ right) = (scanRun state left).bind fun next => scanRun next right := by
  induction left generalizing state with
  | nil => rfl
  | cons byte rest inductionHypothesis =>
      simp only [List.cons_append, scanRun]
      cases state.next byte with
      | none => rfl
      | some next => exact inductionHypothesis next

/-- A closing quote is no byte of the token. -/
theorem next_start_quote : (ScanState.text .start).next quote = none := by decide

theorem scanString_of_scanRun {state : ScanState} {raw : Bytes} (rest : Bytes)
    (run : scanRun state raw = some (.text .start)) :
    scanString state (raw ++ quote :: rest) = some (raw, rest) := by
  induction raw generalizing state with
  | nil =>
      cases run
      simp [scanString]
  | cons byte tail inductionHypothesis =>
      simp only [scanRun] at run
      cases stepped : state.next byte with
      | none => simp [stepped] at run
      | some next =>
          rw [stepped] at run
          have open_ : ¬ (state = .text .start ∧ byte = quote) := by
            rintro ⟨rfl, rfl⟩
            rw [next_start_quote] at stepped
            contradiction
          simp [scanString, open_, stepped, inductionHypothesis run]

theorem scanRun_of_scanString {state : ScanState} {input raw rest : Bytes}
    (scanned : scanString state input = some (raw, rest)) :
    scanRun state raw = some (.text .start) ∧ input = raw ++ quote :: rest := by
  induction input generalizing state raw with
  | nil => simp [scanString] at scanned
  | cons byte tail inductionHypothesis =>
      unfold scanString at scanned
      split at scanned
      next closing =>
        cases scanned
        rw [closing.1, closing.2]
        exact ⟨rfl, rfl⟩
      next =>
        split at scanned
        next next stepped =>
          obtain ⟨⟨tailRaw, tailRest⟩, tailScanned, same⟩ := Option.map_eq_some_iff.mp scanned
          cases same
          obtain ⟨run, split⟩ := inductionHypothesis tailScanned
          refine ⟨?_, by rw [split]; rfl⟩
          simp only [scanRun, stepped]
          exact run
        next => contradiction

/-! ## Reading escapes -/

/-- UTF-8 of a code point; the sums are the source's disjoint bit patterns.
`none`, here and below, is a parse error. -/
def encodeCodepoint (codepoint : Nat) : Option Bytes :=
  if codepoint < 0x80 then
    some [UInt8.ofNat codepoint]
  else if codepoint ≤ 0x7FF then
    some [UInt8.ofNat (0xC0 + codepoint / 64), UInt8.ofNat (0x80 + codepoint % 64)]
  else if codepoint ≤ 0xFFFF then
    some [UInt8.ofNat (0xE0 + codepoint / 4096), UInt8.ofNat (0x80 + codepoint / 64 % 64),
      UInt8.ofNat (0x80 + codepoint % 64)]
  else if codepoint ≤ 0x10FFFF then
    some [UInt8.ofNat (0xF0 + codepoint / 262144), UInt8.ofNat (0x80 + codepoint / 4096 % 64),
      UInt8.ofNat (0x80 + codepoint / 64 % 64), UInt8.ofNat (0x80 + codepoint % 64)]
  else
    none

/-- `to_unicode`. -/
def toUnicode (codepoint1 codepoint2 : Nat) : Option Bytes :=
  if 0xD800 ≤ codepoint1 ∧ codepoint1 ≤ 0xDBFF then
    if 0xDC00 ≤ codepoint2 ∧ codepoint2 ≤ 0xDFFF then
      encodeCodepoint (codepoint1 * 1024 + codepoint2 - 0x35FDC00)
    else
      none
  else
    encodeCodepoint codepoint1

/-- The byte that an escape letter stands for. -/
def unescape (letter : Byte) : Bytes :=
  if letter = 0x74 then [0x09]
  else if letter = 0x62 then [0x08]
  else if letter = 0x66 then [0x0C]
  else if letter = 0x6E then [0x0A]
  else if letter = 0x72 then [0x0D]
  else if letter = backslash then [backslash]
  else if letter = 0x2F then [0x2F]
  else if letter = quote then [quote]
  else []

/-- `get_string`, on the bytes between the quotes of a token. A token has four
digits after every `\u`; without them the source would read past it. -/
def getString : Bytes → Option Bytes
  | [] => some []
  | byte :: rest =>
      if byte ≠ backslash then
        (getString rest).map (byte :: ·)
      else
        match rest with
        | [] => some []
        | letter :: rest =>
            if letter ≠ letterU then
              (getString rest).map (unescape letter ++ ·)
            else
              match rest with
              | h1 :: h2 :: h3 :: h4 :: rest =>
                  if 0xD800 ≤ hex4 h1 h2 h3 h4 ∧ hex4 h1 h2 h3 h4 ≤ 0xDBFF then
                    match rest with
                    | slash :: u :: l1 :: l2 :: l3 :: l4 :: rest =>
                        if slash = backslash ∧ u = letterU then do
                          let character ← toUnicode (hex4 h1 h2 h3 h4) (hex4 l1 l2 l3 l4)
                          (getString rest).map (character ++ ·)
                        else
                          none
                    | _ => none
                  else if 0xDC00 ≤ hex4 h1 h2 h3 h4 ∧ hex4 h1 h2 h3 h4 ≤ 0xDFFF then
                    none
                  else do
                    let character ← toUnicode (hex4 h1 h2 h3 h4) 0
                    (getString rest).map (character ++ ·)
              | _ => none

/-! ## Writing escapes -/

def escapeByte (byte : Byte) : Bytes :=
  if byte = quote then [backslash, quote]
  else if byte = backslash then [backslash, backslash]
  else if byte = 0x08 then [backslash, 0x62]
  else if byte = 0x0C then [backslash, 0x66]
  else if byte = 0x0A then [backslash, 0x6E]
  else if byte = 0x0D then [backslash, 0x72]
  else if byte = 0x09 then [backslash, 0x74]
  else if byte.toNat < 0x20 then
    [backslash, letterU, 0x30, 0x30, hexify (byte.toNat / 16), hexify (byte.toNat % 16)]
  else [byte]

/-- `dump_escaped`. -/
def dumpEscaped (text : Bytes) : Bytes := text.flatMap escapeByte

@[simp] theorem dumpEscaped_cons (byte : Byte) (rest : Bytes) :
    dumpEscaped (byte :: rest) = escapeByte byte ++ dumpEscaped rest := rfl

/-! ## Round trip -/

private theorem hex4_control {value : Nat} (control : value < 0x20) :
    hex4 0x30 0x30 (hexify (value / 16)) (hexify (value % 16)) = value := by
  have high := hexify_spec (show value / 16 < 16 by omega)
  have low := hexify_spec (show value % 16 < 16 by omega)
  unfold hex4
  rw [high.2, low.2]
  have zero : hexValue 0x30 = 0 := by decide
  rw [zero]
  omega

private theorem toUnicode_ascii {codepoint : Nat} (small : codepoint < 0x80) :
    toUnicode codepoint 0 = some [UInt8.ofNat codepoint] := by
  have notSurrogate : ¬ (0xD800 ≤ codepoint ∧ codepoint ≤ 0xDBFF) := by omega
  simp [toUnicode, notSurrogate, encodeCodepoint, small]

private theorem getString_plain {byte : Byte} (plain : byte ≠ backslash) (rest : Bytes) :
    getString (byte :: rest) = (getString rest).map (byte :: ·) := by
  conv => lhs; rw [getString.eq_def]
  simp [plain]

private theorem getString_letter {letter : Byte} (single : letter ≠ letterU) (rest : Bytes) :
    getString (backslash :: letter :: rest) = (getString rest).map (unescape letter ++ ·) := by
  conv => lhs; rw [getString.eq_def]
  simp [single]

private theorem getString_control {value : Nat} (control : value < 0x20) (rest : Bytes) :
    getString (backslash :: letterU :: 0x30 :: 0x30 :: hexify (value / 16) ::
      hexify (value % 16) :: rest) = (getString rest).map (UInt8.ofNat value :: ·) := by
  have notHigh : ¬ (0xD800 ≤ value ∧ value ≤ 0xDBFF) := by omega
  have notLow : ¬ (0xDC00 ≤ value ∧ value ≤ 0xDFFF) := by omega
  conv => lhs; rw [getString.eq_def]
  simp only [hex4_control control, notHigh, notLow, ne_eq, not_true_eq_false, if_false,
    toUnicode_ascii (show value < 0x80 by omega)]
  rfl

private theorem getString_escapeByte (byte : Byte) (rest : Bytes) :
    getString (escapeByte byte ++ rest) = (getString rest).map (byte :: ·) := by
  unfold escapeByte
  split
  next same => subst same; exact getString_letter (by decide) rest
  split
  next same => subst same; exact getString_letter (by decide) rest
  split
  next same => subst same; exact getString_letter (by decide) rest
  split
  next same => subst same; exact getString_letter (by decide) rest
  split
  next same => subst same; exact getString_letter (by decide) rest
  split
  next same => subst same; exact getString_letter (by decide) rest
  split
  next same => subst same; exact getString_letter (by decide) rest
  split
  next control =>
    have read := getString_control control rest
    rw [UInt8.ofNat_toNat] at read
    exact read
  next plain _ _ _ _ _ _ => exact getString_plain plain rest

/-- Reading the escapes gives back what was written. -/
theorem getString_dumpEscaped (text : Bytes) : getString (dumpEscaped text) = some text := by
  induction text with
  | nil => rfl
  | cons byte rest inductionHypothesis =>
      rw [dumpEscaped_cons, getString_escapeByte, inductionHypothesis]
      rfl

private theorem scanRun_escapeByte_start {byte : Byte} {next : Utf8State}
    (stepped : Utf8State.start.step byte = some next) :
    scanRun (.text .start) (escapeByte byte) = some (.text next) := by
  have ascii (small : byte.toNat < 0x80) : next = .start := by
    rw [step_ascii small] at stepped
    exact (Option.some.inj stepped).symm
  unfold escapeByte
  split
  next same => rw [ascii (by rw [same]; decide)]; decide
  split
  next same => rw [ascii (by rw [same]; decide)]; decide
  split
  next same => rw [ascii (by rw [same]; decide)]; decide
  split
  next same => rw [ascii (by rw [same]; decide)]; decide
  split
  next same => rw [ascii (by rw [same]; decide)]; decide
  split
  next same => rw [ascii (by rw [same]; decide)]; decide
  split
  next same => rw [ascii (by rw [same]; decide)]; decide
  split
  next control =>
    have high := (hexify_spec (show byte.toNat / 16 < 16 by omega)).1
    have low := (hexify_spec (show byte.toNat % 16 < 16 by omega)).1
    have opened : scanRun (.text .start) [backslash, letterU, 0x30, 0x30] = some (.hex 1) := by
      decide
    have digits : scanRun (.hex 1) [hexify (byte.toNat / 16), hexify (byte.toNat % 16)] =
        some (.text .start) := by
      simp [scanRun, ScanState.next, ScanState.afterDigit, high, low]
    rw [ascii (by omega)]
    exact (scanRun_append _ [backslash, letterU, 0x30, 0x30] _).trans (by rw [opened]; exact digits)
  next notQuote notBackslash _ _ _ _ _ printable =>
    simp [scanRun, ScanState.next, notQuote, notBackslash, printable, stepped]

private theorem escapeByte_of_ge {byte : Byte} (large : 0x80 ≤ byte.toNat) :
    escapeByte byte = [byte] := by
  have different (small : Byte) (isSmall : small.toNat < 0x80) : byte ≠ small := by
    rintro rfl
    omega
  have printable : ¬ byte.toNat < 0x20 := by omega
  simp [escapeByte, different 0x22 (by decide), different 0x5C (by decide),
    different 0x08 (by decide), different 0x0C (by decide), different 0x0A (by decide),
    different 0x0D (by decide), different 0x09 (by decide), printable]

private theorem scanRun_escapeByte {state next : Utf8State} {byte : Byte}
    (stepped : state.step byte = some next) :
    scanRun (.text state) (escapeByte byte) = some (.text next) := by
  by_cases atStart : state = .start
  · subst atStart
    exact scanRun_escapeByte_start stepped
  · have large : 0x80 ≤ byte.toNat := by
      by_contra small
      exact atStart (start_of_step_ascii (by omega) stepped)
    rw [escapeByte_of_ge large]
    cases state with
    | start => exact absurd rfl atStart
    | _ => simp [scanRun, ScanState.next, stepped]

/-- The scanner accepts what is written for a valid text. -/
theorem scanRun_dumpEscaped {state last : Utf8State} {text : Bytes}
    (run : utf8Run state text = some last) :
    scanRun (.text state) (dumpEscaped text) = some (.text last) := by
  induction text generalizing state with
  | nil =>
      cases run
      rfl
  | cons byte rest inductionHypothesis =>
      simp only [utf8Run] at run
      cases stepped : state.step byte with
      | none => simp [stepped] at run
      | some next =>
          rw [stepped] at run
          rw [dumpEscaped_cons, scanRun_append, scanRun_escapeByte stepped, Option.bind_some]
          exact inductionHypothesis run

theorem scanString_dumpEscaped {text : Bytes} (valid : ValidUtf8 text) (rest : Bytes) :
    scanString (.text .start) (dumpEscaped text ++ quote :: rest) =
      some (dumpEscaped text, rest) :=
  scanString_of_scanRun rest (scanRun_dumpEscaped valid)

/-! ## Validity of what is read -/

private theorem toNat_byte {value : Nat} (small : value < 256) :
    (UInt8.ofNat value).toNat = value := by
  rw [UInt8.toNat_ofNat']
  omega

private theorem within_byte {low high value : Nat} (next : Utf8State) (above : low ≤ value)
    (below : value ≤ high) (small : value < 256) :
    within low high (UInt8.ofNat value) next = some next := by
  rw [within, toNat_byte small, if_pos ⟨above, below⟩]

private theorem utf8Run_cons {state next : Utf8State} {byte : Byte} (rest : Bytes)
    (stepped : state.step byte = some next) : utf8Run state (byte :: rest) = utf8Run next rest := by
  rw [utf8Run, stepped]

/-- The tail bytes that `encodeCodepoint` writes. -/
private theorem within_tail (value : Nat) (next : Utf8State) :
    within 0x80 0xBF (UInt8.ofNat (0x80 + value % 64)) next = some next :=
  within_byte next (by omega) (by omega) (by omega)

private theorem validUtf8_two {codepoint : Nat} (low : 0x80 ≤ codepoint)
    (high : codepoint ≤ 0x7FF) :
    ValidUtf8 [UInt8.ofNat (0xC0 + codepoint / 64), UInt8.ofNat (0x80 + codepoint % 64)] := by
  have value := toNat_byte (show 0xC0 + codepoint / 64 < 256 by omega)
  have lead : Utf8State.start.step (UInt8.ofNat (0xC0 + codepoint / 64)) = some .tail1 := by
    grind [Utf8State.step]
  have second : Utf8State.tail1.step (UInt8.ofNat (0x80 + codepoint % 64)) = some .start :=
    within_tail codepoint .start
  exact (utf8Run_cons _ lead).trans (utf8Run_cons _ second)

private theorem validUtf8_three {codepoint : Nat} (low : 0x800 ≤ codepoint)
    (high : codepoint ≤ 0xFFFF) (scalar : ¬ (0xD800 ≤ codepoint ∧ codepoint ≤ 0xDFFF)) :
    ValidUtf8 [UInt8.ofNat (0xE0 + codepoint / 4096), UInt8.ofNat (0x80 + codepoint / 64 % 64),
      UInt8.ofNat (0x80 + codepoint % 64)] := by
  have value := toNat_byte (show 0xE0 + codepoint / 4096 < 256 by omega)
  have third : Utf8State.tail1.step (UInt8.ofNat (0x80 + codepoint % 64)) = some .start :=
    within_tail codepoint .start
  -- The lead byte alone decides how far the second byte may range.
  have tails (state : Utf8State)
      (lead : Utf8State.start.step (UInt8.ofNat (0xE0 + codepoint / 4096)) = some state)
      (second : state.step (UInt8.ofNat (0x80 + codepoint / 64 % 64)) = some .tail1) :
      ValidUtf8 [UInt8.ofNat (0xE0 + codepoint / 4096),
        UInt8.ofNat (0x80 + codepoint / 64 % 64), UInt8.ofNat (0x80 + codepoint % 64)] :=
    (utf8Run_cons _ lead).trans ((utf8Run_cons _ second).trans (utf8Run_cons _ third))
  by_cases shortest : codepoint / 4096 = 0
  · apply tails .afterE0
    · grind [Utf8State.step]
    · exact within_byte .tail1 (by omega) (by omega) (by omega)
  · by_cases surrogates : codepoint / 4096 = 13
    · apply tails .afterED
      · grind [Utf8State.step]
      · exact within_byte .tail1 (by omega) (by omega) (by omega)
    · apply tails .tail2
      · grind [Utf8State.step]
      · exact within_tail (codepoint / 64) .tail1

private theorem validUtf8_four {codepoint : Nat} (low : 0x10000 ≤ codepoint)
    (high : codepoint ≤ 0x10FFFF) :
    ValidUtf8 [UInt8.ofNat (0xF0 + codepoint / 262144),
      UInt8.ofNat (0x80 + codepoint / 4096 % 64), UInt8.ofNat (0x80 + codepoint / 64 % 64),
      UInt8.ofNat (0x80 + codepoint % 64)] := by
  have value := toNat_byte (show 0xF0 + codepoint / 262144 < 256 by omega)
  have third : Utf8State.tail2.step (UInt8.ofNat (0x80 + codepoint / 64 % 64)) = some .tail1 :=
    within_tail (codepoint / 64) .tail1
  have fourth : Utf8State.tail1.step (UInt8.ofNat (0x80 + codepoint % 64)) = some .start :=
    within_tail codepoint .start
  have tails (state : Utf8State)
      (lead : Utf8State.start.step (UInt8.ofNat (0xF0 + codepoint / 262144)) = some state)
      (second : state.step (UInt8.ofNat (0x80 + codepoint / 4096 % 64)) = some .tail2) :
      ValidUtf8 [UInt8.ofNat (0xF0 + codepoint / 262144),
        UInt8.ofNat (0x80 + codepoint / 4096 % 64), UInt8.ofNat (0x80 + codepoint / 64 % 64),
        UInt8.ofNat (0x80 + codepoint % 64)] :=
    (utf8Run_cons _ lead).trans
      ((utf8Run_cons _ second).trans ((utf8Run_cons _ third).trans (utf8Run_cons _ fourth)))
  by_cases shortest : codepoint / 262144 = 0
  · apply tails .afterF0
    · grind [Utf8State.step]
    · exact within_byte .tail2 (by omega) (by omega) (by omega)
  · by_cases last : codepoint / 262144 = 4
    · apply tails .afterF4
      · grind [Utf8State.step]
      · exact within_byte .tail2 (by omega) (by omega) (by omega)
    · apply tails .tail3
      · grind [Utf8State.step]
      · exact within_tail (codepoint / 4096) .tail2

/-- A code point that is no surrogate is written as one whole character. -/
theorem validUtf8_encodeCodepoint {codepoint : Nat} {character : Bytes}
    (scalar : ¬ (0xD800 ≤ codepoint ∧ codepoint ≤ 0xDFFF))
    (encoded : encodeCodepoint codepoint = some character) : ValidUtf8 character := by
  unfold encodeCodepoint at encoded
  split at encoded
  next single =>
    cases encoded
    apply validUtf8_of_ascii
    intro byte member
    rw [List.mem_singleton] at member
    rw [member, toNat_byte (by omega)]
    exact single
  split at encoded
  next single double =>
    cases encoded
    exact validUtf8_two (by omega) double
  split at encoded
  next double triple =>
    cases encoded
    exact validUtf8_three (by omega) triple scalar
  split at encoded
  next triple quadruple =>
    cases encoded
    exact validUtf8_four (by omega) quadruple
  next => contradiction

private theorem validUtf8_toUnicode {codepoint1 codepoint2 : Nat} {character : Bytes}
    (notLow : ¬ (0xDC00 ≤ codepoint1 ∧ codepoint1 ≤ 0xDFFF))
    (read : toUnicode codepoint1 codepoint2 = some character) : ValidUtf8 character := by
  unfold toUnicode at read
  split at read
  next high =>
    split at read
    next low => exact validUtf8_encodeCodepoint (by omega) read
    next => contradiction
  next notHigh => exact validUtf8_encodeCodepoint (by omega) read

private theorem scanRun_cons {state last : ScanState} {byte : Byte} {rest : Bytes}
    (run : scanRun state (byte :: rest) = some last) :
    ∃ next, state.next byte = some next ∧ scanRun next rest = some last := by
  rw [scanRun] at run
  cases stepped : state.next byte with
  | none => simp [stepped] at run
  | some next =>
      rw [stepped] at run
      exact ⟨next, rfl, run⟩

private theorem next_text_plain {state : Utf8State} {byte : Byte} {next : ScanState}
    (plain : byte ≠ backslash) (stepped : (ScanState.text state).next byte = some next) :
    ∃ after, state.step byte = some after ∧ next = .text after := by
  have mapped : (state.step byte).map ScanState.text = some next := by
    cases state with
    | start =>
        simp only [ScanState.next, if_neg plain] at stepped
        split at stepped
        · contradiction
        · split at stepped
          · contradiction
          · exact stepped
    | _ => exact stepped
  obtain ⟨after, found, same⟩ := Option.map_eq_some_iff.mp mapped
  exact ⟨after, found, same.symm⟩

private theorem next_text_backslash {state : Utf8State} {next : ScanState}
    (stepped : (ScanState.text state).next backslash = some next) :
    state = .start ∧ next = .escape := by
  cases state with
  | start =>
      have escapes : (ScanState.text .start).next backslash = some .escape := by decide
      rw [escapes] at stepped
      exact ⟨rfl, (Option.some.inj stepped).symm⟩
  | _ => simp [ScanState.next, Utf8State.step, within, backslash] at stepped

private theorem utf8Run_unescape {letter : Byte} (known : isEscapeLetter letter = true) :
    ValidUtf8 (unescape letter) := by
  simp only [isEscapeLetter, Bool.or_eq_true, decide_eq_true_eq] at known
  rcases known with ((((((rfl | rfl) | rfl) | rfl) | rfl) | rfl) | rfl) | rfl <;> decide

/-- Four hexadecimal digits lead back into the text. -/
private theorem scanRun_digits {h1 h2 h3 h4 : Byte} {rest : Bytes} {last : ScanState}
    (run : scanRun (.hex 3) (h1 :: h2 :: h3 :: h4 :: rest) = some last) :
    hex4 h1 h2 h3 h4 ≤ 0xFFFF ∧ scanRun (.text .start) rest = some last := by
  have digit {more : Nat} {byte : Byte} {next : ScanState}
      (stepped : (ScanState.hex more).next byte = some next) : isHexDigit byte = true ∧
        next = .afterDigit more := by
    simp only [ScanState.next] at stepped
    split at stepped
    next known => exact ⟨known, (Option.some.inj stepped).symm⟩
    next => contradiction
  obtain ⟨state1, step1, run1⟩ := scanRun_cons run
  obtain ⟨digit1, rfl⟩ := digit step1
  obtain ⟨state2, step2, run2⟩ := scanRun_cons run1
  obtain ⟨digit2, rfl⟩ := digit step2
  obtain ⟨state3, step3, run3⟩ := scanRun_cons run2
  obtain ⟨digit3, rfl⟩ := digit step3
  obtain ⟨state4, step4, run4⟩ := scanRun_cons run3
  obtain ⟨digit4, rfl⟩ := digit step4
  exact ⟨hex4_le digit1 digit2 digit3 digit4, run4⟩

/-- What follows a backslash in the text. -/
private theorem scanRun_backslash {state : Utf8State} {letter : Byte} {rest : Bytes}
    {last : ScanState} (run : scanRun (.text state) (backslash :: letter :: rest) = some last) :
    state = .start ∧
      (letter = letterU → scanRun (.hex 3) rest = some last) ∧
      (letter ≠ letterU → isEscapeLetter letter = true ∧
        scanRun (.text .start) rest = some last) := by
  obtain ⟨next, stepped, ran⟩ := scanRun_cons run
  obtain ⟨rfl, rfl⟩ := next_text_backslash stepped
  obtain ⟨after, steppedLetter, remaining⟩ := scanRun_cons ran
  refine ⟨rfl, ?_, ?_⟩
  · rintro rfl
    have digits : ScanState.escape.next letterU = some (.hex 3) := by decide
    rw [digits] at steppedLetter
    rw [Option.some.inj steppedLetter]
    exact remaining
  · intro single
    simp only [ScanState.next, if_neg single] at steppedLetter
    split at steppedLetter
    next known =>
      cases steppedLetter
      exact ⟨known, remaining⟩
    next => contradiction

private theorem bind_some {value : Bytes} {read tail : Option Bytes}
    (bound : (do let character ← read; tail.map (character ++ ·)) = some value) :
    ∃ character inner, read = some character ∧ tail = some inner ∧ value = character ++ inner := by
  obtain ⟨character, found, mapped⟩ := Option.bind_eq_some_iff.mp bound
  obtain ⟨inner, tailFound, same⟩ := Option.map_eq_some_iff.mp mapped
  exact ⟨character, inner, found, tailFound, same.symm⟩

private theorem utf8Run_character {character rest : Bytes} (whole : ValidUtf8 character)
    (valid : utf8Run .start rest = some .start) :
    utf8Run .start (character ++ rest) = some .start := by
  rw [utf8Run_append, whole]
  exact valid

/-- A string that the scanner accepts is read as whole characters. -/
theorem utf8Run_getString {state : Utf8State} {raw value : Bytes}
    (run : scanRun (.text state) raw = some (.text .start)) (read : getString raw = some value) :
    utf8Run state value = some .start := by
  induction raw using getString.induct generalizing state value with
  | case1 =>
      cases run
      cases read
      rfl
  | case2 byte rest plain inductionHypothesis =>
      obtain ⟨next, stepped, ran⟩ := scanRun_cons run
      obtain ⟨after, utf8Stepped, rfl⟩ := next_text_plain plain stepped
      rw [getString_plain plain] at read
      obtain ⟨inner, found, rfl⟩ := Option.map_eq_some_iff.mp read
      rw [utf8Run_cons _ utf8Stepped]
      exact inductionHypothesis ran found
  | case3 byte slash =>
      obtain rfl : byte = backslash := not_not.mp slash
      obtain ⟨next, stepped, ran⟩ := scanRun_cons run
      obtain ⟨rfl, rfl⟩ := next_text_backslash stepped
      contradiction
  | case4 byte slash letter rest single inductionHypothesis =>
      obtain rfl : byte = backslash := not_not.mp slash
      obtain ⟨rfl, _, escaped⟩ := scanRun_backslash run
      obtain ⟨known, ran⟩ := escaped single
      rw [getString_letter single] at read
      obtain ⟨inner, found, rfl⟩ := Option.map_eq_some_iff.mp read
      exact utf8Run_character (utf8Run_unescape known) (inductionHypothesis ran found)
  | case5 byte slash letter unicode h1 h2 h3 h4 high slash2 u l1 l2 l3 l4 rest pair
      inductionHypothesis =>
      obtain rfl : byte = backslash := not_not.mp slash
      obtain rfl : letter = letterU := not_not.mp unicode
      obtain ⟨rfl, digits, _⟩ := scanRun_backslash run
      obtain ⟨_, ran⟩ := scanRun_digits (digits rfl)
      rw [pair.1, pair.2] at ran
      obtain ⟨_, lowDigits, _⟩ := scanRun_backslash ran
      obtain ⟨_, remaining⟩ := scanRun_digits (lowDigits rfl)
      rw [getString.eq_def] at read
      simp only [ne_eq, not_true_eq_false, if_false, if_pos high, if_pos pair] at read
      obtain ⟨character, inner, written, found, rfl⟩ := bind_some read
      exact utf8Run_character (validUtf8_toUnicode (by omega) written)
        (inductionHypothesis remaining found)
  | case9 byte slash letter unicode h1 h2 h3 h4 rest notHigh notLow inductionHypothesis =>
      obtain rfl : byte = backslash := not_not.mp slash
      obtain rfl : letter = letterU := not_not.mp unicode
      obtain ⟨rfl, digits, _⟩ := scanRun_backslash run
      obtain ⟨_, ran⟩ := scanRun_digits (digits rfl)
      rw [getString.eq_def] at read
      simp only [ne_eq, not_true_eq_false, if_false, if_neg notHigh, if_neg notLow] at read
      obtain ⟨character, inner, written, found, rfl⟩ := bind_some read
      exact utf8Run_character (validUtf8_toUnicode notLow written)
        (inductionHypothesis ran found)
  | case6 byte slash letter unicode h1 h2 h3 h4 high slash2 u l1 l2 l3 l4 rest noPair =>
      rw [getString.eq_def] at read
      simp [slash, unicode, high, noPair] at read
  | case7 byte slash letter unicode h1 h2 h3 h4 rest high short =>
      rw [getString.eq_def] at read
      simp [slash, unicode, high] at read
  | case8 byte slash letter unicode h1 h2 h3 h4 rest notHigh low =>
      rw [getString.eq_def] at read
      simp only [slash, unicode, notHigh, low, if_false] at read
      simp at read
  | case10 byte slash letter rest unicode short =>
      rw [getString.eq_def] at read
      simp [slash, unicode] at read

/-! ## Lengths -/

private theorem length_unescape_le (letter : Byte) : (unescape letter).length ≤ 1 := by
  unfold unescape
  repeat' split
  all_goals simp

private theorem length_encodeCodepoint_le {codepoint : Nat} {character : Bytes}
    (written : encodeCodepoint codepoint = some character) : character.length ≤ 4 := by
  unfold encodeCodepoint at written
  split at written
  · cases written
    simp
  split at written
  · cases written
    simp
  split at written
  · cases written
    simp
  split at written
  · cases written
    simp
  · contradiction

private theorem length_toUnicode_le {codepoint1 codepoint2 : Nat} {character : Bytes}
    (written : toUnicode codepoint1 codepoint2 = some character) : character.length ≤ 4 := by
  unfold toUnicode at written
  split at written
  · split at written
    · exact length_encodeCodepoint_le written
    · contradiction
  · exact length_encodeCodepoint_le written

/-- No escape is shorter than what it stands for. -/
theorem length_getString_le {raw value : Bytes} (read : getString raw = some value) :
    value.length ≤ raw.length := by
  induction raw using getString.induct generalizing value with
  | case1 =>
      cases read
      exact Nat.le_refl _
  | case2 byte rest plain inductionHypothesis =>
      rw [getString_plain plain] at read
      obtain ⟨inner, found, rfl⟩ := Option.map_eq_some_iff.mp read
      exact Nat.succ_le_succ (inductionHypothesis found)
  | case3 byte slash =>
      rw [getString.eq_def] at read
      simp only [slash, if_false] at read
      cases read
      exact Nat.zero_le _
  | case4 byte slash letter rest single inductionHypothesis =>
      obtain rfl : byte = backslash := not_not.mp slash
      rw [getString_letter single] at read
      obtain ⟨inner, found, rfl⟩ := Option.map_eq_some_iff.mp read
      have one := length_unescape_le letter
      have rest := inductionHypothesis found
      simp only [List.length_append, List.length_cons]
      omega
  | case5 byte slash letter unicode h1 h2 h3 h4 high slash2 u l1 l2 l3 l4 rest pair
      inductionHypothesis =>
      rw [getString.eq_def] at read
      simp only [slash, unicode, if_false, if_pos high, if_pos pair] at read
      obtain ⟨character, inner, written, found, rfl⟩ := bind_some read
      have four := length_toUnicode_le written
      have rest := inductionHypothesis found
      simp only [List.length_append, List.length_cons]
      omega
  | case9 byte slash letter unicode h1 h2 h3 h4 rest notHigh notLow inductionHypothesis =>
      rw [getString.eq_def] at read
      simp only [slash, unicode, if_false, if_neg notHigh, if_neg notLow] at read
      obtain ⟨character, inner, written, found, rfl⟩ := bind_some read
      have four := length_toUnicode_le written
      have rest := inductionHypothesis found
      simp only [List.length_append, List.length_cons]
      omega
  | case6 byte slash letter unicode h1 h2 h3 h4 high slash2 u l1 l2 l3 l4 rest noPair =>
      rw [getString.eq_def] at read
      simp [slash, unicode, high, noPair] at read
  | case7 byte slash letter unicode h1 h2 h3 h4 rest high short =>
      rw [getString.eq_def] at read
      simp [slash, unicode, high] at read
  | case8 byte slash letter unicode h1 h2 h3 h4 rest notHigh low =>
      rw [getString.eq_def] at read
      simp only [slash, unicode, notHigh, low, if_false] at read
      simp at read
  | case10 byte slash letter rest unicode short =>
      rw [getString.eq_def] at read
      simp [slash, unicode] at read

/-- No byte is written as more than six. -/
theorem length_escapeByte_le (byte : Byte) : (escapeByte byte).length ≤ 6 := by
  unfold escapeByte
  repeat' split
  all_goals simp

/-- Every byte is written as one at least. -/
theorem length_le_dumpEscaped (text : Bytes) : text.length ≤ (dumpEscaped text).length := by
  induction text with
  | nil => exact Nat.le_refl _
  | cons byte rest inductionHypothesis =>
      have one : 1 ≤ (escapeByte byte).length := by
        unfold escapeByte
        repeat' split
        all_goals simp
      rw [dumpEscaped_cons, List.length_append, List.length_cons]
      omega

theorem length_dumpEscaped_le (text : Bytes) : (dumpEscaped text).length ≤ 6 * text.length := by
  induction text with
  | nil => exact Nat.le_refl _
  | cons byte rest inductionHypothesis =>
      have six := length_escapeByte_le byte
      rw [dumpEscaped_cons, List.length_append, List.length_cons]
      omega

end Torchat.Json
