import Torchat.Proxy.HttpProxy

/-!
Contract: the base 64 of the program, with line breaks in `base64.c` and without them in
`make_base64_string`, and the decoder that takes both.

Owns the text without line breaks, to which both encoders are compared, the room that the
longer text takes, and the bytes on which `make_base64_string` leaves its table.

Does not own memory that cannot be allocated.
-/

set_option autoImplicit false

namespace Torchat.Proxy

open Torchat.Foundation
open Torchat.Daemon (Fault)

abbrev padding : Byte := 0x3D

/-! ## Encoding and decoding -/

/-- The four characters of three bytes. -/
def encodeGroup (first second third : Byte) : Bytes :=
  [base64Digit (first.toNat >>> 2),
    base64Digit ((first.toNat &&& 0x03) <<< 4 ||| second.toNat >>> 4),
    base64Digit ((second.toNat &&& 0x0F) <<< 2 ||| third.toNat >>> 6),
    base64Digit (third.toNat &&& 0x3F)]

/-- What `base64_encode` writes; `lineLen` characters stand in the line. -/
def encodeLoop : Nat → Bytes → Bytes
  | lineLen, [] => if lineLen = 0 then [] else [lineFeed]
  | _, [first] =>
      [base64Digit (first.toNat >>> 2), base64Digit ((first.toNat &&& 0x03) <<< 4), padding,
        padding, lineFeed]
  | _, [first, second] =>
      [base64Digit (first.toNat >>> 2),
        base64Digit ((first.toNat &&& 0x03) <<< 4 ||| second.toNat >>> 4),
        base64Digit ((second.toNat &&& 0x0F) <<< 2), padding, lineFeed]
  | lineLen, first :: second :: third :: rest =>
      encodeGroup first second third ++
        if 72 ≤ lineLen + 4 then lineFeed :: encodeLoop 0 rest else encodeLoop (lineLen + 4) rest

/-- The size of the block of `base64_encode`. Only the product overflows. -/
def encodeSize (len : Nat) : Nat :=
  let olen := len * 4 % 2 ^ 64 / 3 + 4
  olen + olen / 72 + 1

/-- `base64_encode`; `none` where the size has overflowed. -/
def base64Encode (src : Bytes) : Except Fault (Option Bytes) :=
  if encodeSize src.length < src.length then .ok none
  else if encodeSize src.length < (encodeLoop 0 src).length + 1 then .error .outOfBounds
  else .ok (some (encodeLoop 0 src))

/-- `dtable`. -/
def base64Value (byte : Byte) : Option Nat :=
  if byte = padding then some 0 else base64Alphabet.idxOf? byte

/-- The loop of `base64_decode` over the bytes, with the block, the padding and the output. -/
def decodeLoop : Bytes → List Nat → Nat → Bytes → Option Bytes
  | [], _, _, out => some out
  | byte :: rest, block, pad, out =>
      match base64Value byte with
      | none => decodeLoop rest block pad out
      | some tmp =>
          let pad := if byte = padding then pad + 1 else pad
          match block with
          | [first, second, third] =>
              let out := out ++ [UInt8.ofNat (first <<< 2 ||| second >>> 4),
                UInt8.ofNat (second <<< 4 ||| third >>> 2), UInt8.ofNat (third <<< 6 ||| tmp)]
              if pad = 0 then decodeLoop rest [] 0 out
              else if pad = 1 then some (out.take (out.length - 1))
              else if pad = 2 then some (out.take (out.length - 2))
              else none
          | block => decodeLoop rest (block ++ [tmp]) pad out

/-- `base64_decode`; `none` where it returns NULL. -/
def base64Decode (src : Bytes) : Option Bytes :=
  let count := (src.filter fun byte => (base64Value byte).isSome).length
  if count = 0 ∨ count % 4 ≠ 0 then none else decodeLoop src [] 0 []

/-! ## The text without line breaks -/

def base64Text : Bytes → Bytes
  | [] => []
  | [first] => [base64Digit (first.toNat >>> 2), base64Digit ((first.toNat &&& 0x03) <<< 4),
      padding, padding]
  | [first, second] => [base64Digit (first.toNat >>> 2),
      base64Digit ((first.toNat &&& 0x03) <<< 4 ||| second.toNat >>> 4),
      base64Digit ((second.toNat &&& 0x0F) <<< 2), padding]
  | first :: second :: third :: rest => encodeGroup first second third ++ base64Text rest

section Digits

/-- The digits are read as their values, and none of them is the padding. -/
theorem base64Value_digit {index : Nat} (small : index < 64) :
    base64Value (base64Digit index) = some index ∧ base64Digit index ≠ padding := by
  revert small
  revert index
  decide +kernel

theorem base64Value_padding : base64Value padding = some 0 := rfl

theorem base64Value_lineFeed : base64Value lineFeed = none := by decide +kernel

private theorem or_shift (high low count : Nat) (below : low < 2 ^ count) :
    high <<< count ||| low = high * 2 ^ count + low := by
  rw [← Nat.shiftLeft_add_eq_or_of_lt below, Nat.shiftLeft_eq]

variable (first second third : Byte)

private theorem high_lt : first.toNat >>> 2 < 64 := by
  have byte := first.toNat_lt
  rw [Nat.shiftRight_eq_div_pow]
  omega

private theorem middle_eq :
    (first.toNat &&& 0x03) <<< 4 ||| second.toNat >>> 4 =
      first.toNat % 4 * 16 + second.toNat / 16 := by
  have byte := second.toNat_lt
  have masked : first.toNat &&& 0x03 = first.toNat % 4 := Nat.and_two_pow_sub_one_eq_mod _ 2
  rw [masked, Nat.shiftRight_eq_div_pow, or_shift _ _ 4 (by omega)]
  rfl

private theorem last_eq :
    (second.toNat &&& 0x0F) <<< 2 ||| third.toNat >>> 6 =
      second.toNat % 16 * 4 + third.toNat / 64 := by
  have byte := third.toNat_lt
  have masked : second.toNat &&& 0x0F = second.toNat % 16 := Nat.and_two_pow_sub_one_eq_mod _ 4
  rw [masked, Nat.shiftRight_eq_div_pow, or_shift _ _ 2 (by omega)]
  rfl

private theorem low_eq : third.toNat &&& 0x3F = third.toNat % 64 :=
  Nat.and_two_pow_sub_one_eq_mod _ 6

private theorem onlyMiddle_eq :
    (first.toNat &&& 0x03) <<< 4 = first.toNat % 4 * 16 + 0 := by
  have masked : first.toNat &&& 0x03 = first.toNat % 4 := Nat.and_two_pow_sub_one_eq_mod _ 2
  rw [masked, Nat.shiftLeft_eq]
  rfl

private theorem onlyLast_eq :
    (second.toNat &&& 0x0F) <<< 2 = second.toNat % 16 * 4 + 0 := by
  have masked : second.toNat &&& 0x0F = second.toNat % 16 := Nat.and_two_pow_sub_one_eq_mod _ 4
  rw [masked, Nat.shiftLeft_eq]
  rfl

private theorem ofNat_eq {number : Nat} {byte : Byte} (same : number % 256 = byte.toNat) :
    UInt8.ofNat number = byte :=
  UInt8.toNat_inj.mp (by rw [UInt8.toNat_ofNat']; exact same)

/-! ### Decoding a group -/

/-- The first byte of a block. -/
private theorem first_of_digits (low : Nat) (below : low < 16) :
    UInt8.ofNat (first.toNat >>> 2 <<< 2 ||| (first.toNat % 4 * 16 + low) >>> 4) = first := by
  have byte := first.toNat_lt
  rw [Nat.shiftRight_eq_div_pow, Nat.shiftRight_eq_div_pow, or_shift _ _ 2 (by omega)]
  exact ofNat_eq (by omega)

private theorem second_of_digits (high low : Nat) (below : low < 4) :
    UInt8.ofNat ((high * 16 + second.toNat / 16) <<< 4 ||| (second.toNat % 16 * 4 + low) >>> 2) =
      second := by
  have byte := second.toNat_lt
  rw [Nat.shiftRight_eq_div_pow, or_shift _ _ 4 (by omega)]
  exact ofNat_eq (by omega)

private theorem third_of_digits (high : Nat) :
    UInt8.ofNat ((high * 4 + third.toNat / 64) <<< 6 ||| third.toNat % 64) = third := by
  have byte := third.toNat_lt
  rw [or_shift _ _ 6 (by omega)]
  exact ofNat_eq (by omega)

private theorem decodeLoop_digit {index : Nat} (small : index < 64) (rest : Bytes)
    (block : List Nat) (short : block.length < 3) (pad : Nat) (out : Bytes) :
    decodeLoop (base64Digit index :: rest) block pad out =
      decodeLoop rest (block ++ [index]) pad out := by
  obtain ⟨value, notPadding⟩ := base64Value_digit small
  rw [decodeLoop, value]
  simp only [if_neg notPadding]
  split
  · simp at short
  · rfl

private theorem decodeLoop_group (rest out : Bytes) :
    decodeLoop (encodeGroup first second third ++ rest) [] 0 out =
      decodeLoop rest [] 0 (out ++ [first, second, third]) := by
  have firstByte := first.toNat_lt
  have secondByte := second.toNat_lt
  have thirdByte := third.toNat_lt
  rw [encodeGroup, middle_eq, last_eq, low_eq]
  show decodeLoop (_ :: _ :: _ :: _ :: rest) [] 0 out = _
  rw [decodeLoop_digit (high_lt first) _ _ (by simp), decodeLoop_digit (by omega) _ _ (by simp),
    decodeLoop_digit (by omega) _ _ (by simp)]
  have small : third.toNat % 64 < 64 := Nat.mod_lt _ (by decide)
  obtain ⟨value, notPadding⟩ := base64Value_digit small
  rw [decodeLoop, value]
  simp only [if_neg notPadding, List.nil_append, List.cons_append, if_true]
  rw [first_of_digits first _ (by omega), second_of_digits second _ _ (by omega), third_of_digits]

private theorem take_front (out kept dropped : Bytes) :
    (out ++ (kept ++ dropped)).take ((out ++ (kept ++ dropped)).length - dropped.length) =
      out ++ kept := by
  rw [← List.append_assoc]
  exact List.take_left' (by simp [Nat.add_sub_assoc])

private theorem decodeLoop_one (out : Bytes) :
    decodeLoop (base64Text [first]) [] 0 out = some (out ++ [first]) := by
  rw [base64Text, onlyMiddle_eq, decodeLoop_digit (high_lt first) _ _ (by simp),
    decodeLoop_digit (by omega) _ _ (by simp)]
  simp only [decodeLoop, base64Value_padding, if_true, List.nil_append, List.cons_append]
  rw [first_of_digits first 0 (by decide)]
  exact congrArg some (take_front out [first] [_, _])

private theorem decodeLoop_two (out : Bytes) :
    decodeLoop (base64Text [first, second]) [] 0 out = some (out ++ [first, second]) := by
  have firstByte := first.toNat_lt
  have secondByte := second.toNat_lt
  rw [base64Text, middle_eq, onlyLast_eq, decodeLoop_digit (high_lt first) _ _ (by simp),
    decodeLoop_digit (by omega) _ _ (by simp), decodeLoop_digit (by omega) _ _ (by simp)]
  simp only [decodeLoop, base64Value_padding, if_true, List.nil_append, List.cons_append]
  rw [first_of_digits first _ (by omega), second_of_digits second _ 0 (by decide)]
  exact congrArg some (take_front out [first, second] [_])

/-- The text of some bytes is read as those bytes. -/
theorem decodeLoop_text (src out : Bytes) :
    decodeLoop (base64Text src) [] 0 out = some (out ++ src) := by
  induction src using base64Text.induct generalizing out with
  | case1 => simp [base64Text, decodeLoop]
  | case2 first => exact decodeLoop_one first out
  | case3 first second => exact decodeLoop_two first second out
  | case4 first second third rest inductionHypothesis =>
      rw [base64Text, decodeLoop_group, inductionHypothesis, List.append_assoc]
      rfl

end Digits

/-! ## Foreign bytes -/

/-- The decoder skips what is neither a digit nor padding. -/
theorem decodeLoop_filter (src : Bytes) (block : List Nat) (pad : Nat) (out : Bytes) :
    decodeLoop (src.filter fun byte => (base64Value byte).isSome) block pad out =
      decodeLoop src block pad out := by
  induction src generalizing block pad out with
  | nil => rfl
  | cons byte rest inductionHypothesis =>
      cases value : base64Value byte with
      | none =>
          rw [List.filter_cons_of_neg (by simp [value]), inductionHypothesis]
          simp only [decodeLoop, value]
      | some tmp =>
          rw [List.filter_cons_of_pos (by simp [value])]
          simp only [decodeLoop, value, inductionHypothesis]

private theorem isSome_digit {index : Nat} (small : index < 64) :
    (base64Value (base64Digit index)).isSome = true := by
  rw [(base64Value_digit small).1]
  rfl

private theorem isSome_of_mem_group {byte first second third : Byte}
    (member : byte ∈ encodeGroup first second third) : (base64Value byte).isSome = true := by
  have firstByte := first.toNat_lt
  have secondByte := second.toNat_lt
  have thirdByte := third.toNat_lt
  rw [encodeGroup, middle_eq, last_eq, low_eq] at member
  simp only [List.mem_cons, List.not_mem_nil, or_false] at member
  rcases member with rfl | rfl | rfl | rfl
  · exact isSome_digit (high_lt first)
  all_goals exact isSome_digit (by omega)

/-- All of the text is digits and padding. -/
theorem isSome_of_mem_text {byte : Byte} {src : Bytes} (member : byte ∈ base64Text src) :
    (base64Value byte).isSome = true := by
  induction src using base64Text.induct with
  | case1 => contradiction
  | case2 first =>
      rw [base64Text, onlyMiddle_eq] at member
      simp only [List.mem_cons, List.not_mem_nil, or_false] at member
      rcases member with rfl | rfl | rfl | rfl
      · exact isSome_digit (high_lt first)
      · exact isSome_digit (by omega)
      all_goals rfl
  | case3 first second =>
      have secondByte := second.toNat_lt
      rw [base64Text, middle_eq, onlyLast_eq] at member
      simp only [List.mem_cons, List.not_mem_nil, or_false] at member
      rcases member with rfl | rfl | rfl | rfl
      · exact isSome_digit (high_lt first)
      · exact isSome_digit (by omega)
      · exact isSome_digit (by omega)
      · rfl
  | case4 first second third rest inductionHypothesis =>
      rw [base64Text] at member
      rcases List.mem_append.mp member with here | later
      · exact isSome_of_mem_group here
      · exact inductionHypothesis later

private theorem filter_text (src : Bytes) :
    (base64Text src).filter (fun byte => (base64Value byte).isSome) = base64Text src :=
  List.filter_eq_self.mpr fun _ member => isSome_of_mem_text member

/-- The line breaks are all that `base64_encode` adds. -/
private theorem filter_encodeLoop (lineLen : Nat) (src : Bytes) :
    (encodeLoop lineLen src).filter (fun byte => (base64Value byte).isSome) = base64Text src := by
  have breaks : ∀ text : Bytes, (lineFeed :: text).filter (fun byte => (base64Value byte).isSome) =
      text.filter fun byte => (base64Value byte).isSome := fun text =>
    List.filter_cons_of_neg (by rw [base64Value_lineFeed]; exact Bool.false_ne_true)
  induction src using base64Text.induct generalizing lineLen with
  | case1 =>
      rw [encodeLoop, base64Text]
      split
      · rfl
      · rw [breaks, List.filter_nil]
  | case2 first =>
      rw [encodeLoop, ← filter_text, base64Text]
      show ([_, _, _, _] ++ [lineFeed]).filter _ = _
      rw [List.filter_append, breaks, List.filter_nil, List.append_nil]
  | case3 first second =>
      rw [encodeLoop, ← filter_text, base64Text]
      show ([_, _, _, _] ++ [lineFeed]).filter _ = _
      rw [List.filter_append, breaks, List.filter_nil, List.append_nil]
  | case4 first second third rest inductionHypothesis =>
      have group : (encodeGroup first second third).filter
          (fun byte => (base64Value byte).isSome) = encodeGroup first second third :=
        List.filter_eq_self.mpr fun _ member => isSome_of_mem_group member
      rw [encodeLoop, List.filter_append, group, base64Text]
      split
      · rw [breaks, inductionHypothesis]
      · rw [inductionHypothesis]

private theorem length_text (src : Bytes) : (base64Text src).length = (src.length + 2) / 3 * 4 := by
  induction src using base64Text.induct with
  | case1 => rw [base64Text, List.length_nil]
  | case2 first => simp only [base64Text, List.length_cons, List.length_nil]
  | case3 first second => simp only [base64Text, List.length_cons, List.length_nil]
  | case4 first second third rest inductionHypothesis =>
      rw [base64Text, List.length_append, inductionHypothesis]
      simp only [encodeGroup, List.length_cons, List.length_nil]
      omega

/-- The decoder takes every text that has the digits of some bytes in their order. -/
theorem base64Decode_of_filter {text src : Bytes} (nonempty : src ≠ [])
    (digits : text.filter (fun byte => (base64Value byte).isSome) = base64Text src) :
    base64Decode text = some src := by
  have positive := List.length_pos_iff.mpr nonempty
  have length := length_text src
  simp only [base64Decode]
  rw [digits, length, if_neg (by omega), ← decodeLoop_filter, digits, decodeLoop_text,
    List.nil_append]

/-! ## The room for the longer text -/

/-- A line break behind every 72 characters, and one behind the rest. -/
private theorem length_encodeLoop (lineLen : Nat) (src : Bytes) (inLine : lineLen < 72)
    (groups : lineLen % 4 = 0) :
    (encodeLoop lineLen src).length =
      (base64Text src).length + (lineLen + (base64Text src).length + 71) / 72 := by
  induction src using base64Text.induct generalizing lineLen with
  | case1 =>
      rw [encodeLoop, base64Text]
      split <;> simp only [List.length_cons, List.length_nil] <;> omega
  | case2 first =>
      simp only [encodeLoop, base64Text, List.length_cons, List.length_nil]
      omega
  | case3 first second =>
      simp only [encodeLoop, base64Text, List.length_cons, List.length_nil]
      omega
  | case4 first second third rest inductionHypothesis =>
      simp only [encodeLoop, base64Text, List.length_append, encodeGroup, List.length_cons,
        List.length_nil]
      split
      · rw [List.length_cons, inductionHypothesis 0 (by decide) rfl]
        omega
      · rw [inductionHypothesis (lineLen + 4) (by omega) (by omega)]
        omega

/-- The block of `base64_encode` has room for the text and its terminator. -/
private theorem length_lt_encodeSize {src : Bytes} (small : src.length < 2 ^ 62) :
    (encodeLoop 0 src).length + 1 ≤ encodeSize src.length := by
  rw [length_encodeLoop 0 src (by decide) rfl, length_text]
  simp only [encodeSize]
  omega

/-- `base64_encode` never writes behind its block, whatever it is given. It refuses exactly
the lengths whose product by four overflows, and what it writes for all others is decoded
by `base64_decode` to what it was given; only nothing at all is refused by the decoder. -/
theorem base64Decode_base64Encode (src : Bytes) (addressable : src.length < 2 ^ 64) :
    (base64Encode src = .ok none ↔ 2 ^ 62 ≤ src.length) ∧
      (src.length < 2 ^ 62 → ∃ out, base64Encode src = .ok (some out) ∧
        base64Decode out = if src = [] then none else some src) := by
  have overflows : encodeSize src.length < src.length ↔ 2 ^ 62 ≤ src.length := by
    simp only [encodeSize]
    omega
  have encoded : src.length < 2 ^ 62 → base64Encode src = .ok (some (encodeLoop 0 src)) := by
    intro small
    rw [base64Encode, if_neg (fun tooLong => Nat.not_le_of_lt small (overflows.mp tooLong)),
      if_neg (Nat.not_lt.mpr (length_lt_encodeSize small))]
  refine ⟨⟨fun refused => ?_, fun large => ?_⟩, fun small => ⟨_, encoded small, ?_⟩⟩
  · by_contra notLarge
    rw [encoded (Nat.lt_of_not_le notLarge)] at refused
    cases refused
  · rw [base64Encode, if_pos (overflows.mpr large)]
  · split
    next empty =>
      rw [empty]
      rfl
    next nonempty => exact base64Decode_of_filter nonempty (filter_encodeLoop 0 src)

theorem base64Decode_base64Encode_alice :
    ∃ out, base64Encode (ascii "alice:secret") = .ok (some out) ∧
      base64Decode out = some (ascii "alice:secret") :=
  (base64Decode_base64Encode (ascii "alice:secret") (by decide)).2 (by decide)

/-! ## `make_base64_string` -/

/-- A group of ASCII characters is the one of `base64_encode`; any other character leads
out of the table. -/
private theorem base64Group_eq (n : Nat) (first second third : Byte) :
    base64Group n first second third =
      if first.toNat < 128 ∧ second.toNat < 128 ∧ third.toNat < 128 then
        .ok [base64Digit (first.toNat >>> 2),
          base64Digit ((first.toNat &&& 0x03) <<< 4 ||| second.toNat >>> 4),
          if n < 2 then padding
          else base64Digit ((second.toNat &&& 0x0F) <<< 2 ||| third.toNat >>> 6),
          if n < 3 then padding else base64Digit (third.toNat &&& 0x3F)]
      else .error .outOfBounds := by
  unfold base64Group shiftedChar
  by_cases isFirst : first.toNat < 128
  · by_cases isSecond : second.toNat < 128
    · by_cases isThird : third.toNat < 128
      · simp only [Nat.not_le.mpr isFirst, Nat.not_le.mpr isSecond, Nat.not_le.mpr isThird,
          isFirst, isSecond, isThird, and_self, if_true, if_false, bind, Except.bind]
      · simp [Nat.not_le.mpr isFirst, Nat.not_le.mpr isSecond, Nat.not_lt.mp isThird, isThird,
          bind, Except.bind]
    · simp [Nat.not_le.mpr isFirst, Nat.not_lt.mp isSecond, isSecond, bind, Except.bind]
  · simp [Nat.not_lt.mp isFirst, isFirst, bind, Except.bind]

/-- No byte is negative as a `char`. -/
def IsAscii (bytes : Bytes) : Prop :=
  ∀ byte ∈ bytes, byte.toNat < 128

instance : DecidablePred IsAscii :=
  fun bytes => List.decidableBAll (fun byte : Byte => byte.toNat < 128) bytes

private theorem base64Groups_eq (bytes : Bytes) :
    base64Groups bytes =
      if IsAscii bytes then .ok (base64Text bytes) else .error .outOfBounds := by
  induction bytes using base64Text.induct with
  | case1 => rfl
  | case2 first =>
      rw [base64Groups, base64Group_eq]
      by_cases isFirst : first.toNat < 128
      · simp [isFirst, base64Text, IsAscii]
      · simp [isFirst, IsAscii]
  | case3 first second =>
      rw [base64Groups, base64Group_eq]
      by_cases both : first.toNat < 128 ∧ second.toNat < 128
      · simp [both, base64Text, IsAscii]
      · have some_ : ¬ IsAscii [first, second] := by simpa [IsAscii] using both
        rw [if_neg some_, if_neg fun all => both ⟨all.1, all.2.1⟩]
  | case4 first second third rest inductionHypothesis =>
      rw [base64Groups, base64Group_eq, inductionHypothesis]
      by_cases group : first.toNat < 128 ∧ second.toNat < 128 ∧ third.toNat < 128
      · rw [if_pos group]
        by_cases later : IsAscii rest
        · have all : IsAscii (first :: second :: third :: rest) := by
            simpa [IsAscii, and_assoc] using And.intro group later
          rw [if_pos later, if_pos all, base64Text]
          rfl
        · have some_ : ¬ IsAscii (first :: second :: third :: rest) :=
            fun all => later fun byte member => all byte (by simp [member])
          rw [if_neg later, if_neg some_]
          rfl
      · have some_ : ¬ IsAscii (first :: second :: third :: rest) :=
          fun all => group ⟨all first (by simp), all second (by simp), all third (by simp)⟩
        rw [if_neg group, if_neg some_]
        rfl

/-- With a character that is not ASCII it reads outside its table. -/
theorem makeBase64String_eq (str : CString) :
    makeBase64String str =
      if IsAscii str.bytes then .ok (base64Text str.bytes) else .error .outOfBounds :=
  base64Groups_eq str.bytes

/-- `make_base64_string` of ASCII characters is the text of their bytes without line breaks,
and `base64_decode` gives the bytes back; with any other character among them it reads
outside its table. -/
theorem makeBase64String_decodes (str : CString) :
    (IsAscii str.bytes → ∃ text, makeBase64String str = .ok text ∧
      base64Decode text = if str.bytes = [] then none else some str.bytes) ∧
    ((∃ byte ∈ str.bytes, 128 ≤ byte.toNat) → makeBase64String str = .error .outOfBounds) := by
  rw [makeBase64String_eq]
  constructor
  · intro isAscii
    refine ⟨base64Text str.bytes, if_pos isAscii, ?_⟩
    split
    next empty =>
      rw [empty]
      rfl
    next nonempty => exact base64Decode_of_filter nonempty (filter_text str.bytes)
  · rintro ⟨byte, member, notAscii⟩
    exact if_neg fun isAscii => Nat.not_lt_of_le notAscii (isAscii byte member)

theorem makeBase64String_decodes_alice :
    (∃ text, makeBase64String (CString.literal "alice:secret") = .ok text ∧
      base64Decode text = some (ascii "alice:secret")) ∧
    makeBase64String ⟨[0xC3, 0xA9], by decide⟩ = .error .outOfBounds :=
  ⟨(makeBase64String_decodes (CString.literal "alice:secret")).1 (by decide),
    (makeBase64String_decodes ⟨[0xC3, 0xA9], by decide⟩).2 ⟨0xC3, by decide, by decide⟩⟩

end Torchat.Proxy
