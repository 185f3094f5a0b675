import Torchat.Config.ParseConfig

/-!
Contract: what the loop of `parse_config` does with a line, and with many.

A line is ignored, rejected, recorded, or it runs past a buffer. Owns the conditions
for each, what the buffers hold behind a line, and the vector that is returned.

Does not own the form of a file.
-/

set_option autoImplicit false

namespace Torchat.Config

open Torchat.Foundation
open Torchat.Daemon (Fault bind_eq_ok)

/-! ## Buffers -/

section Buffers

variable {size : Nat} {buf : CharArray size} {text tail : Bytes}

theorem writeBuf_of_fits (fits : text.length ≤ size) :
    ∃ after, writeBuf buf text = .ok after ∧ after.bytes = text ++ buf.bytes.drop text.length := by
  cases written : buf.overwrite text with
  | none =>
      have long := (CharArray.overwrite_eq_none_iff buf text).mp written
      omega
  | some after =>
      refine ⟨after, ?_, CharArray.overwrite_bytes written⟩
      rw [writeBuf, written]

theorem writeBuf_of_long (long : size < text.length) : writeBuf buf text = .error .outOfBounds := by
  rw [writeBuf, (CharArray.overwrite_eq_none_iff buf text).mpr long]

theorem read_of_bytes (noNul : 0 ∉ text) (bytes : buf.bytes = text ++ 0 :: tail) :
    buf.read = some (CString.ofBytes text) := by
  have terminated : 0 ∈ buf.bytes := by
    rw [bytes]
    exact List.mem_append_right _ List.mem_cons_self
  rw [CharArray.read, if_pos terminated, bytes]
  have whole := CString.ofBytes_append_nul (CString.ofBytes text) tail
  rw [CString.ofBytes_eq_of_noNul noNul] at whole
  rw [whole]

theorem readBuf_of_read {text : CString} (read : buf.read = some text) :
    readBuf buf = .ok text := by
  rw [readBuf, read]

theorem readBuf_of_bytes (noNul : 0 ∉ text) (bytes : buf.bytes = text ++ 0 :: tail) :
    readBuf buf = .ok (CString.ofBytes text) := readBuf_of_read (read_of_bytes noNul bytes)

/-- A text in a zeroed buffer has zeros behind it. -/
theorem writeBuf_zeroed (fits : text.length < size) :
    ∃ after, writeBuf (CharArray.zeroed size) (text ++ [0]) = .ok after ∧
      after.bytes = text ++ List.replicate (size - text.length) 0 := by
  have room : (text ++ [0]).length ≤ size := by simpa using fits
  obtain ⟨after, written, bytes⟩ := @writeBuf_of_fits _ (CharArray.zeroed size) _ room
  refine ⟨after, written, ?_⟩
  have zeros : List.replicate (size - text.length) (0 : Byte) =
      [0] ++ List.replicate (size - (text.length + 1)) 0 := by
    rw [← List.replicate_one, List.replicate_append_replicate]
    congr 1
    omega
  rw [bytes, zeros, CharArray.zeroed, List.drop_replicate, List.length_append,
    List.length_singleton, List.append_assoc]

theorem dropWhile_of_mem {del : Byte} (member : del ∈ text) :
    text.dropWhile (· ≠ del) = del :: (text.dropWhile (· ≠ del)).drop 1 := by
  induction text with
  | nil => contradiction
  | cons byte rest inductionHypothesis =>
      by_cases here : byte = del
      · simp [here]
      · have later := inductionHypothesis ((List.mem_cons.mp member).resolve_left (Ne.symm here))
        rw [List.dropWhile_cons_of_pos (by simpa using here)]
        exact later

/-- The first `del` behind a text becomes its terminator. -/
theorem strip_at {del : Byte} (noNul : 0 ∉ text) (absent : del ∉ text) :
    strip del (text ++ del :: tail) = text ++ 0 :: tail := by
  induction text with
  | nil =>
      rw [List.nil_append, List.nil_append, strip, if_pos rfl]
      split
      next zero => rw [zero]
      next => rfl
  | cons byte rest inductionHypothesis =>
      rw [List.mem_cons, not_or] at noNul absent
      rw [List.cons_append, strip, if_neg (Ne.symm noNul.1), if_neg (Ne.symm absent.1),
        inductionHypothesis noNul.2 absent.2, List.cons_append]

theorem strip_of_notMem {del : Byte} (absent : del ∉ text) : strip del text = text := by
  induction text with
  | nil => rfl
  | cons byte rest inductionHypothesis =>
      rw [List.mem_cons, not_or] at absent
      rw [strip, if_neg (Ne.symm absent.1), inductionHypothesis absent.2]
      split <;> rfl

end Buffers

/-! ## One line -/

def optionWord (line : Bytes) : Bytes := (scanWord (uncommented line).bytes).1

def valueWord (line : Bytes) : Bytes := (scanWord (scanWord (uncommented line).bytes).2).1

/-- The text in front of the first separator of an option, and the one behind it. -/
def optionName (option : Bytes) : Bytes := option.takeWhile (· ≠ separator)

def behindName (option : Bytes) : Bytes := (option.dropWhile (· ≠ separator)).drop 1

/-- A line whose words fit the buffers, and which has one. -/
structure Readable (line : Bytes) : Prop where
  nonempty : optionWord line ≠ []
  option : (optionWord line).length < sizeBuf
  value : (valueWord line).length < sizeBuf

instance (line : Bytes) : Decidable (Readable line) :=
  decidable_of_iff (optionWord line ≠ [] ∧ (optionWord line).length < sizeBuf ∧
      (valueWord line).length < sizeBuf)
    ⟨fun ⟨nonempty, option, value⟩ => ⟨nonempty, option, value⟩,
      fun ⟨nonempty, option, value⟩ => ⟨nonempty, option, value⟩⟩

def isOption (line : Bytes) : Bool := (optionWord line).getLast? = some separator

/-- The loop is about to read a line: `optBuf` has been cleared, and `valBuf` has what
an earlier line left there. -/
structure Parser.Ready (parser : Parser) (left : CString) : Prop where
  optBuf : parser.optBuf = CharArray.zeroed sizeBuf
  valBuf : parser.valBuf.read = some left

/-- What `valBuf` has behind a line. -/
def valueAfter (line : Bytes) (left : CString) : CString :=
  if valueWord line = [] then left else CString.ofBytes (valueWord line)

/-- What `optBuf` has behind `format_option`: behind the name, the bytes from the second
one behind its separator on are left in the buffer. -/
def formatted (line : Bytes) : CString :=
  CString.ofBytes
    (ascii "--" ++ optionName (optionWord line) ++ (behindName (optionWord line)).drop 1)

section Line

variable {line : Bytes} {parser : Parser} {left : CString}

private theorem noNul_optionWord (line : Bytes) : 0 ∉ optionWord line := fun member =>
  (uncommented line).noNul (scanWord_mem member)

theorem noNul_valueWord (line : Bytes) : 0 ∉ valueWord line := fun member =>
  (uncommented line).noNul (scanWord_rest_mem (scanWord_mem member))

private theorem scanLine_eq (line : Bytes) (optBuf valBuf : CharArray sizeBuf) :
    scanLine (uncommented line) optBuf valBuf =
      if optionWord line = [] then .ok (optBuf, valBuf)
      else
        (writeBuf optBuf (optionWord line ++ [0])).bind fun optBuf =>
          if valueWord line = [] then .ok (optBuf, valBuf)
          else
            (writeBuf valBuf (valueWord line ++ [0])).bind fun valBuf => .ok (optBuf, valBuf) :=
  rfl

/-- `sscanf` on a line whose words fit. -/
private theorem scanLine_of_readable (ready : parser.Ready left) (readable : Readable line) :
    ∃ optBuf valBuf, scanLine (uncommented line) parser.optBuf parser.valBuf =
        .ok (optBuf, valBuf) ∧
      optBuf.bytes = optionWord line ++
        List.replicate (sizeBuf - (optionWord line).length) 0 ∧
      valBuf.read = some (valueAfter line left) := by
  obtain ⟨optBuf, optWritten, optBytes⟩ := writeBuf_zeroed readable.option
  rw [← ready.optBuf] at optWritten
  simp only [scanLine_eq, if_neg readable.nonempty, optWritten, Except.bind]
  by_cases noValue : valueWord line = []
  · refine ⟨optBuf, parser.valBuf, if_pos noValue, optBytes, ?_⟩
    rw [valueAfter, if_pos noValue]
    exact ready.valBuf
  · have room : (valueWord line ++ [0]).length ≤ sizeBuf := by
      rw [List.length_append]
      exact readable.value
    obtain ⟨valBuf, valWritten, valBytes⟩ := @writeBuf_of_fits _ parser.valBuf _ room
    rw [List.append_assoc, List.singleton_append] at valBytes
    refine ⟨optBuf, valBuf, ?_, optBytes, ?_⟩
    · rw [if_neg noValue, valWritten]
    · rw [valueAfter, if_neg noValue]
      exact read_of_bytes (noNul_valueWord line) valBytes

/-- A text in a buffer with zeros behind it is read. -/
private theorem readBuf_of_zeros {buf : CharArray sizeBuf} {text : Bytes} (noNul : 0 ∉ text)
    (fits : text.length < sizeBuf)
    (bytes : buf.bytes = text ++ List.replicate (sizeBuf - text.length) 0) :
    readBuf buf = .ok (CString.ofBytes text) := by
  obtain ⟨zeros, more⟩ : ∃ zeros, sizeBuf - text.length = zeros + 1 :=
    ⟨sizeBuf - text.length - 1, by omega⟩
  rw [more, List.replicate_succ] at bytes
  exact readBuf_of_bytes noNul bytes

private theorem validOpt_of_readable (readable : Readable line) {optBuf : CharArray sizeBuf}
    (bytes : optBuf.bytes = optionWord line ++
      List.replicate (sizeBuf - (optionWord line).length) 0) :
    validOpt optBuf = .ok (isOption line) := by
  have read := readBuf_of_zeros (noNul_optionWord line) readable.option bytes
  obtain ⟨last, isLast⟩ : ∃ last, (optionWord line).getLast? = some last :=
    ⟨_, List.getLast?_eq_some_getLast readable.nonempty⟩
  simp only [validOpt, read, CString.ofBytes_eq_of_noNul (noNul_optionWord line), isLast, isOption,
    Option.some.injEq, bind, Except.bind]

/-- A line that is not looked at changes nothing. -/
theorem parseLine_of_ignored (ignored : ¬ isConsidered line = true) :
    parseLine parser line = .ok (some parser) := if_neg ignored

/-- A line without a word makes `valid_opt` read in front of its buffer, and a word
that does not fit runs past its buffer. -/
theorem parseLine_of_unreadable (ready : parser.Ready left) (considered : isConsidered line = true)
    (unreadable : ¬ Readable line) : parseLine parser line = .error .outOfBounds := by
  simp only [parseLine, if_pos considered, scanLine_eq]
  by_cases empty : optionWord line = []
  · have noNul : (0 : Byte) ∉ ([] : Bytes) := List.not_mem_nil
    have read : readBuf parser.optBuf = .ok (CString.ofBytes []) := by
      rw [ready.optBuf]
      exact readBuf_of_zeros noNul (by decide) rfl
    simp only [if_pos empty, validOpt, read, bind, Except.bind]
    rfl
  rw [if_neg empty]
  by_cases long : (optionWord line).length < sizeBuf
  · obtain ⟨optBuf, written, _⟩ := writeBuf_zeroed long
    rw [← ready.optBuf] at written
    have tooLong : sizeBuf < (valueWord line ++ [0]).length := by
      rw [List.length_append, List.length_singleton]
      by_contra fits
      exact unreadable ⟨empty, long, by omega⟩
    have value : valueWord line ≠ [] := by
      intro none_
      rw [none_] at tooLong
      exact absurd tooLong (by decide)
    simp only [written, if_neg value, writeBuf_of_long tooLong, bind, Except.bind]
  · have tooLong : sizeBuf < (optionWord line ++ [0]).length := by
      rw [List.length_append, List.length_singleton]
      omega
    simp only [writeBuf_of_long tooLong, bind, Except.bind]

/-- A line whose first word does not end with the separator is rejected. -/
theorem parseLine_of_invalid (ready : parser.Ready left) (considered : isConsidered line = true)
    (readable : Readable line) (invalid : ¬ isOption line = true) :
    parseLine parser line = .ok none := by
  obtain ⟨optBuf, valBuf, scanned, bytes, _⟩ := scanLine_of_readable ready readable
  simp only [parseLine, if_pos considered, scanned, validOpt_of_readable readable bytes, bind,
    Except.bind]
  rw [if_neg invalid]

theorem noNul_prefixed {name : Bytes} (noNul : 0 ∉ name) : 0 ∉ ascii "--" ++ name := by
  have prefix_ : 0 ∉ ascii "--" := by decide
  rw [List.mem_append, not_or]
  exact ⟨prefix_, noNul⟩

/-- `format_option` overwrites the terminator of the name and the byte behind it. -/
private theorem formatOption_of_short {opt : CharArray sizeBuf} {name tail : Bytes}
    (noNul : 0 ∉ name) (bytes : opt.bytes = name ++ 0 :: tail) (fits : name.length ≤ 253) :
    ∃ after, formatOption opt = .ok after ∧ after.bytes = ascii "--" ++ name ++ tail.drop 1 := by
  have dashes : (ascii "--").length = 2 := rfl
  obtain ⟨dashed, dashesWritten, _⟩ :=
    @writeBuf_of_fits _ (CharArray.zeroed sizeBuf) (ascii "--") (by decide)
  have room : (ascii "--" ++ name ++ [0]).length ≤ sizeBuf := by
    rw [List.length_append, List.length_append, dashes, List.length_singleton, sizeBuf]
    omega
  obtain ⟨tmp, tmpWritten, tmpBytes⟩ := @writeBuf_of_fits _ dashed _ room
  rw [List.append_assoc _ [0], List.singleton_append] at tmpBytes
  have tmpRead := readBuf_of_bytes (noNul_prefixed noNul) tmpBytes
  have back : (ascii "--" ++ name).length ≤ sizeBuf := by
    rw [List.length_append, dashes, sizeBuf]
    omega
  obtain ⟨after, written, afterBytes⟩ := @writeBuf_of_fits _ opt _ back
  refine ⟨after, ?_, ?_⟩
  · simp only [formatOption, readBuf_of_bytes noNul bytes, CString.ofBytes_eq_of_noNul noNul,
      dashesWritten, tmpWritten, tmpRead, CString.ofBytes_eq_of_noNul (noNul_prefixed noNul),
      written, bind, Except.bind]
  · rw [afterBytes, bytes, List.length_append, dashes, Nat.add_comm, ← List.drop_drop,
      List.drop_left]
    rfl

/-- A longer name runs past `tmp`. -/
private theorem formatOption_of_long {opt : CharArray sizeBuf} {name tail : Bytes}
    (noNul : 0 ∉ name) (bytes : opt.bytes = name ++ 0 :: tail) (long : ¬ name.length ≤ 253) :
    formatOption opt = .error .outOfBounds := by
  obtain ⟨dashed, dashesWritten, _⟩ :=
    @writeBuf_of_fits _ (CharArray.zeroed sizeBuf) (ascii "--") (by decide)
  have tooLong : sizeBuf < (ascii "--" ++ name ++ [0]).length := by
    have dashes : (ascii "--").length = 2 := rfl
    rw [List.length_append, List.length_append, dashes, List.length_singleton, sizeBuf]
    omega
  simp only [formatOption, readBuf_of_bytes noNul bytes, CString.ofBytes_eq_of_noNul noNul,
    dashesWritten, writeBuf_of_long tooLong, bind, Except.bind]

theorem noNul_optionName (line : Bytes) : 0 ∉ optionName (optionWord line) := fun member =>
  noNul_optionWord line ((List.takeWhile_sublist _).subset member)

private theorem separator_mem (option : isOption line = true) : separator ∈ optionWord line := by
  have last : (optionWord line).getLast? = some separator := of_decide_eq_true option
  exact List.mem_of_getLast? last

/-- An option is its name, the separator and what is behind it. -/
theorem optionWord_split (option : isOption line = true) :
    optionWord line =
      optionName (optionWord line) ++ separator :: behindName (optionWord line) := by
  have behind := dropWhile_of_mem (separator_mem option)
  rw [behindName, ← behind]
  exact (List.takeWhile_append_dropWhile).symm

/-- What `strip` leaves in `optBuf`. -/
private theorem stripBuf_bytes (option : isOption line = true) {optBuf : CharArray sizeBuf}
    (bytes : optBuf.bytes = optionWord line ++
      List.replicate (sizeBuf - (optionWord line).length) 0) :
    (stripBuf separator optBuf).bytes = optionName (optionWord line) ++ 0 ::
      (behindName (optionWord line) ++
        List.replicate (sizeBuf - (optionWord line).length) 0) := by
  have absent : separator ∉ optionName (optionWord line) := by
    intro member
    simpa using List.mem_takeWhile_imp member
  show strip separator optBuf.bytes = _
  rw [bytes]
  generalize List.replicate (sizeBuf - (optionWord line).length) (0 : Byte) = zeros
  conv_lhs => rw [optionWord_split option, List.append_assoc, List.cons_append]
  exact strip_at (noNul_optionName line) absent

/-- What `format_option` leaves behind the name ends inside the buffer. -/
private theorem exists_terminator {behind : Bytes} {count : Nat} (positive : 0 < count)
    (two : behind = [] → 1 < count) :
    ∃ rest, (behind ++ List.replicate count (0 : Byte)).drop 1 = behind.drop 1 ++ 0 :: rest := by
  cases behind with
  | nil =>
      obtain ⟨more, rfl⟩ : ∃ more, count = more + 2 := ⟨count - 2, by have := two rfl; omega⟩
      exact ⟨List.replicate more 0, rfl⟩
  | cons byte rest =>
      obtain ⟨more, rfl⟩ : ∃ more, count = more + 1 := ⟨count - 1, by omega⟩
      exact ⟨List.replicate more 0, rfl⟩

theorem noNul_formatted (line : Bytes) :
    0 ∉ ascii "--" ++ optionName (optionWord line) ++ (behindName (optionWord line)).drop 1 := by
  have behind : 0 ∉ (behindName (optionWord line)).drop 1 := fun member =>
    noNul_optionWord line ((List.dropWhile_sublist _).subset
      (List.mem_of_mem_drop (List.mem_of_mem_drop member)))
  rw [List.mem_append, not_or]
  exact ⟨noNul_prefixed (noNul_optionName line), behind⟩

/-- `format_option` on a name that fits. -/
private theorem formats_of_short (readable : Readable line) (option : isOption line = true)
    {optBuf : CharArray sizeBuf}
    (bytes : optBuf.bytes = optionWord line ++
      List.replicate (sizeBuf - (optionWord line).length) 0)
    (nameFits : (optionName (optionWord line)).length ≤ 253) :
    ∃ after, formatOption (stripBuf separator optBuf) = .ok after ∧
      readBuf after = .ok (formatted line) := by
  obtain ⟨after, formats, afterBytes⟩ :=
    formatOption_of_short (noNul_optionName line) (stripBuf_bytes option bytes) nameFits
  have fits : (optionWord line).length < 256 := readable.option
  have lengths := congrArg List.length (optionWord_split option)
  rw [List.length_append, List.length_cons] at lengths
  have positive : 0 < sizeBuf - (optionWord line).length := by
    rw [sizeBuf]
    omega
  have two : behindName (optionWord line) = [] → 1 < sizeBuf - (optionWord line).length := by
    intro empty
    rw [empty, List.length_nil] at lengths
    rw [sizeBuf]
    omega
  obtain ⟨rest, terminated⟩ := exists_terminator positive two
  rw [terminated, ← List.append_assoc] at afterBytes
  exact ⟨after, formats, readBuf_of_bytes (noNul_formatted line) afterBytes⟩

/-- A name that is too long for `tmp` runs past it, and one option too many past the
arrays. -/
theorem parseLine_of_overrun (ready : parser.Ready left) (considered : isConsidered line = true)
    (readable : Readable line) (option : isOption line = true)
    (overrun : ¬ ((optionName (optionWord line)).length ≤ 253 ∧ parser.options.length < nOpts)) :
    parseLine parser line = .error .outOfBounds := by
  obtain ⟨optBuf, valBuf, scanned, bytes, valRead⟩ := scanLine_of_readable ready readable
  have valid := validOpt_of_readable readable bytes
  rw [option] at valid
  by_cases nameFits : (optionName (optionWord line)).length ≤ 253
  · obtain ⟨formattedBuf, formats, read⟩ := formats_of_short readable option bytes nameFits
    have full : ¬ parser.options.length < nOpts := fun room => overrun ⟨nameFits, room⟩
    simp only [parseLine, if_pos considered, scanned, valid, if_true, formats, read,
      readBuf_of_read valRead, storeOption, if_neg full, bind, Except.bind]
  · have formats := formatOption_of_long (noNul_optionName line) (stripBuf_bytes option bytes)
      nameFits
    simp only [parseLine, if_pos considered, scanned, valid, if_true, formats, bind, Except.bind]

/-- An option is recorded with what the buffers hold. -/
theorem parseLine_of_recorded (ready : parser.Ready left) (considered : isConsidered line = true)
    (readable : Readable line) (option : isOption line = true)
    (nameFits : (optionName (optionWord line)).length ≤ 253)
    (room : parser.options.length < nOpts) :
    ∃ after, parseLine parser line = .ok (some after) ∧ after.Ready (valueAfter line left) ∧
      after.options = parser.options ++ [(formatted line, valueAfter line left)] := by
  obtain ⟨optBuf, valBuf, scanned, bytes, valRead⟩ := scanLine_of_readable ready readable
  have valid := validOpt_of_readable readable bytes
  rw [option] at valid
  obtain ⟨formattedBuf, formats, read⟩ := formats_of_short readable option bytes nameFits
  let after : Parser :=
    { optBuf := CharArray.zeroed sizeBuf
      valBuf
      options := parser.options ++ [(formatted line, valueAfter line left)] }
  refine ⟨after, ?_, ⟨rfl, valRead⟩, rfl⟩
  simp only [parseLine, if_pos considered, scanned, valid, if_true, formats, read,
    readBuf_of_read valRead, storeOption, if_pos room, bind, Except.bind]
  rfl

/-- An accepted line is ignored or recorded. -/
theorem parseLine_cases (ready : parser.Ready left) {after : Parser}
    (accepted : parseLine parser line = .ok (some after)) :
    (¬ isConsidered line = true ∧ after = parser) ∨
      (isConsidered line = true ∧ after.Ready (valueAfter line left) ∧
        after.options = parser.options ++ [(formatted line, valueAfter line left)]) := by
  by_cases considered : isConsidered line = true
  · right
    have readable : Readable line := by
      by_contra unreadable
      rw [parseLine_of_unreadable ready considered unreadable] at accepted
      contradiction
    have option : isOption line = true := by
      by_contra invalid
      rw [parseLine_of_invalid ready considered readable invalid] at accepted
      cases accepted
    have fits : (optionName (optionWord line)).length ≤ 253 ∧ parser.options.length < nOpts := by
      by_contra overrun
      rw [parseLine_of_overrun ready considered readable option overrun] at accepted
      contradiction
    obtain ⟨recorded, parsed, recordedReady, options⟩ :=
      parseLine_of_recorded ready considered readable option fits.1 fits.2
    rw [parsed] at accepted
    cases accepted
    exact ⟨considered, recordedReady, options⟩
  · left
    rw [parseLine_of_ignored considered] at accepted
    cases accepted
    exact ⟨considered, rfl⟩

end Line

/-! ## Runs -/

theorem Parser.start_ready : Parser.start.Ready CString.empty := ⟨rfl, by decide⟩

/-- The loop goes on where a line has been accepted. -/
theorem parseLines_cons {parser after : Parser} {line : Bytes}
    (accepted : parseLine parser line = .ok (some after)) (rest : List Bytes) :
    parseLines parser (line :: rest) = parseLines after rest := by
  rw [parseLines, accepted]
  rfl

/-- The loop is left where a line is rejected. -/
theorem parseLines_rejected {parser : Parser} {line : Bytes}
    (rejected : parseLine parser line = .ok none) (rest : List Bytes) :
    parseLines parser (line :: rest) = .ok none := by
  rw [parseLines, rejected]
  rfl

theorem parseLines_error {parser : Parser} {line : Bytes} {fault : Fault}
    (failed : parseLine parser line = .error fault) (rest : List Bytes) :
    parseLines parser (line :: rest) = .error fault := by
  rw [parseLines, failed]
  rfl

/-- The lines that are looked at. -/
def considered (lines : List Bytes) : List Bytes := lines.filter isConsidered

/-- What `valBuf` has behind some lines. -/
def leftBy (left : CString) (lines : List Bytes) : CString :=
  (considered lines).foldl (fun left line => valueAfter line left) left

/-- Behind accepted lines each of those looked at is an entry of the arrays. -/
theorem ready_of_parseLines {lines : List Bytes} {parser after : Parser} {left : CString}
    (ready : parser.Ready left) (accepted : parseLines parser lines = .ok (some after)) :
    after.Ready (leftBy left lines) ∧
      after.options.length = parser.options.length + (considered lines).length := by
  induction lines generalizing parser left with
  | nil =>
      cases accepted
      exact ⟨ready, rfl⟩
  | cons line rest inductionHypothesis =>
      obtain ⟨next_, parsed, others⟩ := bind_eq_ok accepted
      cases next_ with
      | none => cases others
      | some next_ =>
          rcases parseLine_cases ready parsed with ⟨ignored, rfl⟩ | ⟨looked, nextReady, options⟩
          · have same : considered (line :: rest) = considered rest :=
              List.filter_cons_of_neg ignored
            rw [leftBy, same]
            exact inductionHypothesis ready others
          · have more : considered (line :: rest) = line :: considered rest :=
              List.filter_cons_of_pos looked
            have ⟨afterReady, length⟩ := inductionHypothesis nextReady others
            rw [leftBy, more, List.foldl_cons]
            refine ⟨afterReady, ?_⟩
            rw [length, options, List.length_append, List.length_singleton, List.length_cons]
            omega

/-! ## The vector -/

/-- The vector that `parse_config` returns for some options. -/
def optsVector (options : List (CString × CString)) : List (Option CString) :=
  options.flatMap (fun option => [some option.1, some option.2]) ++ [none]

/-- `fill_opts_vector` behind the entries of some options. -/
private theorem fillOptsVector_eq (before after : List (CString × CString)) :
    fillOptsVector (before ++ after) (2 * after.length) (2 * before.length) =
      .ok (optsVector after) := by
  induction after generalizing before with
  | nil => rfl
  | cons entry rest inductionHypothesis =>
      have here : (before ++ entry :: rest)[before.length]? = some entry := by simp
      have even : 2 * before.length / 2 = before.length := by omega
      have odd : (2 * before.length + 1) / 2 = before.length := by omega
      have behind := inductionHypothesis (before ++ [entry])
      rw [List.append_assoc, List.singleton_append, List.length_append, List.length_singleton]
        at behind
      have left : 2 * (entry :: rest).length = 2 * rest.length + 1 + 1 := by
        rw [List.length_cons]
        omega
      have next_ : 2 * before.length + 1 + 1 = 2 * (before.length + 1) := by omega
      have evenPos : 2 * before.length % 2 = 0 := by omega
      have oddPos : ¬ (2 * before.length + 1) % 2 = 0 := by omega
      simp only [left, fillOptsVector, even, odd, here, next_, behind, if_pos evenPos,
        if_neg oddPos, bind, Except.bind]
      rfl

/-- All options are there. -/
theorem returnOptions_of_full {parser : Parser} (full : parser.options.length = nOpts) :
    returnOptions parser =
      .ok { rc := nOpts, returnOpts := some (optsVector parser.options), errno := none } := by
  have filled := fillOptsVector_eq [] parser.options
  rw [List.nil_append, List.length_nil, Nat.mul_zero] at filled
  have destroyed : destroyMat parser.options.length nOpts = .ok () :=
    if_neg (by omega)
  simp only [returnOptions, filled, destroyed, if_pos full, bind, Except.bind]
  rw [full]

/-- An entry that has not been written is freed. -/
theorem returnOptions_of_short {parser : Parser} (short : parser.options.length < nOpts) :
    returnOptions parser = .error .danglingPointer := by
  have filled := fillOptsVector_eq [] parser.options
  rw [List.nil_append, List.length_nil, Nat.mul_zero] at filled
  have destroyed : destroyMat parser.options.length nOpts = .error .danglingPointer := if_pos short
  simp only [returnOptions, filled, destroyed, bind, Except.bind]

end Torchat.Config
