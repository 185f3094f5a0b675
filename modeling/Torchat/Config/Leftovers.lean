import Torchat.Config.ParseLines

/-!
Contract: what a line of the config file is recorded as, behind other lines.

`valBuf` is never cleared and `optBuf` is formatted in place, so that an earlier line,
or the end of the option itself, may show. Owns the pair that is the line's own, and
the lines and prefixes for which it is what is recorded.

Does not own lines that are not looked at.
-/

set_option autoImplicit false

namespace Torchat.Config

open Torchat.Foundation
open Torchat.Daemon (Fault)

/-- The lines in front of another are accepted. -/
def Accepted (before : List Bytes) : Prop :=
  ∃ parser, parseLines Parser.start before = .ok (some parser)

/-- The pair that is recorded for a line behind others; none where the file is rejected. -/
def recordedBehind (before : List Bytes) (line : Bytes) :
    Except Fault (Option (CString × CString)) := do
  match ← parseLines Parser.start before with
  | none => .ok none
  | some parser =>
      match ← parseLine parser line with
      | none => .ok none
      | some after => .ok after.options.getLast?

/-- What a line says alone: the text in front of its first separator, and its second
word. -/
def ownPair (line : Bytes) : CString × CString :=
  (CString.ofBytes (ascii "--" ++ optionName (optionWord line)), CString.ofBytes (valueWord line))

/-- The pair of the line, or no pair where it has no second word. -/
def IsOwn (line : Bytes) (outcome : Except Fault (Option (CString × CString))) : Prop :=
  outcome = .ok (some (ownPair line)) ∨ (valueWord line = [] ∧ outcome = .ok none)

/-- An option that fits the buffers and has at most one byte behind its first
separator, which is then the separator at its end. -/
structure Plain (line : Bytes) : Prop where
  readable : Readable line
  name : (optionName (optionWord line)).length ≤ 253
  behind : (behindName (optionWord line)).length ≤ 1

/-- There is room behind the lines, and the value of none of them can show. -/
structure Clean (before : List Bytes) (line : Bytes) : Prop where
  room : (considered before).length < nOpts
  value : valueWord line ≠ [] ∨ ∀ earlier ∈ considered before, valueWord earlier = []

/-! ## What the buffers show -/

theorem ofBytes_eq_empty_iff {text : Bytes} (noNul : 0 ∉ text) :
    CString.ofBytes text = CString.empty ↔ text = [] := by
  constructor
  · intro same
    have bytes := congrArg CString.bytes same
    rw [CString.ofBytes_eq_of_noNul noNul] at bytes
    exact bytes
  · rintro rfl
    rfl

theorem valueAfter_eq_empty_iff (line : Bytes) (left : CString) :
    valueAfter line left = CString.empty ↔ left = CString.empty ∧ valueWord line = [] := by
  by_cases none_ : valueWord line = []
  · rw [valueAfter, if_pos none_]
    exact (and_iff_left none_).symm
  · rw [valueAfter, if_neg none_, ofBytes_eq_empty_iff (noNul_valueWord line)]
    exact iff_of_false none_ fun both => none_ both.2

/-- `valBuf` is empty until a line has a second word. -/
theorem leftBy_eq_empty_iff (before : List Bytes) :
    leftBy CString.empty before = CString.empty ↔
      ∀ earlier ∈ considered before, valueWord earlier = [] := by
  have general : ∀ (looked : List Bytes) (left : CString),
      looked.foldl (fun left line => valueAfter line left) left = CString.empty ↔
        left = CString.empty ∧ ∀ earlier ∈ looked, valueWord earlier = [] := by
    intro looked
    induction looked with
    | nil => simp
    | cons line rest inductionHypothesis =>
        intro left
        rw [List.foldl_cons, inductionHypothesis, valueAfter_eq_empty_iff, List.forall_mem_cons,
          and_assoc]
  rw [leftBy, general]
  exact and_iff_right rfl

/-- The value that is recorded is the line's own. -/
theorem valueAfter_eq_own_iff (line : Bytes) (left : CString) :
    valueAfter line left = CString.ofBytes (valueWord line) ↔
      valueWord line ≠ [] ∨ left = CString.empty := by
  by_cases none_ : valueWord line = []
  · rw [valueAfter, if_pos none_, none_]
    exact (or_iff_right (not_not.mpr rfl)).symm
  · rw [valueAfter, if_neg none_]
    exact iff_of_true rfl (Or.inl none_)

/-- The name that is recorded is the line's own. -/
theorem formatted_eq_own_iff (line : Bytes) :
    formatted line = CString.ofBytes (ascii "--" ++ optionName (optionWord line)) ↔
      (behindName (optionWord line)).length ≤ 1 := by
  have prefixed := noNul_prefixed (noNul_optionName line)
  rw [← Nat.sub_eq_zero_iff_le, ← List.length_drop, List.length_eq_zero_iff]
  constructor
  · intro same
    have bytes := congrArg CString.bytes same
    rw [formatted, CString.ofBytes_eq_of_noNul (noNul_formatted line),
      CString.ofBytes_eq_of_noNul prefixed] at bytes
    exact List.append_right_eq_self.mp bytes
  · intro nothing
    rw [formatted, nothing, List.append_nil]

/-! ## The pair of a line -/

section Pair

variable {before : List Bytes} {line : Bytes}

/-- Behind a prefix a line is recorded with the value that the prefix has left, or it
leaves the arrays. -/
private theorem recordedBehind_eq (accepted : Accepted before) (looked : isConsidered line = true)
    (option : isOption line = true) :
    recordedBehind before line =
      if Readable line ∧ (optionName (optionWord line)).length ≤ 253 ∧
          (considered before).length < nOpts then
        .ok (some (formatted line, valueAfter line (leftBy CString.empty before)))
      else .error .outOfBounds := by
  obtain ⟨parser, parsed⟩ := accepted
  have ⟨ready, length⟩ := ready_of_parseLines Parser.start_ready parsed
  have count : parser.options.length = (considered before).length :=
    length.trans (Nat.zero_add _)
  rw [← count]
  split
  next fits =>
    obtain ⟨after, recorded, _, options⟩ :=
      parseLine_of_recorded ready looked fits.1 option fits.2.1 fits.2.2
    simp only [recordedBehind, parsed, recorded, options, List.getLast?_append_cons,
      List.getLast?_singleton, bind, Except.bind]
  next overrun =>
    by_cases readable : Readable line
    · have tooMuch := parseLine_of_overrun ready looked readable option
        fun fits => overrun ⟨readable, fits⟩
      simp only [recordedBehind, parsed, tooMuch, bind, Except.bind]
    · have unreadable := parseLine_of_unreadable ready looked readable
      simp only [recordedBehind, parsed, unreadable, bind, Except.bind]

/-- An option is not rejected: what is recorded for it is its own pair or it is not. -/
private theorem isOwn_iff_eq (accepted : Accepted before) (looked : isConsidered line = true)
    (option : isOption line = true) :
    IsOwn line (recordedBehind before line) ↔
      recordedBehind before line = .ok (some (ownPair line)) := by
  refine or_iff_left ?_
  rintro ⟨_, rejected⟩
  rw [recordedBehind_eq accepted looked option] at rejected
  split at rejected
  next => cases rejected
  next => contradiction

/-- The exact condition for a prefix and a line. -/
private theorem isOwn_iff (accepted : Accepted before) (looked : isConsidered line = true)
    (option : isOption line = true) :
    IsOwn line (recordedBehind before line) ↔ Plain line ∧ Clean before line := by
  rw [isOwn_iff_eq accepted looked option, recordedBehind_eq accepted looked option]
  split
  next fits =>
    obtain ⟨readable, name, room⟩ := fits
    rw [Except.ok.injEq, Option.some.injEq, ownPair, Prod.mk.injEq, formatted_eq_own_iff,
      valueAfter_eq_own_iff, leftBy_eq_empty_iff]
    constructor
    · rintro ⟨behind, value⟩
      exact ⟨⟨readable, name, behind⟩, room, value⟩
    · rintro ⟨plain, clean⟩
      exact ⟨plain.behind, clean.value⟩
  next overrun =>
    refine iff_of_false nofun ?_
    rintro ⟨plain, clean⟩
    exact overrun ⟨plain.readable, plain.name, clean.room⟩

end Pair

/-- What is recorded for an option behind two prefixes is its own pair both times, and
so the same, exactly when the option is plain and both prefixes are clean for it. -/
theorem recorded_pair_own_iff (first second : List Bytes) (line : Bytes)
    (acceptedFirst : Accepted first) (acceptedSecond : Accepted second)
    (looked : isConsidered line = true) (option : isOption line = true) :
    (IsOwn line (recordedBehind first line) ∧ IsOwn line (recordedBehind second line) ∧
        recordedBehind first line = recordedBehind second line) ↔
      Plain line ∧ Clean first line ∧ Clean second line := by
  constructor
  · rintro ⟨ownFirst, ownSecond, _⟩
    have ⟨plain, cleanFirst⟩ := (isOwn_iff acceptedFirst looked option).mp ownFirst
    have ⟨_, cleanSecond⟩ := (isOwn_iff acceptedSecond looked option).mp ownSecond
    exact ⟨plain, cleanFirst, cleanSecond⟩
  · rintro ⟨plain, cleanFirst, cleanSecond⟩
    have ownFirst := (isOwn_iff acceptedFirst looked option).mpr ⟨plain, cleanFirst⟩
    have ownSecond := (isOwn_iff acceptedSecond looked option).mpr ⟨plain, cleanSecond⟩
    refine ⟨ownFirst, ownSecond, ?_⟩
    rw [(isOwn_iff_eq acceptedFirst looked option).mp ownFirst,
      (isOwn_iff_eq acceptedSecond looked option).mp ownSecond]

/-- A line without a prefix and behind `a: x`, both accepted. -/
private theorem accepted_nothing : Accepted [] := ⟨Parser.start, rfl⟩

private theorem accepted_value : Accepted [ascii "a: x\n"] := by
  obtain ⟨after, recorded, _, _⟩ := @parseLine_of_recorded (ascii "a: x\n") Parser.start
    CString.empty Parser.start_ready (by decide) (by decide) (by decide) (by decide) (by decide)
  exact ⟨after, parseLines_cons recorded []⟩

theorem recorded_pair_own_iff_value :
    (IsOwn (ascii "b: y\n") (recordedBehind [] (ascii "b: y\n")) ∧
        IsOwn (ascii "b: y\n") (recordedBehind [ascii "a: x\n"] (ascii "b: y\n")) ∧
        recordedBehind [] (ascii "b: y\n") =
          recordedBehind [ascii "a: x\n"] (ascii "b: y\n")) ↔
      Plain (ascii "b: y\n") ∧ Clean [] (ascii "b: y\n") ∧
        Clean [ascii "a: x\n"] (ascii "b: y\n") :=
  recorded_pair_own_iff [] [ascii "a: x\n"] (ascii "b: y\n") accepted_nothing accepted_value
    (by decide) (by decide)

/-- `b:` behind `a: x` is recorded with the value `x`, and at the head of a file with
none. -/
theorem value_left_by_earlier_line :
    Accepted [ascii "a: x\n"] ∧ isConsidered (ascii "b:\n") = true ∧
      isOption (ascii "b:\n") = true ∧ valueWord (ascii "b:\n") = [] ∧
      recordedBehind [ascii "a: x\n"] (ascii "b:\n") =
        .ok (some (CString.literal "--b", CString.literal "x")) ∧
      recordedBehind [] (ascii "b:\n") =
        .ok (some (CString.literal "--b", CString.empty)) ∧
      ¬ IsOwn (ascii "b:\n") (recordedBehind [ascii "a: x\n"] (ascii "b:\n")) := by
  have behind : recordedBehind [ascii "a: x\n"] (ascii "b:\n") =
      .ok (some (CString.literal "--b", CString.literal "x")) := by decide +kernel
  refine ⟨accepted_value, by decide, by decide, by decide, behind, by decide +kernel, ?_⟩
  rw [behind]
  rintro (own | ⟨_, rejected⟩)
  · revert own
    decide
  · cases rejected

end Torchat.Config
