import Torchat.Config.ParseLines

/-!
Contract: on which files `parse_config` stays inside its arrays.

A blank line, a long word, an option too many and one too few each leave the arrays.
Owns the two results that a caller may rely on, and the files that give one of them.

Does not own what is read from a file.
-/

set_option autoImplicit false

namespace Torchat.Config

open Torchat.Foundation
open Torchat.Daemon (Fault bind_eq_ok)

/-- What a caller may rely on: the whole vector, or an error and no vector. -/
inductive Safe : Except Fault Returned → Prop where
  | full (options : List (CString × CString)) (all : options.length = 11) :
      Safe (.ok { rc := 11, returnOpts := some (optsVector options), errno := none })
  | failed (errno : Int) : Safe (.ok { rc := -1, returnOpts := none, errno := some errno })

/-- The options of a file are its lines up to one that is no option. Lines that are
looked at stay inside the arrays, behind `recorded` options, when options fit and are
no more than the arrays have entries for, and when they fill them or a line with a
word that fits ends them. -/
structure Bounded (recorded : Nat) (looked : List Bytes) : Prop where
  fit : ∀ line ∈ looked.takeWhile isOption,
    Readable line ∧ (optionName (optionWord line)).length ≤ 253
  room : recorded + (looked.takeWhile isOption).length ≤ nOpts
  ends : match looked.dropWhile isOption with
    | [] => recorded + (looked.takeWhile isOption).length = nOpts
    | line :: _ => Readable line

/-- The files that keep `parse_config` inside its arrays. -/
def InBounds : Except Int Bytes → Prop
  | .error _ => True
  | .ok content => Bounded 0 (considered (lines content))

section Lines

variable {recorded : Nat} {line : Bytes} {rest : List Bytes}

theorem bounded_nil : Bounded recorded [] ↔ recorded = nOpts :=
  ⟨fun bounded => bounded.ends, fun all => ⟨nofun, Nat.le_of_eq all, all⟩⟩

theorem bounded_option (option : isOption line = true) :
    Bounded recorded (line :: rest) ↔
      Readable line ∧ (optionName (optionWord line)).length ≤ 253 ∧ recorded < nOpts ∧
        Bounded (recorded + 1) rest := by
  have taken : (line :: rest).takeWhile isOption = line :: rest.takeWhile isOption :=
    List.takeWhile_cons_of_pos option
  have dropped : (line :: rest).dropWhile isOption = rest.dropWhile isOption :=
    List.dropWhile_cons_of_pos option
  have count : recorded + (line :: rest.takeWhile isOption).length =
      recorded + 1 + (rest.takeWhile isOption).length := by
    rw [List.length_cons]
    omega
  constructor
  · rintro ⟨fit, room, ends⟩
    rw [taken] at fit
    rw [taken, count] at room
    rw [taken, dropped, count] at ends
    have ⟨readable, name⟩ := fit line List.mem_cons_self
    exact ⟨readable, name, by omega,
      fun other member => fit other (List.mem_cons_of_mem _ member), room, ends⟩
  · rintro ⟨readable, name, _, fit, room, ends⟩
    refine ⟨?_, ?_, ?_⟩
    · rw [taken]
      intro other member
      rcases List.mem_cons.mp member with rfl | later
      · exact ⟨readable, name⟩
      · exact fit other later
    · rw [taken, count]
      exact room
    · rw [taken, dropped, count]
      exact ends

theorem bounded_other (other : ¬ isOption line = true) :
    Bounded recorded (line :: rest) ↔ recorded ≤ nOpts ∧ Readable line := by
  have taken : (line :: rest).takeWhile isOption = [] := List.takeWhile_cons_of_neg other
  have dropped : (line :: rest).dropWhile isOption = line :: rest :=
    List.dropWhile_cons_of_neg other
  constructor
  · rintro ⟨_, room, ends⟩
    rw [taken] at room
    rw [dropped] at ends
    exact ⟨room, ends⟩
  · rintro ⟨room, readable⟩
    refine ⟨?_, ?_, ?_⟩
    · rw [taken]
      exact nofun
    · rw [taken]
      exact room
    · rw [dropped]
      exact readable

/-- A line that is looked at is readable. -/
private theorem readable_of_bounded (bounded : Bounded recorded (line :: rest)) :
    Readable line := by
  by_cases option : isOption line = true
  · exact ((bounded_option option).mp bounded).1
  · exact ((bounded_other option).mp bounded).2

end Lines

/-- Behind the loop, or where it has been left. -/
def conclude : Option Parser → Except Fault Returned
  | some parser => returnOptions parser
  | none => .ok { rc := -1, returnOpts := none, errno := some einval }

private theorem not_safe_error (fault : Fault) : ¬ Safe (.error fault) := nofun

private theorem full_of_returnOptions {parser : Parser} {returned : Returned}
    (result : returnOptions parser = .ok returned) : parser.options.length = nOpts := by
  obtain ⟨_, _, filled⟩ := bind_eq_ok result
  obtain ⟨_, _, destroyed⟩ := bind_eq_ok filled
  by_contra short
  rw [if_neg short] at destroyed
  contradiction

private theorem safe_returnOptions_iff {parser : Parser} (bound : parser.options.length ≤ nOpts) :
    Safe (returnOptions parser) ↔ parser.options.length = nOpts := by
  by_cases full : parser.options.length = nOpts
  · rw [returnOptions_of_full full]
    exact iff_of_true (.full parser.options full) full
  · rw [returnOptions_of_short (by omega)]
    exact iff_of_false (not_safe_error _) full

/-- The loop and what is behind it. -/
theorem safe_run_iff (lines : List Bytes) {parser : Parser} {left : CString}
    (ready : parser.Ready left) (bound : parser.options.length ≤ nOpts) :
    Safe ((parseLines parser lines).bind conclude) ↔
      Bounded parser.options.length (considered lines) := by
  induction lines generalizing parser left with
  | nil => exact (safe_returnOptions_iff bound).trans bounded_nil.symm
  | cons line rest inductionHypothesis =>
      by_cases looked : isConsidered line = true
      swap
      · have same : considered (line :: rest) = considered rest := List.filter_cons_of_neg looked
        rw [same, parseLines_cons (parseLine_of_ignored looked)]
        exact inductionHypothesis ready bound
      have more : considered (line :: rest) = line :: considered rest :=
        List.filter_cons_of_pos looked
      rw [more]
      by_cases readable : Readable line
      swap
      · rw [parseLines_error (parseLine_of_unreadable ready looked readable)]
        exact iff_of_false (not_safe_error _) fun bounded => readable (readable_of_bounded bounded)
      by_cases option : isOption line = true
      swap
      · rw [parseLines_rejected (parseLine_of_invalid ready looked readable option),
          bounded_other option]
        exact iff_of_true (.failed einval) ⟨bound, readable⟩
      rw [bounded_option option]
      by_cases fits : (optionName (optionWord line)).length ≤ 253 ∧ parser.options.length < nOpts
      swap
      · rw [parseLines_error (parseLine_of_overrun ready looked readable option fits)]
        exact iff_of_false (not_safe_error _) fun bounded => fits ⟨bounded.2.1, bounded.2.2.1⟩
      obtain ⟨after, parsed, afterReady, options⟩ :=
        parseLine_of_recorded ready looked readable option fits.1 fits.2
      have length : after.options.length = parser.options.length + 1 := by
        rw [options, List.length_append, List.length_singleton]
      rw [parseLines_cons parsed, inductionHypothesis afterReady (by omega), length]
      exact ⟨fun others => ⟨readable, fits.1, fits.2, others⟩, fun bounded => bounded.2.2.2⟩

/-- What is returned is what a caller may rely on. -/
theorem safe_of_returned {file : Except Int Bytes} {returned : Returned}
    (result : parseConfig file = .ok returned) : Safe (.ok returned) := by
  cases file with
  | error errno =>
      cases result
      exact .failed errno
  | ok content =>
      obtain ⟨ended, _, concluded⟩ := bind_eq_ok result
      cases ended with
      | none =>
          cases concluded
          exact .failed einval
      | some parser =>
          have full := full_of_returnOptions concluded
          have returns := (returnOptions_of_full full).symm.trans concluded
          cases returns
          exact .full parser.options full

/-- `parse_config` returns the whole vector, or an error and no vector, for the files
that keep it inside its arrays and for no others. -/
theorem parseConfig_safe_iff (file : Except Int Bytes) :
    Safe (parseConfig file) ↔ InBounds file := by
  cases file with
  | error errno => exact iff_of_true (.failed errno) trivial
  | ok content => exact safe_run_iff (lines content) Parser.start_ready (Nat.zero_le _)

/-- A line of two blanks: `valid_opt` reads in front of `optBuf`. -/
theorem blank_line_not_safe :
    parseConfig (.ok (ascii "  \n")) = .error .outOfBounds ∧
      ¬ Safe (parseConfig (.ok (ascii "  \n"))) := by
  have overrun : parseConfig (.ok (ascii "  \n")) = .error .outOfBounds := by decide +kernel
  refine ⟨overrun, ?_⟩
  rw [overrun]
  nofun

end Torchat.Config
