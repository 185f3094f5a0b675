import Torchat.Foundation.CString

/-!
Contract: well-formed UTF-8, one byte at a time.

Owns the automaton that the scanner of string tokens contains, validity of a
byte string, its behaviour under concatenation and truncation, and ASCII.

Does not own code points.
-/

set_option autoImplicit false

namespace Torchat.Json

open Torchat.Foundation

/-- What the next byte of a character may be. -/
inductive Utf8State where
  | start
  | tail1
  | tail2
  | tail3
  | afterE0
  | afterED
  | afterF0
  | afterF4
deriving DecidableEq, Repr

def within (low high : Nat) (byte : Byte) (next : Utf8State) : Option Utf8State :=
  if low ≤ byte.toNat ∧ byte.toNat ≤ high then some next else none

def Utf8State.step : Utf8State → Byte → Option Utf8State
  | .start, byte =>
      if byte.toNat ≤ 0x7F then some .start
      else if byte.toNat ≤ 0xC1 then none
      else if byte.toNat ≤ 0xDF then some .tail1
      else if byte.toNat ≤ 0xE0 then some .afterE0
      else if byte.toNat = 0xED then some .afterED
      else if byte.toNat ≤ 0xEF then some .tail2
      else if byte.toNat ≤ 0xF0 then some .afterF0
      else if byte.toNat ≤ 0xF3 then some .tail3
      else if byte.toNat ≤ 0xF4 then some .afterF4
      else none
  | .tail1, byte => within 0x80 0xBF byte .start
  | .tail2, byte => within 0x80 0xBF byte .tail1
  | .tail3, byte => within 0x80 0xBF byte .tail2
  | .afterE0, byte => within 0xA0 0xBF byte .tail1
  | .afterED, byte => within 0x80 0x9F byte .tail1
  | .afterF0, byte => within 0x90 0xBF byte .tail2
  | .afterF4, byte => within 0x80 0x8F byte .tail2

def utf8Run : Utf8State → Bytes → Option Utf8State
  | state, [] => some state
  | state, byte :: rest =>
      match state.step byte with
      | some next => utf8Run next rest
      | none => none

/-- The bytes are a sequence of whole characters. -/
def ValidUtf8 (text : Bytes) : Prop := utf8Run .start text = some .start

instance (text : Bytes) : Decidable (ValidUtf8 text) :=
  inferInstanceAs (Decidable (utf8Run .start text = some .start))

theorem utf8Run_append (state : Utf8State) (left right : Bytes) :
    utf8Run state (left ++ right) = (utf8Run state left).bind fun next => utf8Run next right := by
  induction left generalizing state with
  | nil => rfl
  | cons byte rest inductionHypothesis =>
      simp only [List.cons_append, utf8Run]
      cases state.step byte with
      | none => rfl
      | some next => exact inductionHypothesis next

theorem ValidUtf8.append {left right : Bytes} (leftValid : ValidUtf8 left)
    (rightValid : ValidUtf8 right) : ValidUtf8 (left ++ right) := by
  unfold ValidUtf8 at *
  rw [utf8Run_append, leftValid]
  exact rightValid

theorem step_ascii {byte : Byte} (small : byte.toNat < 0x80) :
    Utf8State.start.step byte = some .start := by
  have bound : byte.toNat ≤ 0x7F := by omega
  simp [Utf8State.step, bound]

/-- An ASCII byte stands between characters only. -/
theorem start_of_step_ascii {state next : Utf8State} {byte : Byte} (small : byte.toNat < 0x80)
    (stepped : state.step byte = some next) : state = .start := by
  cases state with
  | start => rfl
  | _ =>
    simp only [Utf8State.step, within] at stepped
    split at stepped
    · omega
    · contradiction

theorem validUtf8_of_ascii {text : Bytes} (small : ∀ byte ∈ text, byte.toNat < 0x80) :
    ValidUtf8 text := by
  unfold ValidUtf8
  induction text with
  | nil => rfl
  | cons byte rest inductionHypothesis =>
      simp only [utf8Run, step_ascii (small byte (by simp))]
      exact inductionHypothesis fun later member => small later (by simp [member])

/-- What stands before an ASCII byte in a valid text is valid. -/
theorem ValidUtf8.before_ascii {left right : Bytes} {byte : Byte}
    (valid : ValidUtf8 (left ++ byte :: right)) (small : byte.toNat < 0x80) :
    ValidUtf8 left := by
  unfold ValidUtf8 at *
  rw [utf8Run_append] at valid
  cases reached : utf8Run .start left with
  | none => simp [reached] at valid
  | some state =>
      rw [reached, Option.bind_some] at valid
      simp only [utf8Run] at valid
      cases stepped : state.step byte with
      | none => simp [stepped] at valid
      | some next => rw [start_of_step_ascii small stepped]

/-- Reading a valid text as a C string keeps whole characters. -/
theorem ValidUtf8.ofBytes {text : Bytes} (valid : ValidUtf8 text) :
    ValidUtf8 (CString.ofBytes text).bytes := by
  rcases CString.ofBytes_split text with whole | ⟨rest, split⟩
  · rw [whole]
    exact valid
  · rw [split] at valid
    exact valid.before_ascii (by decide)

end Torchat.Json
