import Torchat.Foundation.Decimal
import Torchat.Json.Utf8
import Torchat.Json.Value

/-!
Contract: the local time as text, and the ways in which a C function ends other
than by returning.

Owns `get_date`, `get_short_date` and the fault classes.

Does not own the clock: the broken-down local time is an argument.
-/

set_option autoImplicit false

namespace Torchat.Daemon

open Torchat.Foundation
open Torchat.Json

/-- Why a run does not continue: an access outside an object, a pointer that is
NULL or freed, a loop without end, a failed assertion, an exception that no
handler catches. -/
inductive Fault where
  | outOfBounds
  | nullDereference
  | danglingPointer
  | endlessLoop
  | assertionFailed
  | uncaught (exception : JsonException)
deriving DecidableEq

/-- A computation that ends has passed its first step. -/
theorem bind_eq_ok {ε α β : Type} {first : Except ε α} {continuation : α → Except ε β}
    {result : β} (bound : first >>= continuation = .ok result) :
    ∃ value, first = .ok value ∧ continuation value = .ok result := by
  cases first with
  | error => contradiction
  | ok value => exact ⟨value, rfl, bound⟩

/-- `struct tm` of the local time; the year counts from year 0. -/
structure Tm where
  sec : Fin 61
  min : Fin 60
  hour : Fin 24
  mday : Fin 32
  mon : Fin 12
  wday : Fin 7
  year : Nat
deriving DecidableEq

/-- Noon of 24 December 2017, where any time will do. -/
def sampleTime : Tm := ⟨0, 0, 12, 24, 11, 0, 2017⟩

def weekdayName (wday : Fin 7) : Bytes :=
  ascii (["Sun", "Mon", "Tue", "Wed", "Thu", "Fri", "Sat"].getD wday "")

def monthName (mon : Fin 12) : Bytes :=
  ascii (["Jan", "Feb", "Mar", "Apr", "May", "Jun", "Jul", "Aug", "Sep", "Oct", "Nov",
    "Dec"].getD mon "")

/-- A day of the month in a field of three. -/
def paddedDay (mday : Fin 32) : Bytes :=
  if mday.val < 10 then ascii "  " ++ decimal mday else ascii " " ++ decimal mday

/-- `asctime` without its newline. -/
def asctime (tm : Tm) : Bytes :=
  weekdayName tm.wday ++ ascii " " ++ monthName tm.mon ++ paddedDay tm.mday ++ ascii " " ++
    fixedDigits 2 tm.hour ++ ascii ":" ++ fixedDigits 2 tm.min ++ ascii ":" ++
    fixedDigits 2 tm.sec ++ ascii " " ++ decimal tm.year

def getDate (tm : Tm) : CString := CString.ofBytes (asctime tm)

def getShortDate (tm : Tm) : CString :=
  CString.ofBytes (fixedDigits 2 tm.hour ++ ascii ":" ++ fixedDigits 2 tm.min)

/-! ## Dates are text -/

private theorem isDigit_ascii {byte : Byte} (digit : isDigit byte = true) : byte.toNat < 0x80 := by
  simp only [isDigit, Bool.and_eq_true, decide_eq_true_eq] at digit
  omega

private theorem validUtf8_decimal (value : Nat) : ValidUtf8 (decimal value) :=
  validUtf8_of_ascii fun _ member => isDigit_ascii (isDigit_of_mem_decimal member)

theorem validUtf8_fixedDigits (width value : Nat) : ValidUtf8 (fixedDigits width value) :=
  validUtf8_of_ascii fun _ member => isDigit_ascii (isDigit_of_mem_fixedDigits member)

private theorem validUtf8_weekdayName (wday : Fin 7) : ValidUtf8 (weekdayName wday) := by
  revert wday
  decide

private theorem validUtf8_monthName (mon : Fin 12) : ValidUtf8 (monthName mon) := by
  revert mon
  decide

private theorem validUtf8_paddedDay (mday : Fin 32) : ValidUtf8 (paddedDay mday) := by
  have blank : ValidUtf8 (ascii " ") := by decide
  have blanks : ValidUtf8 (ascii "  ") := by decide
  unfold paddedDay
  split
  · exact blanks.append (validUtf8_decimal _)
  · exact blank.append (validUtf8_decimal _)

theorem validUtf8_getDate (tm : Tm) : ValidUtf8 (getDate tm).bytes := by
  have blank : ValidUtf8 (ascii " ") := by decide
  have separator : ValidUtf8 (ascii ":") := by decide
  exact (((((((((((validUtf8_weekdayName _).append blank).append (validUtf8_monthName _)).append
    (validUtf8_paddedDay _)).append blank).append (validUtf8_fixedDigits _ _)).append
    separator).append (validUtf8_fixedDigits _ _)).append separator).append
    (validUtf8_fixedDigits _ _)).append blank |>.append (validUtf8_decimal _)).ofBytes

theorem validUtf8_getShortDate (tm : Tm) : ValidUtf8 (getShortDate tm).bytes := by
  have separator : ValidUtf8 (ascii ":") := by decide
  exact ((validUtf8_fixedDigits _ _).append separator |>.append (validUtf8_fixedDigits _ _)).ofBytes

end Torchat.Daemon
