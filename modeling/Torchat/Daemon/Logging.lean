import Torchat.Foundation.Printf
import Torchat.Daemon.Handling
import Torchat.Daemon.Unread

/-!
Contract: what the daemon writes into its log.

The texts of clients and peers reach `LOG_F` as its format. Owns the three
functions that write a record, the records of one `event_routine` in a debug
build, and when they are the texts.

Does not own the sinks and the preamble of a record.
-/

set_option autoImplicit false

namespace Torchat.Daemon

open Torchat.Foundation
open Torchat.Json

/-! ## Records -/

/-- A record at a verbosity, with the format that it is printed from; no
arguments come with it. -/
structure Record where
  verbosity : Int
  format : CString
deriving DecidableEq

/-- `LOG_F`. -/
def logF (verbosity : Int) (format : CString) : Record where
  verbosity := verbosity
  format := format

/-- `log_info`. -/
def logInfo (json : CString) : Record := logF 0 json

/-- `log_err`. -/
def logErr (err : CString) : Record := logF (-2) err

/-- The record of `convert_string_to_datastruct`. -/
def logDebug (jsonCh : CString) : Record := logF 9 jsonCh

/-- The message of a record, for the outputs of the conversions. -/
def Record.message {α : Type} (record : Record) (convert : Nat → Byte → List α → Bytes) :
    Option Bytes :=
  vasprintf convert record.format.bytes []

def Effect.record : Effect → Option Record
  | .logInfo text => some (Daemon.logInfo text)
  | .logErr text => some (Daemon.logErr text)
  | _ => none

/-- The records of the switch of `event_routine`. -/
def dispatchLog (environment : Environment) (json : CString) (data : DataWrapper) : List Record :=
  match data.cmd with
  | .exit | .recv => [logInfo json]
  | .send => logInfo json :: (sendRoutine environment data).filterMap Effect.record
  | _ => []

/-- The records that are made about a text that was read. -/
def textLog (environment : Environment) (rc : Int) (json : CString) : List Record :=
  logDebug json ::
    match convertStringToDatastruct json environment.now with
    | .error _ => []
    | .ok none => [logErr json]
    | .ok (some data) => if 0 < rc then dispatchLog environment json data else []

/-- The records of `event_routine` behind `torchatproto_mrecv`. Of a buffer without a
terminator the text goes on behind the buffer, and so does what is logged. -/
def eventLog (environment : Environment) (rc : Int) (inbuf : Bytes) :
    Except Fault (List Record) :=
  if rc = -1 then .ok []
  else if 0 ∉ inbuf then .error .outOfBounds
  else .ok (textLog environment rc (CString.ofBytes inbuf))

private theorem effects_clientUpdate {environment : Environment} {store after : Store}
    {data : DataWrapper} {effects : List Effect}
    (updated : clientUpdate environment store data = .ok (after, effects)) :
    ∃ reply, effects = [environment.answer reply] := by
  obtain ⟨⟨msg, between⟩, _, behind⟩ := bind_eq_ok updated
  cases msg with
  | none =>
      cases behind
      exact ⟨_, rfl⟩
  | some address =>
      obtain ⟨message, _, behindLoad⟩ := bind_eq_ok behind
      obtain ⟨messages, _, finished⟩ := bind_eq_ok behindLoad
      cases finished
      exact ⟨_, rfl⟩

private theorem effects_sendPeerListToClient {environment : Environment} {store : Store}
    {data : DataWrapper} {effects : List Effect}
    (listed : sendPeerListToClient environment store data = .ok effects) :
    ∃ reply, effects = [environment.answer reply] := by
  obtain ⟨peerList, _, finished⟩ := bind_eq_ok listed
  cases finished
  exact ⟨_, rfl⟩

/-- What a handler writes, it writes in front of all that can go wrong in it. -/
private theorem dispatchLog_of_dispatch {environment : Environment} {store : Store}
    {json : CString} {data : DataWrapper} {outcome : Outcome}
    (handled : dispatch environment store json data = .ok outcome) :
    dispatchLog environment json data = outcome.effects.filterMap Effect.record := by
  unfold dispatch at handled
  unfold dispatchLog
  cases cmd : data.cmd with
  | recv =>
      rw [cmd] at handled
      obtain ⟨after, _, finished⟩ := bind_eq_ok handled
      cases finished
      rfl
  | update =>
      rw [cmd] at handled
      obtain ⟨⟨after, effects⟩, updated, finished⟩ := bind_eq_ok handled
      obtain ⟨reply, rfl⟩ := effects_clientUpdate updated
      cases finished
      rfl
  | getPeers =>
      rw [cmd] at handled
      obtain ⟨effects, listed, finished⟩ := bind_eq_ok handled
      obtain ⟨reply, rfl⟩ := effects_sendPeerListToClient listed
      cases finished
      rfl
  | _ =>
      rw [cmd] at handled
      cases handled
      rfl

/-- They are the log effects of what the daemon does about the buffer. -/
theorem eventLog_of_handled {environment : Environment} {store : Store} {rc : Int}
    {inbuf : Bytes} {outcome : Outcome} (delivered : rc ≠ -1) (terminated : 0 ∈ inbuf)
    (handled : handleConnection environment store (parseInbuf rc inbuf environment.now) =
      .ok outcome) :
    eventLog environment rc inbuf =
      .ok (logDebug (CString.ofBytes inbuf) :: outcome.effects.filterMap Effect.record) := by
  rw [parseInbuf, if_neg delivered, if_neg (not_not.mpr terminated)] at handled
  rw [eventLog, if_neg delivered, if_neg (not_not.mpr terminated), textLog]
  congr 2
  cases decoded : convertStringToDatastruct (CString.ofBytes inbuf) environment.now with
  | error => simp [decoded, handleConnection] at handled
  | ok answer =>
      rw [decoded] at handled
      cases answer with
      | none =>
          cases handled
          rfl
      | some data =>
          simp only [handleConnection] at handled
          by_cases positive : 0 < rc
          · rw [if_pos positive] at handled
            simp only [if_pos positive]
            exact dispatchLog_of_dispatch handled
          · rw [if_neg positive] at handled
            simp only [if_neg positive]
            cases handled
            rfl

/-! ## Percent signs in replies -/

end Torchat.Daemon
