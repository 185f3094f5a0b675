import Torchat.Daemon.Relay

/-!
Contract: what a text for another host tells of the clock of its sender.

The decoder adds the local time to a request without a date, `send_routine` makes
a RECV message of it, and the encoder writes the dates of such messages. Owns the
flow from the clock to the text.

Does not own the converters; see `JsonHelper`.
-/

set_option autoImplicit false

namespace Torchat.Daemon

open Torchat.Foundation
open Torchat.Json

/-- The text that the daemon hands to `send_over_tor` for a text from its client. -/
def forwardedText (environment : Environment) (json : CString) : Option CString :=
  match convertStringToDatastruct json environment.now with
  | .ok (some data) =>
      if data.cmd = .send then relayedText (sendRoutine environment data) else none
  | _ => none

/-- A request to send a message, without a date. -/
def UndatedSend (json : CString) : Prop :=
  ∃ members, parse json.bytes = .ok (.object members) ∧
    findMember (ascii "date") members = none ∧
    ∃ now data, convertStringToDatastruct json now = .ok (some data) ∧ data.cmd = .send

/-- The same text is handed over at any time, and it has no date. -/
def ClockFree (hostname json : CString) : Prop :=
  ∃ text,
    (∀ environment : Environment, environment.hostname = hostname →
      forwardedText environment json = some text) ∧
    ∀ members, parse text.bytes = .ok (.object members) →
      findMember (ascii "date") members = none

/-! ## The decoder -/

/-- The local time is all that two readings of such a request differ in. -/
private theorem decoded_at_any_time {json : CString} (request : UndatedSend json) :
    ∃ sent : DataWrapper, sent.cmd = .send ∧
      ∀ now, convertStringToDatastruct json now = .ok (some { sent with date := getDate now }) := by
  obtain ⟨members, parsed, undated, before, data, decoded, send⟩ := request
  obtain ⟨same, parsedAgain, fields⟩ := fields_of_decoded decoded
  rw [parsed] at parsedAgain
  cases parsedAgain
  refine ⟨data, send, fun now => decoded_of_fields parsed ?_⟩
  obtain ⟨msg, id, portno, cmd, _⟩ := fields
  exact ⟨msg, id, portno, cmd, Or.inr ⟨undated, rfl⟩⟩

/-! ## The text -/

/-- A message for another host as a text around its date. -/
private theorem bytes_relayed (hostname : CString) (sent : DataWrapper) :
    ∃ front back : Bytes, ∀ date : CString,
      (convertDatastructToChar (relayed hostname { sent with date := date })).bytes =
        front ++ dumpMember (ascii "date", .string date.bytes) ++ back := by
  refine ⟨0x7B :: (dumpMember (ascii "cmd", .string (convertFromEnum .recv)) ++ [comma]),
    comma :: (dumpMembers [(ascii "id", .string hostname.bytes), (ascii "msg", .string sent.msg.bytes),
      (ascii "portno", .integer sent.portno.toInt)] ++ [closingBrace]), fun date => ?_⟩
  rw [bytes_convertDatastructToChar, jsonMembers_eq, dump]
  simp only [relayed, carriesDate, dumpMembers, decide_true, Bool.or_true, if_true,
    List.cons_append, List.append_assoc, List.nil_append]

private theorem forwardedText_eq {json : CString} {sent : DataWrapper} (send : sent.cmd = .send)
    (decoded : ∀ now, convertStringToDatastruct json now =
      .ok (some { sent with date := getDate now })) (environment : Environment) :
    forwardedText environment json =
      if environment.hostname.length ≤ sent.id.length then
        some (convertDatastructToChar
          (relayed environment.hostname { sent with date := getDate environment.now }))
      else none := by
  rw [forwardedText, decoded]
  simp only [send, if_true]
  exact relayedText_sendRoutine environment _

/-- Two texts for the same request are equal exactly where the local time reads the same. -/
private theorem relayed_inj {hostname : CString} {sent : DataWrapper} {first second : CString} :
    convertDatastructToChar (relayed hostname { sent with date := first }) =
        convertDatastructToChar (relayed hostname { sent with date := second }) ↔
      first = second := by
  obtain ⟨front, back, bytes⟩ := bytes_relayed hostname sent
  constructor
  · intro same
    have written : front ++ dumpMember (ascii "date", .string first.bytes) ++ back =
        front ++ dumpMember (ascii "date", .string second.bytes) ++ back := by
      rw [← bytes first, ← bytes second, same]
    have members := List.append_cancel_left (List.append_cancel_right written)
    have values := (List.cons.inj (List.append_cancel_left members)).2
    exact CString.ext (dumpString_injective values)
  · rintro rfl
    rfl

/-! ## Two times -/

/-- A second after `sampleTime`. -/
def laterTime : Tm := { sampleTime with sec := ⟨1, by decide⟩ }

private theorem getDate_laterTime : getDate sampleTime ≠ getDate laterTime := by decide

/-- The daemon with this host name, at this time. -/
def daemonAt (hostname : CString) (now : Tm) : Environment :=
  { sampleEnvironment with hostname := hostname, now := now }

private theorem not_clockFree_of_request {json : CString} (request : UndatedSend json)
    (hostname : CString) : ¬ ClockFree hostname json := by
  obtain ⟨sent, send, decoded⟩ := decoded_at_any_time request
  rintro ⟨text, same, _⟩
  have early := same (daemonAt hostname sampleTime) rfl
  have late := same (daemonAt hostname laterTime) rfl
  rw [forwardedText_eq send decoded] at early late
  by_cases inside : hostname.length ≤ sent.id.length
  · simp only [daemonAt, inside, if_true] at early late
    have texts := Option.some.inj (early.trans late.symm)
    exact getDate_laterTime (relayed_inj.mp texts)
  · simp only [daemonAt, inside, if_false] at early
    contradiction

/-- No request to send without a date is free of the clock: its text holds the
date of the moment at which it was read, and is the same at another moment only
where that has the same date. -/
theorem not_clockFree (hostname json : CString) (request : UndatedSend json) :
    ¬ ClockFree hostname json ∧
      ∀ environment text, environment.hostname = hostname →
        forwardedText environment json = some text →
        dumpMember (ascii "date", .string (getDate environment.now).bytes) <:+: text.bytes ∧
          ∀ other : Environment, other.hostname = hostname →
            (forwardedText other json = some text ↔
              getDate other.now = getDate environment.now) := by
  refine ⟨not_clockFree_of_request request hostname, ?_⟩
  rintro environment text rfl forwarded
  obtain ⟨sent, send, decoded⟩ := decoded_at_any_time request
  rw [forwardedText_eq send decoded] at forwarded
  split at forwarded
  next inside =>
    cases forwarded
    constructor
    · obtain ⟨front, back, bytes⟩ := bytes_relayed environment.hostname sent
      rw [bytes]
      exact ⟨front, back, rfl⟩
    · intro other same
      rw [forwardedText_eq send decoded, same, if_pos inside, Option.some_inj]
      exact relayed_inj
  next => contradiction

private theorem validText_sampleSend : ValidText (sampleSend 5) where
  id := by decide
  msg := by decide +kernel
  date := fun dated => by contradiction

private theorem undatedSend_sampleSend : UndatedSend (convertDatastructToChar (sampleSend 5)) :=
  ⟨_, parse_convertDatastructToChar validText_sampleSend, rfl, sampleTime, _,
    decode_encode validText_sampleSend sampleTime, rfl⟩

theorem not_clockFree_sampleSend :
    ¬ ClockFree sampleEnvironment.hostname (convertDatastructToChar (sampleSend 5)) :=
  (not_clockFree sampleEnvironment.hostname _ undatedSend_sampleSend).1

/-- One second makes two texts of one request. -/
theorem clock_is_sent_along :
    forwardedText (daemonAt sampleEnvironment.hostname sampleTime)
        (convertDatastructToChar (sampleSend 5)) ≠
      forwardedText (daemonAt sampleEnvironment.hostname laterTime)
        (convertDatastructToChar (sampleSend 5)) ∧
    ¬ ClockFree sampleEnvironment.hostname (convertDatastructToChar (sampleSend 5)) := by
  refine ⟨?_, not_clockFree_of_request undatedSend_sampleSend _⟩
  have decoded (now : Tm) :
      convertStringToDatastruct (convertDatastructToChar (sampleSend 5)) now =
        .ok (some { sampleSend 5 with date := getDate now }) :=
    decode_encode validText_sampleSend now
  have inside : sampleEnvironment.hostname.length ≤ (sampleSend 5).id.length := by decide
  intro same
  rw [forwardedText_eq rfl decoded, forwardedText_eq rfl decoded] at same
  simp only [daemonAt, inside, if_true, Option.some_inj] at same
  exact getDate_laterTime (relayed_inj.mp same)

end Torchat.Daemon
