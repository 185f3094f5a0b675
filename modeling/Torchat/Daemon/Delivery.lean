import Torchat.Daemon.Handling
import Torchat.Daemon.Unread

/-!
Contract: the text of a stored message, from the frame that brings it to the
reply that hands it out.

Owns the way of the text through decoder, store, reply and encoder, whatever
other commands are handled in between.

Does not own the order of the messages; see `QueueTable`.
-/

set_option autoImplicit false

namespace Torchat.Daemon

open Torchat.Foundation
open Torchat.Json

/-- The text of a reply is an object with these members. -/
structure Announces (reply : DataWrapper) (cmd msg date : Bytes) : Prop where
  cmd : textMember (convertDatastructToChar reply) (ascii "cmd") = some cmd
  msg : textMember (convertDatastructToChar reply) (ascii "msg") = some msg
  date : textMember (convertDatastructToChar reply) (ascii "date") = some date

theorem announces_of_recv {reply : DataWrapper} (valid : ValidText reply)
    (recv : reply.cmd = .recv) :
    Announces reply (ascii "RECV") reply.msg.bytes reply.date.bytes := by
  have dated : carriesDate reply.cmd = true := by
    rw [recv]
    rfl
  have parsed := parse_convertDatastructToChar valid
  rw [jsonMembers_eq, if_pos dated, recv] at parsed
  exact ⟨textMember_of_parse parsed rfl, textMember_of_parse parsed rfl,
    textMember_of_parse parsed rfl⟩

section Run

variable {before after : List Request} {recv : Request} {store : Store}
  {trace : List (Request × List Effect)} {reply : DataWrapper}

/-- The reply that hands out a stored message is about the peer, and hands out
what was stored. -/
private theorem stored_of_delivery (isRecv : recv.data.cmd = .recv)
    (ran : run Store.empty (before ++ recv :: after) = .ok (store, trace))
    (delivered : (deliveries recv.data.id trace)[(storedFor recv.data.id before).length]? =
      some reply) :
    reply.id = recv.data.id ∧ reply.stored =
      { content := recv.data.msg, date := getShortDate recv.environment.now, cmd := .recv } := by
  obtain ⟨popped, about⟩ := (refines_of_run ran).2.2 recv.data.id
  refine ⟨about reply (List.mem_of_getElem? delivered), ?_⟩
  obtain ⟨stored, isStored⟩ : ∃ stored : Stored, stored =
      { content := recv.data.msg, date := getShortDate recv.environment.now, cmd := .recv } :=
    ⟨_, rfl⟩
  have operations : ops (before ++ recv :: after) =
      ops before ++ .push recv.data.id stored :: ops after := by
    simp [ops, Request.op, isRecv, isStored]
  have place : (storedFor recv.data.id before).length =
      (QueueTable.pushed recv.data.id (ops before)).length := by
    rw [← storedFor_eq, List.length_map]
  rw [operations] at popped
  have handedOut : (QueueTable.popped recv.data.id QueueTable.empty
      (ops before ++ .push recv.data.id stored :: ops after))[
        (QueueTable.pushed recv.data.id (ops before)).length]? = some reply.stored := by
    rw [← popped, ← place, List.getElem?_map, delivered]
    rfl
  rw [← isStored]
  exact QueueTable.popped_of_push handedOut

end Run

/-- A stored message comes out as it went in, up to the first NUL of its text: the
reply that hands it out has the text, the command RECV and the time at which the
message was stored. Messages of a peer are handed out in the order in which they
were stored. -/
theorem delivered_as_received (before after : List Request) (recv : Request)
    (accepted : recv.Accepted) (isRecv : recv.data.cmd = .recv)
    (msg : Bytes) (isText : textMember recv.json (ascii "msg") = some msg)
    (store : Store) (trace : List (Request × List Effect))
    (ran : run Store.empty (before ++ recv :: after) = .ok (store, trace)) (reply : DataWrapper)
    (delivered : (deliveries recv.data.id trace)[(storedFor recv.data.id before).length]? =
      some reply) :
    Announces reply (ascii "RECV") (msg.takeWhile (· ≠ 0))
      (getShortDate recv.environment.now).bytes := by
  obtain ⟨about, stored⟩ := stored_of_delivery isRecv ran delivered
  obtain ⟨id, content, _⟩ := validText_of_decoded accepted.2
  have replyMsg : reply.msg = recv.data.msg := congrArg Stored.content stored
  have replyDate : reply.date = getShortDate recv.environment.now := congrArg Stored.date stored
  have replyCmd : reply.cmd = .recv := congrArg Stored.cmd stored
  have valid : ValidText reply := by
    refine ⟨?_, ?_, fun _ => ?_⟩
    · rw [about]
      exact id
    · rw [replyMsg]
      exact content
    · rw [replyDate]
      exact validUtf8_getShortDate _
  have announces := announces_of_recv valid replyCmd
  rw [replyMsg, replyDate, msg_of_decoded accepted.2 isText] at announces
  exact announces

/-- A message from alice, with the text that it was read from. -/
def sampleArrival (msg : String) : Request :=
  { sampleRecv "alice" msg with json := convertDatastructToChar (sampleRecv "alice" msg).data }

theorem delivered_as_received_hi :
    ∃ store trace reply,
      run Store.empty [sampleArrival "hi", sampleUpdate "alice" 0] = .ok (store, trace) ∧
      deliveries (CString.literal "alice") trace = [reply] ∧
      Announces reply (ascii "RECV") (ascii "hi") (getShortDate sampleTime).bytes := by
  have valid : ValidText (sampleArrival "hi").data := ⟨by decide, by decide, fun _ => by decide⟩
  have accepted : (sampleArrival "hi").Accepted :=
    ⟨by decide +kernel, decode_encode valid sampleTime⟩
  have isText : textMember (sampleArrival "hi").json (ascii "msg") = some (ascii "hi") :=
    textMember_of_parse (parse_convertDatastructToChar valid) rfl
  refine ⟨_, _, _, rfl, rfl, ?_⟩
  exact delivered_as_received [] [sampleUpdate "alice" 0] (sampleArrival "hi") accepted rfl
    (ascii "hi") isText _ _ rfl _ rfl

/-- The text of a message with an escaped NUL between two letters. -/
def sampleNul : CString :=
  CString.literal
    "\x7b\"cmd\":\"RECV\",\"id\":\"alice\",\"msg\":\"a\\u0000b\",\"portno\":0\x7d"

/-- It is read as alice's message of one letter. -/
def sampleCut : Request :=
  { sampleArrival "a" with
    json := sampleNul
    data := { (sampleArrival "a").data with date := getDate sampleTime } }

/-- The answer to an update for alice behind it. -/
def cutReply : DataWrapper :=
  updateReply (sampleUpdate "alice" 0).data
    (some { content := CString.literal "a", date := getShortDate sampleTime, cmd := .recv })

theorem nul_cuts_the_text :
    sampleCut.Accepted ∧ sampleCut.data.cmd = .recv ∧ sampleCut.data.id.length ≤ 29 ∧
      textMember sampleCut.json (ascii "msg") = some [0x61, 0, 0x62] ∧
      ∃ store trace reply,
        run Store.empty [sampleCut, sampleUpdate "alice" 0] = .ok (store, trace) ∧
        deliveries sampleCut.data.id trace = [reply] ∧
        textMember (convertDatastructToChar reply) (ascii "msg") = some [0x61] ∧
        ¬ Announces reply (ascii "RECV") [0x61, 0, 0x62] (getShortDate sampleTime).bytes := by
  have decoded : convertStringToDatastruct sampleNul sampleTime = .ok (some sampleCut.data) := by
    decide +kernel
  have isText : textMember sampleNul (ascii "msg") = some [0x61, 0, 0x62] := by decide +kernel
  have short : sampleNul.length ≤ 511 := by decide
  have announces : Announces cutReply (ascii "RECV") [0x61] (getShortDate sampleTime).bytes :=
    announces_of_recv ⟨by decide, by decide, fun _ => by decide⟩ rfl
  refine ⟨⟨short, decoded⟩, rfl, by decide, isText, _, _, cutReply, rfl, rfl, announces.msg, ?_⟩
  intro whole
  have texts := announces.msg.symm.trans whole.msg
  exact absurd texts (by decide)

end Torchat.Daemon
