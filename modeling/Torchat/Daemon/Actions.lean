import Torchat.Daemon.JsonHelper
import Torchat.Daemon.Torchatproto

/-!
Contract: the commands of `actions.c` and their dispatch in `event_routine`.

Owns the parsing of a connection, one handler for each command, and what a
handler does to the store and to the world outside.

Does not own the sockets: what a send comes to is part of the environment.
-/

set_option autoImplicit false

namespace Torchat.Daemon

open Torchat.Foundation
open Torchat.Json

/-- What a request meets outside the store: the host name of the daemon, the
local time, the return value of `send_over_tor` for its frame, or `none` where
the wait for the connecting thread does not end, and the return value of
`fd_send` on the connection of the client. -/
structure Environment where
  hostname : CString
  now : Tm
  sendOverTor : Option Int
  fdSend : Bytes → Int

/-- What a request does outside the store. A reply goes out as its JSON text. -/
inductive Effect where
  | logInfo (text : CString)
  | logErr (text : CString)
  | strcpy (block written : Nat)
  | sendOverTor (domain : CString) (portno : Int32) (buf : CString)
  | msend (reply : DataWrapper) (rc : Int)
deriving DecidableEq

/-- The return value of `torchatproto_msend` for the JSON text of a reply. -/
def Environment.msend (environment : Environment) (reply : DataWrapper) : Int :=
  (torchatprotoMsend (fun _ message => (environment.fdSend message, ())) ()
    (convertDatastructToChar reply).bytes).1

/-- The JSON text of a reply fits a frame, and `fd_send` takes the frame. -/
def Environment.Sends (environment : Environment) (reply : DataWrapper) : Prop :=
  (convertDatastructToChar reply).length ≤ 8188 ∧
    0 ≤ environment.fdSend (frame (convertDatastructToChar reply).bytes)

theorem Environment.msend_nonneg_iff (environment : Environment) (reply : DataWrapper) :
    0 ≤ environment.msend reply ↔ environment.Sends reply :=
  torchatprotoMsend_nonneg_iff () (convertDatastructToChar reply).bytes

/-- A reply to the client, whatever comes of it. -/
def Environment.answer (environment : Environment) (reply : DataWrapper) : Effect :=
  .msend reply (environment.msend reply)

/-! ## Parsing a connection -/

/-- What `parse_connection` finds: -1, a text that is no message (0), or a
message with the text that it was read from. -/
inductive Connection where
  | refused
  | invalid (json : CString)
  | message (rc : Int) (json : CString) (data : DataWrapper)
deriving DecidableEq

/-- `parse_connection` behind `torchatproto_mrecv`: the buffer is read up to its
first NUL. -/
def parseInbuf (rc : Int) (inbuf : Bytes) (now : Tm) : Except Fault Connection :=
  if rc = -1 then .ok .refused
  else if 0 ∉ inbuf then .error .outOfBounds
  else
    match convertStringToDatastruct (CString.ofBytes inbuf) now with
    | .error exception => .error (.uncaught exception)
    | .ok none => .ok (.invalid (CString.ofBytes inbuf))
    | .ok (some data) => .ok (.message rc (CString.ofBytes inbuf) data)

/-- The size of `inbuf`. -/
def inbufSize : Nat := 512

/-- `parse_connection`; `none` while the receiving loop goes on. -/
def parseConnection {σ : Type} (kernel : Kernel σ) (deadline : Int) (fuel : Nat) (now : Tm)
    (state : σ) : Option (Except Fault Connection) :=
  match torchatprotoMrecv kernel inbufSize deadline fuel (List.replicate inbufSize 0) state with
  | .returned rc inbuf _ => some (parseInbuf rc inbuf now)
  | .assertFailed _ => some (.error .assertionFailed)
  | .pending _ _ => none

/-! ## Handlers -/

/-- `get_tor_error`. -/
def getTorError (torError : Int8) : CString :=
  CString.literal
    (if torError = 1 then "general SOCKS server failure"
    else if torError = 2 then "connection not allowed by ruleset"
    else if torError = 3 then "Network unreachable"
    else if torError = 4 then "Host unreachable"
    else if torError = 5 then "Connection refused"
    else if torError = 6 then "TTL expired"
    else if torError = 7 then "Command not supported"
    else if torError = 8 then "Address type not supported"
    else if torError = 9 then "Could not send message. Is TOR running?"
    else if torError = 10 then "Failed handshake with TOR."
    else "TOR couldn't send the message")

/-- The static variable `torError`, to which nothing assigns. -/
def torError : Int8 := 0

/-- The message that `send_routine` makes of a request. -/
def relayed (hostname : CString) (data : DataWrapper) : DataWrapper :=
  { data with cmd := .recv, id := hostname }

/-- `send_routine`. The host name is copied over the id, into a block that the
decoder allocated for the id of the request. The effect tells whether it stays
there; if it does not, nothing is known of the effects behind it, which
`relayedText` and `sendInBlock` drop. -/
def sendRoutine (environment : Environment) (data : DataWrapper) : List Effect :=
  let message := relayed environment.hostname data
  let buf := convertDatastructToChar message
  Effect.strcpy (data.id.length + 1) (environment.hostname.length + 1) ::
    Effect.sendOverTor data.id data.portno buf ::
    match environment.sendOverTor with
    | none => []
    | some ret =>
        if 0 ≤ ret then
          let reply : DataWrapper := { message with cmd := .end_, msg := CString.empty }
          [.logInfo (convertDatastructToChar reply), environment.answer reply]
        else
          let reply : DataWrapper := { message with cmd := .err, msg := getTorError torError }
          [.logErr (convertDatastructToChar reply), environment.answer reply]

/-- `store_msg`. -/
def storeMsg (store : Store) (data : DataWrapper) (now : Tm) : Except Fault Store := do
  let store ← if peerExist store data.id then .ok store else insertPeer store data.id
  insertNewMessage store data.id data.msg data.cmd now

def freeMessage (messages : Heap Message) (address : Address) : Except Fault (Heap Message) :=
  match messages.free address with
  | some messages => .ok messages
  | none => .error .danglingPointer

/-- `client_update`. The message has left the store before the reply is sent,
and the result of sending it is not looked at. -/
def clientUpdate (environment : Environment) (store : Store) (data : DataWrapper) :
    Except Fault (Store × List Effect) := do
  let data := { data with id := data.msg }
  let (msg, store) ← getUnreadMessage store data.msg
  match msg with
  | none =>
      let reply := { data with cmd := .end_ }
      .ok (store, [environment.answer reply])
  | some address => do
      let message ← loadMessage store.messages address
      let reply := { data with msg := message.content, cmd := message.cmd, date := message.date }
      let messages ← freeMessage store.messages address
      .ok ({ store with messages := messages }, [environment.answer reply])

/-- `send_hostname_to_client`. -/
def sendHostnameToClient (environment : Environment) (data : DataWrapper) : List Effect :=
  let reply := { data with msg := environment.hostname }
  [environment.answer reply]

/-- `send_peer_list_to_client`. -/
def sendPeerListToClient (environment : Environment) (store : Store) (data : DataWrapper) :
    Except Fault (List Effect) := do
  let peerList ← getPeerList store
  let reply := { data with msg := peerList.getD CString.empty }
  .ok [environment.answer reply]

/-! ## Dispatch -/

/-- What a request leaves behind. -/
structure Outcome where
  store : Store
  effects : List Effect
  exitFlag : Bool

/-- The switch of `event_routine`, for a message `data` read from `json`. -/
def dispatch (environment : Environment) (store : Store) (json : CString) (data : DataWrapper) :
    Except Fault Outcome :=
  match data.cmd with
  | .exit => .ok { store := store, effects := [.logInfo json], exitFlag := true }
  | .recv => do
      let store ← storeMsg store data environment.now
      .ok { store := store, effects := [.logInfo json], exitFlag := false }
  | .send =>
      .ok { store := store, effects := .logInfo json :: sendRoutine environment data,
            exitFlag := false }
  | .update => do
      let (store, effects) ← clientUpdate environment store data
      .ok { store := store, effects := effects, exitFlag := false }
  | .getPeers => do
      let effects ← sendPeerListToClient environment store data
      .ok { store := store, effects := effects, exitFlag := false }
  | .host =>
      .ok { store := store, effects := sendHostnameToClient environment data, exitFlag := false }
  | .end_ | .err => .ok { store := store, effects := [], exitFlag := false }

/-- A dispatched message with what it meets. -/
structure Request where
  environment : Environment
  json : CString
  data : DataWrapper

def Request.dispatch (request : Request) (store : Store) : Except Fault Outcome :=
  Daemon.dispatch request.environment store request.json request.data

/-- Requests one after the other, with the effects of each. A copy over the end of a
block (`Effect.strcpy`) ends neither a request nor a run: both go on behind it as if the
block had room. -/
def run : Store → List Request → Except Fault (Store × List (Request × List Effect))
  | store, [] => .ok (store, [])
  | store, request :: rest => do
      let outcome ← request.dispatch store
      let (store, trace) ← run outcome.store rest
      .ok (store, (request, outcome.effects) :: trace)

end Torchat.Daemon
