import Torchat.Daemon.Relay

/-!
Contract: the two buffers that an id is copied into.

The id of a message comes from its sender, is copied into thirty bytes of a
peer's record and is the key under which the message is found; the id of a
request to send is overwritten by the host name. Owns the reading of stored
messages, and which ids keep the copies inside.

Does not own the store and the commands; see `Datastruct` and `Actions`.
-/

set_option autoImplicit false

namespace Torchat.Daemon

open Torchat.Foundation
open Torchat.Json

/-! ## Reading what was stored -/

/-- A call of `get_unread_message`; its caller reads the message and frees it. -/
def takeUnread (store : Store) (id : CString) : Except Fault (Option Message × Store) := do
  let (msg, store) ← getUnreadMessage store id
  match msg with
  | none => .ok (none, store)
  | some address => do
      let message ← loadMessage store.messages address
      let messages ← freeMessage store.messages address
      .ok (some message, { store with messages := messages })

/-- What a call finds behind a number of earlier ones. -/
def unreadBehind (id : CString) : Nat → Store → Except Fault (Option Message)
  | 0, store => (takeUnread store id).map Prod.fst
  | earlier + 1, store => do
      let (_, store) ← takeUnread store id
      unreadBehind id earlier store

/-- `new_peer` writes the id into its array and terminates it there; behind
`store_msg` the peer exists, and `get_unread_message` finds the message behind
those that waited before. -/
structure StoresInside (store : Store) (data : DataWrapper) (now : Tm) : Prop where
  record : ∃ peer, newPeer data.id = .ok peer ∧ peer.id.read = some data.id
  stored : ∃ after earlier message,
    storeMsg store data now = .ok after ∧ peerExist after data.id = true ∧
      queued store data.id = some earlier ∧
      unreadBehind data.id earlier.length after = .ok (some message) ∧
      message.stored = { content := data.msg, date := getShortDate now, cmd := data.cmd }

section Reading

variable {store : Store} {table : UnreadTable} {id : CString}

theorem takeUnread_refines (refines : Refines store table) {oldest : Stored}
    {later : List Stored} (queue : table.lookup id = oldest :: later) :
    ∃ message after, takeUnread store id = .ok (some message, after) ∧
      message.stored = oldest ∧ Refines after (table.pop id) := by
  have present : id ∈ table.keys := by
    rw [table.mem_keys_iff, queue]
    exact List.cons_ne_nil _ _
  obtain ⟨first, rest, after, retMsg, copy, lookup, handedOut, loaded, same, freed⟩ :=
    refines.getUnreadMessage_of_mem present
  obtain ⟨messages, released, _, _, _⟩ := Heap.free_of_load loaded
  rw [queue] at lookup
  cases lookup
  refine ⟨copy, { after with messages := messages }, ?_, same, freed messages released⟩
  simp only [takeUnread, handedOut, loadMessage, loaded, freeMessage, released, bind, Except.bind]

/-- The messages of a peer are found one behind the other. -/
theorem unreadBehind_refines (refines : Refines store table) {earlier later : List Stored}
    {stored : Stored} (queue : table.lookup id = earlier ++ stored :: later) :
    ∃ message, unreadBehind id earlier.length store = .ok (some message) ∧
      message.stored = stored := by
  induction earlier generalizing store table with
  | nil =>
      obtain ⟨message, after, taken, same, _⟩ := takeUnread_refines refines queue
      refine ⟨message, ?_, same⟩
      simp only [List.length_nil, unreadBehind, taken, Except.map]
  | cons oldest rest inductionHypothesis =>
      obtain ⟨_, after, taken, _, refined⟩ := takeUnread_refines refines queue
      have queueAfter : (table.pop id).lookup id = rest ++ stored :: later := by
        rw [QueueTable.lookup_pop, if_pos rfl, queue]
        rfl
      obtain ⟨message, found, same⟩ := inductionHypothesis refined queueAfter
      refine ⟨message, ?_, same⟩
      simp only [List.length_cons, unreadBehind, taken, bind, Except.bind]
      exact found

end Reading

/-! ## The array -/

theorem newPeer_read_of_short {id : CString} (fits : id.length ≤ 29) :
    ∃ peer, newPeer id = .ok peer ∧ peer.id.read = some id := by
  have read := CharArray.read_overwrite_zeroed (Nat.lt_succ_of_le fits)
  obtain ⟨array, copied, readBack⟩ := Option.bind_eq_some_iff.mp read
  refine ⟨{ id := array, msg := none }, ?_, readBack⟩
  rw [newPeer, copied]

/-- In every reachable store a message is stored inside its record exactly where
its id leaves room for a terminator. -/
theorem storesInside_iff (store : Store) (reachable : Reachable store) (data : DataWrapper)
    (now : Tm) : StoresInside store data now ↔ data.id.length ≤ 29 := by
  obtain ⟨table, refines, _⟩ := reachable.refines
  constructor
  · rintro ⟨_, after, _, _, stored, _⟩
    by_contra long
    rw [storeMsg_of_long refines (Nat.lt_of_not_le long)] at stored
    contradiction
  · intro fits
    obtain ⟨after, stored, refined⟩ := storeMsg_refines refines fits now
    have queue := QueueTable.lookup_push table data.id data.id
      { content := data.msg, date := getShortDate now, cmd := data.cmd }
    rw [if_pos rfl] at queue
    obtain ⟨message, found, same⟩ := unreadBehind_refines refined queue
    refine ⟨newPeer_read_of_short fits, after, _, message, stored, ?_, refines.queued data.id, ?_,
      same⟩
    · rw [refined.peerExist_iff, QueueTable.mem_keys_iff, queue]
      exact List.append_ne_nil_of_right_ne_nil _ (List.cons_ne_nil _ _)
    · rw [List.length_map]
      exact found

/-- A message under an id of so many letters. -/
def sampleLetters (length : Nat) : DataWrapper where
  cmd := .recv
  id := CString.ofBytes (List.replicate length 0x61)
  portno := 80
  msg := CString.literal "hi"
  date := CString.literal "now"

theorem storesInside_iff_letters :
    StoresInside Store.empty (sampleLetters 29) sampleTime :=
  (storesInside_iff Store.empty ⟨[], [], rfl⟩ (sampleLetters 29) sampleTime).mpr (by decide)

/-- An id of thirty letters arrives in a frame and leaves its array without a
terminator. -/
theorem full_record_has_no_terminator :
    ∃ rc text data peer,
      parseConnection streamKernel 0 1 sampleTime
        (frame (convertDatastructToChar (sampleLetters 30)).bytes) =
          some (.ok (.message rc text data)) ∧
      data.cmd = .recv ∧ newPeer data.id = .ok peer ∧ peer.id.read = none ∧
      ¬ StoresInside Store.empty data sampleTime := by
  have valid : ValidText (sampleLetters 30) := ⟨by decide +kernel, by decide, fun _ => by decide⟩
  have short : (convertDatastructToChar (sampleLetters 30)).bytes.length ≤ 511 := by
    decide +kernel
  refine ⟨_, _, _, _, parseConnection_of_encoded streamKernel_delivers valid short
    (List.append_nil _).symm (Nat.le_refl 1) 0 sampleTime, rfl, rfl, rfl, ?_⟩
  rintro ⟨⟨peer, made, read⟩, _⟩
  cases made
  contradiction

/-! ## The block of a request -/

/-- `send_routine` with the id of its request in the block that the decoder has
allocated: what it sends and replies has the id that is read from there. -/
def sendInBlock (environment : Environment) (data : DataWrapper) : Except Fault (List Effect) :=
  match (CharArray.strdup data.id).strcpy environment.hostname with
  | none => .error .outOfBounds
  | some block =>
      match block.read with
      | none => .error .outOfBounds
      | some id => .ok (sendRoutine { environment with hostname := id } data)

theorem sendInBlock_eq (environment : Environment) (data : DataWrapper) :
    sendInBlock environment data =
      if environment.hostname.length ≤ data.id.length then .ok (sendRoutine environment data)
      else .error .outOfBounds := by
  have overruns := CharArray.strcpy_eq_none_iff (CharArray.strdup data.id) environment.hostname
  unfold sendInBlock
  cases copied : (CharArray.strdup data.id).strcpy environment.hostname with
  | none =>
      have long := overruns.mp copied
      rw [if_neg (by omega)]
  | some block =>
      have room : environment.hostname.length ≤ data.id.length := by
        by_contra long
        rw [overruns.mpr (by omega)] at copied
        contradiction
      simp only [CharArray.read_strcpy copied, if_pos room]

/-- The block is overrun exactly where nothing is known of what is relayed. -/
theorem sendInBlock_ok_iff (environment : Environment) (data : DataWrapper) :
    sendInBlock environment data = .ok (sendRoutine environment data) ↔
      (relayedText (sendRoutine environment data)).isSome := by
  rw [sendInBlock_eq, relayedText_sendRoutine]
  split <;> simp

/-- The copy of the host name stays in the block of the id, and with any outcome
of the sending the frame and the reply are those of `send_routine`. -/
structure RelaysInside (hostname : CString) (data : DataWrapper) : Prop where
  copied : ∃ block, (CharArray.strdup data.id).strcpy hostname = some block ∧
    block.read = some hostname
  intact : ∀ environment : Environment, environment.hostname = hostname →
    sendInBlock environment data = .ok (sendRoutine environment data)

/-- The copy stays inside exactly where the host name is not longer than the id. -/
theorem relaysInside_iff (hostname : CString) (data : DataWrapper) :
    RelaysInside hostname data ↔ hostname.length ≤ data.id.length := by
  have overruns := CharArray.strcpy_eq_none_iff (CharArray.strdup data.id) hostname
  constructor
  · rintro ⟨⟨block, copied, _⟩, _⟩
    by_contra long
    rw [overruns.mpr (by omega)] at copied
    contradiction
  · intro short
    cases copied : (CharArray.strdup data.id).strcpy hostname with
    | none =>
        have long := overruns.mp copied
        omega
    | some block =>
        refine ⟨⟨block, copied, CharArray.read_strcpy copied⟩, ?_⟩
        rintro environment rfl
        rw [sendInBlock_eq, if_pos short]

/-- A request to send to a host with a short name. -/
def sampleShortId : DataWrapper := { sampleSend 5 with id := CString.literal "bob" }

/-- It is accepted, and the host name of the daemon is copied over the end of
the four bytes of its id. -/
theorem short_id_is_overrun :
    ∃ rc text data,
      parseConnection streamKernel 0 1 sampleEnvironment.now
        (frame (convertDatastructToChar sampleShortId).bytes) =
          some (.ok (.message rc text data)) ∧
      data.cmd = .send ∧
      (CharArray.strdup data.id).strcpy sampleEnvironment.hostname = none ∧
      ¬ RelaysInside sampleEnvironment.hostname data := by
  have valid : ValidText sampleShortId :=
    ⟨by decide, by decide +kernel, fun dated => by contradiction⟩
  have short : (convertDatastructToChar sampleShortId).bytes.length ≤ 511 := by decide +kernel
  refine ⟨_, _, _, parseConnection_of_encoded streamKernel_delivers valid short
    (List.append_nil _).symm (Nat.le_refl 1) 0 sampleEnvironment.now, rfl, rfl, ?_⟩
  rintro ⟨⟨block, copied, _⟩, _⟩
  contradiction

end Torchat.Daemon
