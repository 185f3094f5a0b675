import Torchat.Foundation.Heap
import Torchat.Daemon.Util

/-!
Contract: the unread-message store of `datastruct.c`.

Owns the peers, their message lists in the heap and every operation on them, as
the code performs it: lists are followed pointer by pointer, and an access that
the language does not define is a fault.

Does not own what the store is for; see `StoreRefinement`.
-/

set_option autoImplicit false

namespace Torchat.Daemon

open Torchat.Foundation

/-- `enum command`. -/
inductive Command where
  | send
  | recv
  | update
  | getPeers
  | host
  | end_
  | err
  | exit
deriving DecidableEq, Repr

/-- `struct data_wrapper`. -/
structure DataWrapper where
  cmd : Command
  id : CString
  portno : Int32
  msg : CString
  date : CString
deriving DecidableEq

/-- `struct message`. -/
structure Message where
  content : CString
  date : CString
  cmd : Command
  next : Option Address
  prev : Option Address
deriving DecidableEq

/-- `struct peer`. -/
structure Peer where
  id : CharArray 30
  msg : Option Address
deriving DecidableEq

/-- The hash table and the heap of messages. The table holds its peers in the
order of insertion, each with the key under which it was added. -/
structure Store where
  head : List (CString × Peer)
  messages : Heap Message

def Store.empty : Store where
  head := []
  messages := Heap.empty

/-! ## The hash table -/

/-- `HASH_FIND_STR`. -/
def hashFind (id : CString) : List (CString × Peer) → Option Peer
  | [] => none
  | entry :: rest => if entry.1 = id then some entry.2 else hashFind id rest

/-- `HASH_DEL` of the peer found under `id`. -/
def hashDel (id : CString) : List (CString × Peer) → List (CString × Peer)
  | [] => []
  | entry :: rest => if entry.1 = id then rest else entry :: hashDel id rest

/-- An assignment to `msg` of the peer found under `id`. -/
def setMsg (id : CString) (msg : Option Address) : List (CString × Peer) → List (CString × Peer)
  | [] => []
  | entry :: rest =>
      if entry.1 = id then (entry.1, { entry.2 with msg := msg }) :: rest
      else entry :: setMsg id msg rest

def readId (peer : Peer) : Except Fault CString :=
  match peer.id.read with
  | some id => .ok id
  | none => .error .outOfBounds

/-! ## Peers -/

/-- `new_peer`: the id is copied without its terminator into a zeroed array. -/
def newPeer (id : CString) : Except Fault Peer :=
  match (CharArray.zeroed 30).overwrite id.bytes with
  | some array => .ok { id := array, msg := none }
  | none => .error .outOfBounds

/-- `insert_peer`: the key is as long as `strlen` finds the copied id to be. -/
def insertPeer (store : Store) (onion : CString) : Except Fault Store := do
  let new ← newPeer onion
  let key ← readId new
  .ok { store with head := store.head ++ [(key, new)] }

def getPeer (store : Store) (id : CString) : Option Peer := hashFind id store.head

def peerExist (store : Store) (id : CString) : Bool := (getPeer store id).isSome

/-! ## Messages -/

def loadMessage (messages : Heap Message) (address : Address) : Except Fault Message :=
  match messages.load address with
  | some message => .ok message
  | none => .error .danglingPointer

def storeMessage (messages : Heap Message) (address : Address) (message : Message) :
    Except Fault (Heap Message) :=
  match messages.store address message with
  | some messages => .ok messages
  | none => .error .danglingPointer

/-- `new_message`. -/
def newMessage (messages : Heap Message) (content date : CString) (cmd : Command) :
    Address × Heap Message :=
  messages.alloc { content := content, date := date, cmd := cmd, next := none, prev := none }

/-- `get_tail`. Its loop takes one of `fuel` for each message it passes; a list
that does not end within the allocated messages has no end. -/
def getTail (messages : Heap Message) : Nat → Address → Except Fault Address
  | 0, _ => .error .endlessLoop
  | fuel + 1, h => do
      let message ← loadMessage messages h
      match message.next with
      | none => .ok h
      | some next => getTail messages fuel next

/-- `insert_new_message`; `now` is the time that `get_short_date` reads. -/
def insertNewMessage (store : Store) (peerId content : CString) (cmd : Command) (now : Tm) :
    Except Fault Store :=
  let (newMsg, messages) := newMessage store.messages content (getShortDate now) cmd
  match getPeer store peerId with
  | none => .error .nullDereference
  | some p =>
      match p.msg with
      | none => .ok { head := setMsg peerId (some newMsg) store.head, messages := messages }
      | some first => do
          let tmp ← getTail messages messages.limit first
          let tail ← loadMessage messages tmp
          let messages ← storeMessage messages tmp { tail with next := some newMsg }
          let new ← loadMessage messages newMsg
          let messages ← storeMessage messages newMsg { new with prev := some tmp }
          .ok { store with messages := messages }

/-- `delete_message`: the head is freed and the list starts at its successor,
whose `prev` is left as it is. -/
def deleteMessage (messages : Heap Message) (msg : Address) :
    Except Fault (Option Address × Heap Message) := do
  let message ← loadMessage messages msg
  match messages.free msg with
  | some messages => .ok (message.next, messages)
  | none => .error .danglingPointer

/-- `delete_peer`. -/
def deletePeer (store : Store) (id : CString) : Except Fault Store :=
  match getPeer store id with
  | none => .error .nullDereference
  | some currentPeer =>
      match currentPeer.msg with
      | none => .ok { store with head := hashDel id store.head }
      | some msg =>
          match store.messages.free msg with
          | some messages => .ok { head := hashDel id store.head, messages := messages }
          | none => .error .danglingPointer

/-- `get_unread_message`: a copy of the oldest message of a peer, which leaves
its list; the last one takes the peer with it. -/
def getUnreadMessage (store : Store) (peerId : CString) :
    Except Fault (Option Address × Store) :=
  match getPeer store peerId with
  | none => .ok (none, store)
  | some currentPeer =>
      match currentPeer.msg with
      | none => .ok (none, store)
      | some msg => do
          let message ← loadMessage store.messages msg
          let (retMsg, messages) :=
            newMessage store.messages message.content message.date message.cmd
          let (next, messages) ← deleteMessage messages msg
          let store : Store := { head := setMsg peerId next store.head, messages := messages }
          match next with
          | some _ => .ok (some retMsg, store)
          | none => do
              let store ← deletePeer store peerId
              .ok (some retMsg, store)

/-! ## The list of peers -/

/-- `strncat` into a block of `capacity` bytes, with its terminator. -/
def strncat (capacity : Nat) (buffer source : Bytes) : Except Fault Bytes :=
  if (buffer ++ source).length < capacity then .ok (buffer ++ source) else .error .outOfBounds

/-- The first iteration of `get_peer_list`: room for every id and a comma. -/
def peerListSize : List (CString × Peer) → Except Fault Nat
  | [] => .ok 0
  | entry :: rest => do
      let id ← readId entry.2
      let size ← peerListSize rest
      .ok (id.length + 1 + size)

/-- The second iteration of `get_peer_list`. -/
def appendPeers (capacity : Nat) : Bytes → List (CString × Peer) → Except Fault Bytes
  | peerList, [] => .ok peerList
  | peerList, entry :: rest => do
      let id ← readId entry.2
      let peerList ← strncat capacity peerList id.bytes
      let peerList ← strncat capacity peerList (ascii ",")
      appendPeers capacity peerList rest

/-- `get_peer_list`; the last comma is overwritten by a terminator. -/
def getPeerList (store : Store) : Except Fault (Option CString) :=
  match store.head with
  | [] => .ok none
  | _ :: _ => do
      let size ← peerListSize store.head
      let peerList ← appendPeers (size + 1) [] store.head
      if peerList.length = 0 then .error .outOfBounds
      else .ok (some (CString.ofBytes peerList.dropLast))

/-! ## The table as an association list -/

section Table

variable {id : CString} {front back : List (CString × Peer)} {peer : Peer}

theorem hashFind_eq_none (absent : id ∉ front.map Prod.fst) : hashFind id front = none := by
  induction front with
  | nil => rfl
  | cons entry rest inductionHypothesis =>
      rw [List.map_cons, List.mem_cons, not_or] at absent
      rw [hashFind, if_neg (Ne.symm absent.1)]
      exact inductionHypothesis absent.2

theorem hashFind_split (first : id ∉ front.map Prod.fst) :
    hashFind id (front ++ (id, peer) :: back) = some peer := by
  induction front with
  | nil => simp [hashFind]
  | cons entry rest inductionHypothesis =>
      rw [List.map_cons, List.mem_cons, not_or] at first
      rw [List.cons_append, hashFind, if_neg (Ne.symm first.1)]
      exact inductionHypothesis first.2

theorem exists_split_of_hashFind {entries : List (CString × Peer)}
    (found : hashFind id entries = some peer) :
    ∃ front back, entries = front ++ (id, peer) :: back ∧ id ∉ front.map Prod.fst := by
  induction entries with
  | nil => contradiction
  | cons entry rest inductionHypothesis =>
      rw [hashFind] at found
      split at found
      next here =>
        cases found
        exact ⟨[], rest, by rw [← here]; rfl, List.not_mem_nil⟩
      next elsewhere =>
        obtain ⟨front, back, same, absent⟩ := inductionHypothesis found
        refine ⟨entry :: front, back, by rw [same]; rfl, ?_⟩
        rw [List.map_cons, List.mem_cons, not_or]
        exact ⟨Ne.symm elsewhere, absent⟩

theorem hashDel_split (first : id ∉ front.map Prod.fst) :
    hashDel id (front ++ (id, peer) :: back) = front ++ back := by
  induction front with
  | nil => simp [hashDel]
  | cons entry rest inductionHypothesis =>
      rw [List.map_cons, List.mem_cons, not_or] at first
      rw [List.cons_append, hashDel, if_neg (Ne.symm first.1), inductionHypothesis first.2]
      rfl

theorem setMsg_split (first : id ∉ front.map Prod.fst) (msg : Option Address) :
    setMsg id msg (front ++ (id, peer) :: back) =
      front ++ (id, { peer with msg := msg }) :: back := by
  induction front with
  | nil => simp [setMsg]
  | cons entry rest inductionHypothesis =>
      rw [List.map_cons, List.mem_cons, not_or] at first
      rw [List.cons_append, setMsg, if_neg (Ne.symm first.1), inductionHypothesis first.2]
      rfl

end Table

/-! ## Reading the store -/

/-- The contents of the messages that a walk from the head of a peer's list
finds; a peer that is not in the table has none. -/
def queued (store : Store) (id : CString) : Option (List CString) :=
  match getPeer store id with
  | none => some []
  | some peer =>
      (Heap.walk Message.next store.messages store.messages.limit peer.msg).map
        (List.map fun cell => cell.2.content)

/-- The message at the head of a peer's list. -/
def oldestUnread (store : Store) (id : CString) : Option Message :=
  (getPeer store id).bind fun peer => peer.msg.bind store.messages.load

end Torchat.Daemon
