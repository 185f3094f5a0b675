import Torchat.Uthash.Runs
import Torchat.Daemon.Dispatch

/-!
Contract: `datastruct.c` over the hash table of `uthash.h`.

Owns the same operations as `Datastruct`, with the peers as elements of a hash table
that are found, linked and deleted pointer by pointer, the handlers and the dispatch
over them, and the release of everything when the daemon ends.

Does not own the reason why this makes no difference; see `HashedRefinement`.
-/

set_option autoImplicit false

namespace Torchat.Daemon

open Torchat.Foundation
open Torchat.Uthash hiding hashFind

/-- The static variable `head` with the peers and messages in memory. -/
structure HashedStore where
  peers : Hash Peer
  messages : Heap Message

namespace HashedStore

def empty : HashedStore where
  peers := Hash.empty
  messages := Heap.empty

/-! ## Peers -/

/-- `insert_peer`: `HASH_ADD_STR` on the id in the new peer. -/
def insertPeer (store : HashedStore) (onion : CString) : Except Fault HashedStore := do
  let new ← newPeer onion
  let (add, elements) := store.peers.elements.alloc { value := new, hh := UTHashHandle.zero }
  let key ← readId new
  let peers ← hashAddKeyptr { store.peers with elements := elements } key.bytes add
  .ok { store with peers := peers }

/-- `get_peer`: `HASH_FIND_STR`. -/
def getPeer (store : HashedStore) (id : CString) : Except Fault (Option Address) :=
  Uthash.hashFind store.peers id.bytes

/-- `peer_exist`. -/
def peerExist (store : HashedStore) (id : CString) : Except Fault Bool := do
  let p ← store.getPeer id
  .ok p.isSome

/-- The fields of a peer, read through a pointer to it. -/
def loadPeer (store : HashedStore) (p : Address) : Except Fault Peer := do
  let element ← loadElement store.peers.elements p
  .ok element.value

/-- An assignment to `msg` of a peer. -/
def setMsg (store : HashedStore) (p : Address) (msg : Option Address) :
    Except Fault HashedStore := do
  let elements ← updateElement store.peers.elements p fun element =>
    { element with value := { element.value with msg := msg } }
  .ok { store with peers := { store.peers with elements := elements } }

/-- `delete_peer`. The peer itself is not released. -/
def deletePeer (store : HashedStore) (currentPeer : Address) : Except Fault HashedStore := do
  let peers ← hashDelete store.peers currentPeer
  let store : HashedStore := { store with peers := peers }
  let peer ← store.loadPeer currentPeer
  match peer.msg with
  | none => .ok store
  | some msg => do
      let messages ← freeMessage store.messages msg
      .ok { store with messages := messages }

/-! ## Messages -/

/-- `insert_new_message`. -/
def insertNewMessage (store : HashedStore) (peerId content : CString) (cmd : Command) (now : Tm) :
    Except Fault HashedStore := do
  let p ← store.getPeer peerId
  let (newMsg, messages) := newMessage store.messages content (getShortDate now) cmd
  match p with
  | none => .error .nullDereference
  | some p => do
      let peer ← store.loadPeer p
      match peer.msg with
      | none => do
          let store ← store.setMsg p (some newMsg)
          .ok { store with messages := messages }
      | some first => do
          let tmp ← getTail messages messages.limit first
          let tail ← loadMessage messages tmp
          let messages ← storeMessage messages tmp { tail with next := some newMsg }
          let new ← loadMessage messages newMsg
          let messages ← storeMessage messages newMsg { new with prev := some tmp }
          .ok { store with messages := messages }

/-- `get_unread_message`. -/
def getUnreadMessage (store : HashedStore) (peerId : CString) :
    Except Fault (Option Address × HashedStore) := do
  match ← store.getPeer peerId with
  | none => .ok (none, store)
  | some currentPeer => do
      let peer ← store.loadPeer currentPeer
      match peer.msg with
      | none => .ok (none, store)
      | some msg => do
          let message ← loadMessage store.messages msg
          let (retMsg, messages) :=
            newMessage store.messages message.content message.date message.cmd
          let (next, messages) ← deleteMessage messages msg
          let store ← store.setMsg currentPeer next
          let store : HashedStore := { store with messages := messages }
          match next with
          | some _ => .ok (some retMsg, store)
          | none => do
              let store ← store.deletePeer currentPeer
              .ok (some retMsg, store)

/-! ## The list of peers -/

/-- The peers that `HASH_ITER` visits, each with its key. -/
def iterPeers (store : HashedStore) : List Address → Except Fault (List (CString × Peer))
  | [] => .ok []
  | ptr :: rest => do
      let element ← loadElement store.peers.elements ptr
      let peers ← store.iterPeers rest
      .ok ((CString.ofBytes element.hh.key, element.value) :: peers)

/-- `get_peer_list`: the two iterations see the same peers. -/
def getPeerList (store : HashedStore) : Except Fault (Option CString) :=
  match store.peers.head with
  | none => .ok none
  | some _ => do
      let order ← hashIter store.peers
      let peers ← store.iterPeers order
      let size ← peerListSize peers
      let peerList ← appendPeers (size + 1) [] peers
      if peerList.length = 0 then .error .outOfBounds
      else .ok (some (CString.ofBytes peerList.dropLast))

/-! ## The end -/

/-- The loop of `clear_datastructs`. `tmp` is the element behind `ptr`, read before
`ptr` is deleted; the loop takes one of `fuel` for each peer. -/
def clearLoop : Nat → HashedStore → Option Address → Option Address → Except Fault HashedStore
  | _, store, none, _ => .ok store
  | 0, _, some _, _ => .error .endlessLoop
  | fuel + 1, store, some ptr, tmp => do
      let store ← store.deletePeer ptr
      match tmp with
      | none => .ok store
      | some next => do
          let element ← loadElement store.peers.elements next
          clearLoop fuel store (some next) element.hh.next

/-- `clear_datastructs`. -/
def clearDatastructs (store : HashedStore) : Except Fault HashedStore :=
  match store.peers.head with
  | none => .ok store
  | some (head, _) => do
      let element ← loadElement store.peers.elements head
      clearLoop store.peers.elements.limit store (some head) element.hh.next

/-! ## Handlers and dispatch -/

/-- `store_msg`. -/
def storeMsg (store : HashedStore) (data : DataWrapper) (now : Tm) :
    Except Fault HashedStore := do
  let known ← store.peerExist data.id
  let store ← if known then .ok store else store.insertPeer data.id
  store.insertNewMessage data.id data.msg data.cmd now

/-- `client_update`. -/
def clientUpdate (environment : Environment) (store : HashedStore) (data : DataWrapper) :
    Except Fault (HashedStore × List Effect) := do
  let data := { data with id := data.msg }
  let (msg, store) ← store.getUnreadMessage data.msg
  match msg with
  | none =>
      let reply := { data with cmd := .end_ }
      .ok (store, [environment.answer reply])
  | some address => do
      let message ← loadMessage store.messages address
      let reply := { data with msg := message.content, cmd := message.cmd, date := message.date }
      let messages ← freeMessage store.messages address
      .ok ({ store with messages := messages }, [environment.answer reply])

/-- `send_peer_list_to_client`. -/
def sendPeerListToClient (environment : Environment) (store : HashedStore) (data : DataWrapper) :
    Except Fault (List Effect) := do
  let peerList ← store.getPeerList
  let reply := { data with msg := peerList.getD CString.empty }
  .ok [environment.answer reply]

/-- The switch of `event_routine`: the store after a request and its effects. -/
def dispatch (store : HashedStore) (request : Request) :
    Except Fault (HashedStore × List Effect) :=
  let environment := request.environment
  let data := request.data
  match data.cmd with
  | .exit => .ok (store, [.logInfo request.json])
  | .recv => do
      let store ← store.storeMsg data environment.now
      .ok (store, [.logInfo request.json])
  | .send => .ok (store, .logInfo request.json :: sendRoutine environment data)
  | .update => clientUpdate environment store data
  | .getPeers => do
      let effects ← sendPeerListToClient environment store data
      .ok (store, effects)
  | .host => .ok (store, sendHostnameToClient environment data)
  | .end_ | .err => .ok (store, [])

/-- Requests one after the other, with the effects of each. -/
def run : HashedStore → List Request → Except Fault (HashedStore × List (Request × List Effect))
  | store, [] => .ok (store, [])
  | store, request :: rest => do
      let (store, effects) ← store.dispatch request
      let (store, trace) ← run store rest
      .ok (store, (request, effects) :: trace)

end HashedStore

end Torchat.Daemon
