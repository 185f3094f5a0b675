import Torchat.Daemon.HashedStore
import Torchat.Daemon.Unread

/-!
Contract: the hash table under the store makes no difference.

Owns the relation between the store over a hash table and the store over a list of
peers, a simulation lemma for each operation, and that a run of commands has the
same effects over either.

Does not own what the store over a list is worth; see `StoreRefinement`.
-/

set_option autoImplicit false

namespace Torchat.Daemon

open Torchat.Foundation
open Torchat.Uthash hiding hashFind

/-- The peers that are allocated, in the table or not. -/
def HashedStore.allocatedPeers (hashed : HashedStore) : Nat := hashed.peers.elements.allocated

/-- An entry under the bytes of its key. -/
def byteEntry (entry : CString × Peer) : Bytes × Peer := (entry.1.bytes, entry.2)

/-- The hash table holds the peers of the list, in its order; no id is repeated. -/
structure Implements (hashed : HashedStore) (store : Store) : Prop where
  messages : hashed.messages = store.messages
  peers : HoldsEntries hashed.peers (store.head.map byteEntry)
  keys : (store.head.map Prod.fst).Nodup

theorem implements_empty : Implements HashedStore.empty Store.empty where
  messages := rfl
  peers := holdsEntries_empty
  keys := List.nodup_nil

/-- An element of the hash table is the peer of an id. -/
structure PeerAt (hashed : HashedStore) (store : Store) (id : CString) (p : Address)
    (peer : Peer) : Prop where
  messages : hashed.messages = store.messages
  keys : (store.head.map Prod.fst).Nodup
  place : ∃ before after front back, ListedIn hashed.peers (before ++ p :: after) ∧
    store.head = front ++ (id, peer) :: back ∧
    before.map (contentAt hashed.peers.elements) = (front.map byteEntry).map some ∧
    contentAt hashed.peers.elements p = some (id.bytes, peer) ∧
    after.map (contentAt hashed.peers.elements) = (back.map byteEntry).map some

section Peers

variable {hashed : HashedStore} {store : Store} {id : CString} {p : Address} {peer : Peer}

private theorem notMem_front {front back : List (CString × Peer)}
    (keys : ((front ++ (id, peer) :: back).map Prod.fst).Nodup) : id ∉ front.map Prod.fst := by
  rw [List.map_append, List.map_cons, List.nodup_append] at keys
  intro member
  exact keys.2.2 id member id List.mem_cons_self rfl

namespace PeerAt

theorem implements (found : PeerAt hashed store id p peer) : Implements hashed store := by
  obtain ⟨before, after, front, back, listed, split, sameFront, content, sameBack⟩ := found.place
  refine ⟨found.messages, ⟨_, listed, ?_⟩, found.keys⟩
  rw [split, List.map_append, List.map_append, List.map_append, List.map_cons, List.map_cons,
    List.map_cons, sameFront, content, sameBack]
  rfl

theorem getPeer (found : PeerAt hashed store id p peer) :
    Daemon.getPeer store id = some peer := by
  obtain ⟨_, _, front, back, _, split, _⟩ := found.place
  have keys := found.keys
  rw [split] at keys
  rw [Daemon.getPeer, split]
  exact hashFind_split (notMem_front keys)

theorem loadPeer (found : PeerAt hashed store id p peer) : hashed.loadPeer p = .ok peer := by
  obtain ⟨_, _, _, _, _, _, _, content, _⟩ := found.place
  obtain ⟨element, loaded, isContent⟩ := load_of_content content
  have value : element.value = peer := congrArg Prod.snd isContent
  simp only [HashedStore.loadPeer, loadElement_of_load loaded, value, bind, Except.bind]

/-- The messages are no part of the table. -/
theorem withMessages (found : PeerAt hashed store id p peer) (messages : Heap Message) :
    PeerAt { hashed with messages := messages } { store with messages := messages } id p peer where
  messages := rfl
  keys := found.keys
  place := found.place

theorem setMsg (found : PeerAt hashed store id p peer) (msg : Option Address) :
    ∃ after, hashed.setMsg p msg = .ok after ∧
      PeerAt after { store with head := Daemon.setMsg id msg store.head } id p
        { peer with msg := msg } ∧ after.allocatedPeers = hashed.allocatedPeers := by
  obtain ⟨before, behind, front, back, listed, split, sameFront, content, sameBack⟩ := found.place
  have keys := found.keys
  rw [split] at keys
  have changed : Daemon.setMsg id msg (front ++ (id, peer) :: back) =
      front ++ (id, { peer with msg := msg }) :: back := setMsg_split (notMem_front keys) msg
  obtain ⟨elements, updated, count, afterListed, same⟩ :=
    updateValue_spec listed sameFront content sameBack fun peer => { peer with msg := msg }
  rw [List.map_append, List.map_cons, List.map_append, List.map_cons] at same
  have lengths : (before.map (contentAt elements)).length =
      ((front.map byteEntry).map some).length := by
    have old := congrArg List.length sameFront
    simpa using old
  obtain ⟨sameFrontAfter, sameRest⟩ := List.append_inj same lengths
  obtain ⟨contentAfter, sameBackAfter⟩ := List.cons.inj sameRest
  refine ⟨{ hashed with peers := { hashed.peers with elements := elements } }, ?_, ?_, count⟩
  · simp only [HashedStore.setMsg, updated, bind, Except.bind]
  · refine ⟨found.messages, ?_, before, behind, front, back, afterListed, ?_, sameFrontAfter,
      contentAfter, sameBackAfter⟩
    · rw [split, changed]
      simpa using keys
    · rw [split, changed]

end PeerAt

/-- `delete_peer` of an element of the table. -/
theorem deletePeer_spec {before behind : List Address} {key : Bytes}
    (listed : ListedIn hashed.peers (before ++ p :: behind))
    (content : contentAt hashed.peers.elements p = some (key, peer)) :
    ∃ peers, ListedIn peers (before ++ behind) ∧
      (∀ address, contentAt peers.elements address = contentAt hashed.peers.elements address) ∧
      peers.elements.allocated = hashed.peers.elements.allocated ∧
      hashed.deletePeer p = match peer.msg with
        | none => .ok { hashed with peers := peers }
        | some msg => (freeMessage hashed.messages msg).map fun messages => ⟨peers, messages⟩ := by
  obtain ⟨peers, removed, afterListed, limit, contents⟩ := hashDelete_spec listed
  refine ⟨peers, afterListed, contents,
    allocated_of_contents limit fun address => by rw [contents], ?_⟩
  have loaded : ({ hashed with peers := peers } : HashedStore).loadPeer p = .ok peer := by
    rw [← contents p] at content
    obtain ⟨element, elementLoaded, isContent⟩ := load_of_content content
    have value : element.value = peer := congrArg Prod.snd isContent
    simp only [HashedStore.loadPeer, loadElement_of_load elementLoaded, value, bind, Except.bind]
  simp only [HashedStore.deletePeer, removed, loaded, bind, Except.bind]
  cases msg : peer.msg with
  | none => rfl
  | some first => cases freed : freeMessage hashed.messages first <;> rfl

namespace PeerAt

/-- `delete_peer` of the peer of an id. -/
theorem deletePeer (found : PeerAt hashed store id p peer) {after : Store}
    (deleted : Daemon.deletePeer store id = .ok after) :
    ∃ smaller, hashed.deletePeer p = .ok smaller ∧ Implements smaller after ∧
      smaller.allocatedPeers = hashed.allocatedPeers := by
  obtain ⟨before, behind, front, back, listed, split, sameFront, content, sameBack⟩ := found.place
  have keys := found.keys
  rw [split] at keys
  obtain ⟨peers, afterListed, contents, count, removed⟩ := deletePeer_spec listed content
  have head : hashDel id store.head = front ++ back := by
    rw [split]
    exact hashDel_split (notMem_front keys)
  have removedKeys : ((hashDel id store.head).map Prod.fst).Nodup := by
    rw [head]
    exact keys.sublist (((List.sublist_cons_self _ back).append_left front).map _)
  have holds : HoldsEntries peers ((hashDel id store.head).map byteEntry) := by
    refine ⟨before ++ behind, afterListed, ?_⟩
    rw [head, funext contents, List.map_append, List.map_append, List.map_append, sameFront,
      sameBack]
  rw [Daemon.deletePeer, found.getPeer] at deleted
  cases msg : peer.msg with
  | none =>
      simp only [msg] at deleted removed
      cases deleted
      exact ⟨_, removed, ⟨found.messages, holds, removedKeys⟩, count⟩
  | some first =>
      simp only [msg, freeMessage, found.messages] at deleted removed
      cases freed : store.messages.free first with
      | none => simp [freed] at deleted
      | some messages =>
          simp only [freed, Except.ok.injEq, Except.map] at deleted removed
          subst deleted
          exact ⟨_, removed, ⟨rfl, holds, removedKeys⟩, count⟩

end PeerAt

/-- An id has a peer in the list exactly where it has one in the hash table. -/
theorem Implements.getPeer (implements : Implements hashed store) (id : CString) :
    (hashed.getPeer id = .ok none ∧ Daemon.getPeer store id = none ∧
        id ∉ store.head.map Prod.fst) ∨
      ∃ p peer, hashed.getPeer id = .ok (some p) ∧ PeerAt hashed store id p peer := by
  obtain ⟨order, listed, same⟩ := implements.peers
  rcases find_entry listed same id.bytes with ⟨found, absent⟩ |
    ⟨p, before, after, front, peer, back, found, rfl, split, sameFront, content, sameBack⟩
  · left
    have notKey : id ∉ store.head.map Prod.fst := by
      intro present
      apply absent
      obtain ⟨entry, member, rfl⟩ := List.mem_map.mp present
      exact List.mem_map_of_mem (List.mem_map_of_mem member)
    exact ⟨found, hashFind_eq_none notKey, notKey⟩
  · right
    obtain ⟨entries, rest, headSplit, rfl, restSplit⟩ := List.map_eq_append_iff.mp split
    obtain ⟨⟨key, value⟩, others, rfl, sameEntry, rfl⟩ := List.map_eq_cons_iff.mp restSplit
    obtain ⟨sameKey, rfl⟩ := Prod.mk.inj sameEntry
    cases CString.ext sameKey
    exact ⟨p, value, found, implements.messages, implements.keys, before, after, entries, others,
      listed, headSplit, sameFront, content, sameBack⟩

end Peers

/-! ## Operations -/

section Operations

variable {hashed : HashedStore} {store after : Store} {id : CString}

/-- A message of a cell that is linked or copied is a change of the messages alone. -/
private theorem Implements.withMessages (implements : Implements hashed store)
    (messages : Heap Message) :
    Implements { hashed with messages := messages } { store with messages := messages } where
  messages := rfl
  peers := implements.peers
  keys := implements.keys

theorem Implements.peerExist (implements : Implements hashed store) (id : CString) :
    hashed.peerExist id = .ok (Daemon.peerExist store id) := by
  rcases implements.getPeer id with ⟨found, absent, _⟩ | ⟨p, peer, found, at_⟩
  · simp only [HashedStore.peerExist, found, Daemon.peerExist, absent, bind, Except.bind]
    rfl
  · simp only [HashedStore.peerExist, found, Daemon.peerExist, at_.getPeer, bind, Except.bind]
    rfl

/-- A new peer has the id that it was made of. -/
private theorem readId_of_inserted (inserted : Daemon.insertPeer store id = .ok after) {new : Peer}
    (made : newPeer id = .ok new) : readId new = .ok id := by
  have fits : id.length < 30 := by
    by_contra long
    rw [insertPeer_of_long (Nat.le_of_not_lt long)] at inserted
    contradiction
  have copied := CharArray.read_overwrite_zeroed fits
  rw [newPeer] at made
  cases overwritten : (CharArray.zeroed 30).overwrite id.bytes with
  | none => simp [overwritten] at made
  | some array =>
      rw [overwritten, Option.bind_some] at copied
      simp only [overwritten, Except.ok.injEq] at made
      subst made
      simp only [readId, copied]

/-- A peer that is not in the table joins it. -/
theorem Implements.insertPeer (implements : Implements hashed store)
    (absent : id ∉ store.head.map Prod.fst) (inserted : Daemon.insertPeer store id = .ok after) :
    ∃ grown, hashed.insertPeer id = .ok grown ∧ Implements grown after ∧
      grown.allocatedPeers = hashed.allocatedPeers + 1 := by
  obtain ⟨new, made, rest⟩ := bind_eq_ok inserted
  have own := readId_of_inserted inserted made
  obtain ⟨key, read, same⟩ := bind_eq_ok rest
  rw [own] at read
  cases read
  cases same
  obtain ⟨grown, operated, holds, count⟩ := add_simulates implements.peers id.bytes new
  obtain ⟨peers, added, isGrown⟩ := bind_eq_ok operated
  cases isGrown
  let element : Element Peer := { value := new, hh := UTHashHandle.zero }
  have linked : hashAddKeyptr
      { hashed.peers with elements := (hashed.peers.elements.alloc element).2 } id.bytes
      (hashed.peers.elements.alloc element).1 = .ok grown := added
  refine ⟨{ peers := grown, messages := hashed.messages }, ?_,
    ⟨implements.messages, ?_, ?_⟩, count⟩
  · simp only [HashedStore.insertPeer, made, own, element, linked, bind, Except.bind]
  · rw [List.map_append]
    exact holds
  · rw [List.map_append, List.map_singleton, List.nodup_append]
    refine ⟨implements.keys, List.nodup_singleton id, ?_⟩
    rintro key member other isId rfl
    rw [List.mem_singleton.mp isId] at member
    exact absent member

theorem Implements.insertNewMessage (implements : Implements hashed store) {content : CString}
    {cmd : Command} {now : Tm}
    (inserted : Daemon.insertNewMessage store id content cmd now = .ok after) :
    ∃ grown, hashed.insertNewMessage id content cmd now = .ok grown ∧ Implements grown after ∧
      grown.allocatedPeers = hashed.allocatedPeers := by
  rcases implements.getPeer id with ⟨_, absent, _⟩ | ⟨p, peer, found, at_⟩
  · simp [Daemon.insertNewMessage, absent] at inserted
  have sameMessages := implements.messages
  simp only [HashedStore.insertNewMessage, found, at_.loadPeer, sameMessages, bind, Except.bind]
  simp only [Daemon.insertNewMessage, at_.getPeer] at inserted
  cases msg : peer.msg with
  | none =>
      simp only [msg, Except.ok.injEq] at inserted
      subst inserted
      obtain ⟨grown, assigned, kept, count⟩ := at_.setMsg
        (some (newMessage store.messages content (getShortDate now) cmd).1)
      simp only [assigned]
      exact ⟨_, rfl, kept.implements.withMessages _, count⟩
  | some first =>
      simp only [msg] at inserted
      obtain ⟨tmp, walked, rest⟩ := bind_eq_ok inserted
      obtain ⟨tail, tailLoaded, rest⟩ := bind_eq_ok rest
      obtain ⟨linked, linkedStored, rest⟩ := bind_eq_ok rest
      obtain ⟨new, newLoaded, rest⟩ := bind_eq_ok rest
      obtain ⟨messages, newStored, same⟩ := bind_eq_ok rest
      cases same
      simp only [walked, tailLoaded, linkedStored, newLoaded, newStored]
      exact ⟨_, rfl, implements.withMessages messages, rfl⟩

theorem Implements.getUnreadMessage (implements : Implements hashed store) {msg : Option Address}
    (handedOut : Daemon.getUnreadMessage store id = .ok (msg, after)) :
    ∃ smaller, hashed.getUnreadMessage id = .ok (msg, smaller) ∧ Implements smaller after ∧
      smaller.allocatedPeers = hashed.allocatedPeers := by
  rcases implements.getPeer id with ⟨found, absent, _⟩ | ⟨p, peer, found, at_⟩
  · simp only [Daemon.getUnreadMessage, absent, Except.ok.injEq, Prod.mk.injEq] at handedOut
    obtain ⟨rfl, rfl⟩ := handedOut
    exact ⟨hashed, by simp only [HashedStore.getUnreadMessage, found, bind, Except.bind],
      implements, rfl⟩
  have sameMessages := implements.messages
  simp only [HashedStore.getUnreadMessage, found, at_.loadPeer, sameMessages, bind, Except.bind]
  simp only [Daemon.getUnreadMessage, at_.getPeer] at handedOut
  cases first : peer.msg with
  | none =>
      simp only [first, Except.ok.injEq, Prod.mk.injEq] at handedOut
      obtain ⟨rfl, rfl⟩ := handedOut
      exact ⟨hashed, rfl, implements, rfl⟩
  | some first =>
      simp only [first] at handedOut ⊢
      obtain ⟨message, loaded, rest⟩ := bind_eq_ok handedOut
      obtain ⟨⟨next, messages⟩, deleted, rest⟩ := bind_eq_ok rest
      obtain ⟨assigned, set, kept, count⟩ := at_.setMsg next
      simp only [loaded, deleted, set]
      cases next with
      | some second =>
          cases rest
          exact ⟨_, rfl, kept.implements.withMessages messages, count⟩
      | none =>
          obtain ⟨smaller, removed, same⟩ := bind_eq_ok rest
          cases same
          obtain ⟨last, lastDeleted, lastKept, lastCount⟩ :=
            (kept.withMessages messages).deletePeer removed
          simp only [lastDeleted]
          exact ⟨last, rfl, lastKept, lastCount.trans count⟩

private theorem Implements.iterPeers {order : List Address} {entries : List (CString × Peer)}
    (same : order.map (contentAt hashed.peers.elements) = (entries.map byteEntry).map some) :
    hashed.iterPeers order = .ok entries := by
  induction order generalizing entries with
  | nil =>
      rw [List.map_map] at same
      cases List.map_eq_nil_iff.mp same.symm
      rfl
  | cons ptr rest inductionHypothesis =>
      rw [List.map_map] at same
      obtain ⟨entry, others, rfl, content, sameRest⟩ := List.map_eq_cons_iff.mp same.symm
      obtain ⟨element, loaded, isContent⟩ := load_of_content content.symm
      obtain ⟨key, value⟩ := Prod.mk.inj isContent
      rw [← List.map_map] at sameRest
      have visited := inductionHypothesis sameRest.symm
      simp only [HashedStore.iterPeers, loadElement_of_load loaded, visited, key, value,
        CString.ofBytes_bytes, bind, Except.bind]

theorem Implements.getPeerList (implements : Implements hashed store) :
    hashed.getPeerList = Daemon.getPeerList store := by
  obtain ⟨order, listed, same⟩ := implements.peers
  have visited := Implements.iterPeers same
  have walked := hashIter_spec listed
  cases head : hashed.peers.head with
  | none =>
      have empty : order = [] := by
        rw [ListedIn, head] at listed
        exact listed
      subst empty
      have noEntries : store.head = [] := by
        rw [List.map_map] at same
        exact List.map_eq_nil_iff.mp same.symm
      simp only [HashedStore.getPeerList, head, Daemon.getPeerList, noEntries]
  | some found =>
      have entries : store.head ≠ [] := by
        intro noEntries
        rw [noEntries] at same
        cases List.map_eq_nil_iff.mp same
        rw [ListedIn, head] at listed
        exact absurd listed.1 (by simp)
      obtain ⟨entry, rest, split⟩ := List.exists_cons_of_ne_nil entries
      simp only [HashedStore.getPeerList, head, Daemon.getPeerList, walked, visited, split, bind,
        Except.bind]

/-! ## Commands -/

theorem Implements.storeMsg (implements : Implements hashed store) {data : DataWrapper} {now : Tm}
    (stored : Daemon.storeMsg store data now = .ok after) :
    ∃ grown, hashed.storeMsg data now = .ok grown ∧ Implements grown after ∧
      grown.allocatedPeers =
        hashed.allocatedPeers + if Daemon.peerExist store data.id then 0 else 1 := by
  rw [Daemon.storeMsg] at stored
  simp only [HashedStore.storeMsg, implements.peerExist, bind, Except.bind]
  by_cases known : Daemon.peerExist store data.id = true
  · rw [if_pos known] at stored
    simp only [if_pos known]
    exact implements.insertNewMessage stored
  · rw [if_neg known] at stored
    obtain ⟨between, inserted, rest⟩ := bind_eq_ok stored
    have absent : data.id ∉ store.head.map Prod.fst := by
      intro present
      rcases implements.getPeer data.id with ⟨_, _, notKey⟩ | ⟨p, peer, _, at_⟩
      · exact notKey present
      · exact known (by rw [Daemon.peerExist, at_.getPeer]; rfl)
    obtain ⟨grown, joined, kept, count⟩ := implements.insertPeer absent inserted
    simp only [if_neg known, joined, ← count]
    exact kept.insertNewMessage rest

theorem Implements.clientUpdate (implements : Implements hashed store) {environment : Environment}
    {data : DataWrapper} {effects : List Effect}
    (updated : Daemon.clientUpdate environment store data = .ok (after, effects)) :
    ∃ smaller, HashedStore.clientUpdate environment hashed data = .ok (smaller, effects) ∧
      Implements smaller after ∧ smaller.allocatedPeers = hashed.allocatedPeers := by
  obtain ⟨⟨msg, left⟩, handedOut, rest⟩ := bind_eq_ok updated
  obtain ⟨smaller, hashedOut, kept, count⟩ := implements.getUnreadMessage handedOut
  simp only [HashedStore.clientUpdate, hashedOut, bind, Except.bind]
  cases msg with
  | none =>
      cases rest
      exact ⟨smaller, rfl, kept, count⟩
  | some address =>
      obtain ⟨message, loaded, rest⟩ := bind_eq_ok rest
      obtain ⟨messages, freed, same⟩ := bind_eq_ok rest
      cases same
      simp only [kept.messages, loaded, freed]
      exact ⟨_, rfl, kept.withMessages messages, count⟩

/-- Every command has the same effects over the hash table; a message for an id without
a peer allocates one, and no command releases any. -/
theorem Implements.dispatch (implements : Implements hashed store) {request : Request}
    {outcome : Outcome} (dispatched : request.dispatch store = .ok outcome) :
    ∃ next, hashed.dispatch request = .ok (next, outcome.effects) ∧
      Implements next outcome.store ∧
      next.allocatedPeers = hashed.allocatedPeers +
        if request.data.cmd = .recv ∧ ¬ Daemon.peerExist store request.data.id then 1 else 0 := by
  rw [Request.dispatch, Daemon.dispatch] at dispatched
  cases cmd : request.data.cmd with
  | recv =>
      rw [cmd] at dispatched
      obtain ⟨stored, ran, same⟩ := bind_eq_ok dispatched
      cases same
      obtain ⟨grown, hashedRan, kept, count⟩ := implements.storeMsg ran
      refine ⟨grown, by simp only [HashedStore.dispatch, cmd, hashedRan, bind, Except.bind], kept,
        count.trans ?_⟩
      by_cases known : Daemon.peerExist store request.data.id = true
      · simp [known]
      · simp [known]
  | update =>
      rw [cmd] at dispatched
      obtain ⟨⟨left, effects⟩, ran, same⟩ := bind_eq_ok dispatched
      cases same
      obtain ⟨smaller, hashedRan, kept, count⟩ := implements.clientUpdate ran
      exact ⟨smaller, by simp only [HashedStore.dispatch, cmd, hashedRan], kept, by simp [count]⟩
  | getPeers =>
      rw [cmd] at dispatched
      obtain ⟨effects, ran, same⟩ := bind_eq_ok dispatched
      cases same
      refine ⟨hashed, ?_, implements, by simp⟩
      rw [Daemon.sendPeerListToClient, ← implements.getPeerList] at ran
      have hashedRan : HashedStore.sendPeerListToClient request.environment hashed request.data =
          .ok effects := ran
      simp only [HashedStore.dispatch, cmd, hashedRan, bind, Except.bind]
  | _ =>
      rw [cmd] at dispatched
      cases dispatched
      exact ⟨hashed, by simp only [HashedStore.dispatch, cmd], implements, by simp⟩

/-- So does every run. -/
theorem Implements.run (implements : Implements hashed store) {requests : List Request}
    {trace : List (Request × List Effect)} (ran : Daemon.run store requests = .ok (after, trace)) :
    ∃ last, hashed.run requests = .ok (last, trace) ∧ Implements last after := by
  induction requests generalizing hashed store after trace with
  | nil =>
      cases ran
      exact ⟨hashed, rfl, implements⟩
  | cons request rest inductionHypothesis =>
      obtain ⟨outcome, dispatched, others⟩ := bind_eq_ok ran
      obtain ⟨⟨last, later⟩, ranRest, same⟩ := bind_eq_ok others
      cases same
      obtain ⟨next, hashedDispatched, kept, _⟩ := implements.dispatch dispatched
      obtain ⟨final, hashedRan, keptRest⟩ := inductionHypothesis kept ranRest
      refine ⟨final, ?_, keptRest⟩
      simp only [HashedStore.run, hashedDispatched, hashedRan, bind, Except.bind]

end Operations

/-- Over the hash table of `uthash.h` every run of commands has the effects that it has
over the list of peers, and in the end the table holds the same peers with the same
messages and passes its integrity check. -/
theorem hashed_run_same_effects (requests : List Request)
    (admissible : ∀ request ∈ requests, request.Admissible) :
    ∃ hashed store trace, HashedStore.empty.run requests = .ok (hashed, trace) ∧
      run Store.empty requests = .ok (store, trace) ∧ Implements hashed store ∧
      hashFsck hashed.peers = .ok true ∧
      ∀ id, ∃ p, hashed.getPeer id = .ok p ∧ p.isSome = peerExist store id := by
  obtain ⟨store, trace, ran, _⟩ := run_empty admissible
  obtain ⟨hashed, hashedRan, kept⟩ := implements_empty.run ran
  refine ⟨hashed, store, trace, hashedRan, ran, kept, ?_, ?_⟩
  · obtain ⟨order, listed, _⟩ := kept.peers
    exact hashFsck_spec listed
  · intro id
    obtain ⟨p, found, same⟩ := bind_eq_ok (kept.peerExist id)
    exact ⟨p, found, Except.ok.inj same⟩

theorem hashed_run_same_effects_alice :
    ∃ hashed store trace,
      HashedStore.empty.run [sampleRecv "alice" "hi", sampleUpdate "alice" 0] =
        .ok (hashed, trace) ∧
      run Store.empty [sampleRecv "alice" "hi", sampleUpdate "alice" 0] = .ok (store, trace) ∧
      hashFsck hashed.peers = .ok true := by
  obtain ⟨hashed, store, trace, hashedRan, ran, _, intact, _⟩ :=
    hashed_run_same_effects [sampleRecv "alice" "hi", sampleUpdate "alice" 0]
      (by unfold Request.Admissible; decide)
  exact ⟨hashed, store, trace, hashedRan, ran, intact⟩

end Torchat.Daemon
