import Torchat.Daemon.HashedRefinement
import Torchat.Daemon.MessageLists

/-!
Contract: what the daemon holds in memory over a run, and what it does not give back
when it ends.

Owns the count of the allocated messages and peers after every command, and the
effect of `clear_datastructs` on them.

Does not own the other memory of a command, which is parsed and written elsewhere.
-/

set_option autoImplicit false

namespace Torchat.Daemon

open Torchat.Foundation
open Torchat.Uthash hiding hashFind

/-! ## Messages of a command -/

section Messages

variable {store after : Store} {table : UnreadTable} {id : CString}

private theorem allocated_storeMessage {messages stored : Heap Message} {address : Address}
    {message : Message} (written : storeMessage messages address message = .ok stored) :
    stored.allocated = messages.allocated := by
  unfold storeMessage at written
  split at written
  next result isStored =>
    cases written
    exact Heap.allocated_store isStored
  · contradiction

private theorem allocated_freeMessage {messages freed : Heap Message} {address : Address}
    (released : freeMessage messages address = .ok freed) :
    messages.allocated = freed.allocated + 1 := by
  unfold freeMessage at released
  split at released
  next result isFreed =>
    cases released
    exact Heap.allocated_free isFreed
  · contradiction

private theorem messages_insertPeer (inserted : insertPeer store id = .ok after) :
    after.messages = store.messages := by
  obtain ⟨new, _, rest⟩ := bind_eq_ok inserted
  obtain ⟨key, _, same⟩ := bind_eq_ok rest
  cases same
  rfl

private theorem allocated_insertNewMessage {content : CString} {cmd : Command} {now : Tm}
    (inserted : insertNewMessage store id content cmd now = .ok after) :
    after.messages.allocated = store.messages.allocated + 1 := by
  have fresh : (newMessage store.messages content (getShortDate now) cmd).2.allocated =
      store.messages.allocated + 1 := Heap.allocated_alloc _ _
  unfold insertNewMessage at inserted
  cases found : getPeer store id with
  | none => simp [found] at inserted
  | some peer =>
      cases msg : peer.msg with
      | none =>
          simp only [found, msg, Except.ok.injEq] at inserted
          subst inserted
          exact fresh
      | some first =>
          simp only [found, msg] at inserted
          obtain ⟨tmp, _, rest⟩ := bind_eq_ok inserted
          obtain ⟨tail, _, rest⟩ := bind_eq_ok rest
          obtain ⟨linked, linkedStored, rest⟩ := bind_eq_ok rest
          obtain ⟨new, _, rest⟩ := bind_eq_ok rest
          obtain ⟨messages, newStored, same⟩ := bind_eq_ok rest
          cases same
          exact ((allocated_storeMessage newStored).trans
            (allocated_storeMessage linkedStored)).trans fresh

private theorem allocated_deleteMessage {messages freed : Heap Message} {address : Address}
    {next : Option Address} (deleted : deleteMessage messages address = .ok (next, freed)) :
    messages.allocated = freed.allocated + 1 := by
  obtain ⟨message, _, rest⟩ := bind_eq_ok deleted
  split at rest
  next result isFreed =>
    cases rest
    exact Heap.allocated_free isFreed
  · contradiction

private theorem hashFind_setMsg (id : CString) (msg : Option Address)
    (head : List (CString × Peer)) :
    hashFind id (setMsg id msg head) =
      (hashFind id head).map fun peer => { peer with msg := msg } := by
  induction head with
  | nil => rfl
  | cons entry rest inductionHypothesis =>
      rw [setMsg]
      by_cases same : entry.1 = id
      · simp [hashFind, same]
      · simp [hashFind, same, inductionHypothesis]

/-- The copy takes the place of the message. -/
private theorem allocated_getUnreadMessage {msg : Option Address}
    (handedOut : getUnreadMessage store id = .ok (msg, after)) :
    after.messages.allocated = store.messages.allocated := by
  unfold getUnreadMessage at handedOut
  cases found : getPeer store id with
  | none =>
      simp only [found, Except.ok.injEq, Prod.mk.injEq] at handedOut
      rw [handedOut.2]
  | some peer =>
      cases first : peer.msg with
      | none =>
          simp only [found, first, Except.ok.injEq, Prod.mk.injEq] at handedOut
          rw [handedOut.2]
      | some address =>
          simp only [found, first] at handedOut
          obtain ⟨message, _, rest⟩ := bind_eq_ok handedOut
          obtain ⟨⟨next, messages⟩, deleted, rest⟩ := bind_eq_ok rest
          have balanced : messages.allocated = store.messages.allocated :=
            Nat.succ.inj ((allocated_deleteMessage deleted).symm.trans
              (Heap.allocated_alloc store.messages _))
          cases next with
          | some second =>
              cases rest
              exact balanced
          | none =>
              obtain ⟨smaller, removed, same⟩ := bind_eq_ok rest
              cases same
              -- the peer that leaves the table has no message any more
              have alone : getPeer { head := setMsg id none store.head, messages := messages } id =
                  some { peer with msg := none } := by
                rw [getPeer, hashFind_setMsg]
                exact congrArg (Option.map _) found
              simp only [deletePeer, alone, Except.ok.injEq] at removed
              rw [← removed]
              exact balanced

private theorem allocated_storeMsg {data : DataWrapper} {now : Tm}
    (stored : storeMsg store data now = .ok after) :
    after.messages.allocated = store.messages.allocated + 1 := by
  rw [storeMsg] at stored
  by_cases known : peerExist store data.id = true
  · rw [if_pos known] at stored
    exact allocated_insertNewMessage stored
  · rw [if_neg known] at stored
    obtain ⟨between, inserted, rest⟩ := bind_eq_ok stored
    rw [← messages_insertPeer inserted]
    exact allocated_insertNewMessage rest

/-- An update releases the message that it hands out. -/
private theorem allocated_clientUpdate (refines : Refines store table) {environment : Environment}
    {data : DataWrapper} {effects : List Effect}
    (updated : clientUpdate environment store data = .ok (after, effects)) :
    store.messages.allocated = after.messages.allocated + min (table.lookup data.msg).length 1 := by
  obtain ⟨⟨msg, left⟩, handedOut, rest⟩ := bind_eq_ok updated
  have kept := allocated_getUnreadMessage handedOut
  by_cases present : data.msg ∈ table.keys
  · obtain ⟨oldest, later, found, retMsg, _, lookup, again, _⟩ :=
      refines.getUnreadMessage_of_mem present
    cases handedOut.symm.trans again
    obtain ⟨message, _, rest⟩ := bind_eq_ok rest
    obtain ⟨messages, freed, same⟩ := bind_eq_ok rest
    cases same
    have released := allocated_freeMessage freed
    rw [lookup, List.length_cons, Nat.min_eq_right (Nat.succ_le_succ (Nat.zero_le _)), ← kept]
    exact released
  · cases handedOut.symm.trans (refines.getUnreadMessage_of_notMem present)
    cases rest
    rw [QueueTable.lookup_of_notMem present]
    rfl

/-- The messages that are allocated stay as many as the unread ones. -/
private theorem allocated_dispatch (refines : Refines store table)
    (counted : store.messages.allocated = table.total) {request : Request} {outcome : Outcome}
    (dispatched : request.dispatch store = .ok outcome) :
    outcome.store.messages.allocated = (table.step request.op).total := by
  rw [Request.dispatch, dispatch] at dispatched
  unfold Request.op
  cases cmd : request.data.cmd with
  | recv =>
      rw [cmd] at dispatched
      obtain ⟨stored, ran, same⟩ := bind_eq_ok dispatched
      cases same
      rw [allocated_storeMsg ran, counted]
      exact (table.total_push _ _).symm
  | update =>
      rw [cmd] at dispatched
      obtain ⟨⟨left, effects⟩, ran, same⟩ := bind_eq_ok dispatched
      cases same
      have released := allocated_clientUpdate refines ran
      rw [counted, table.total_pop request.data.msg] at released
      exact (Nat.add_right_cancel released).symm
  | getPeers =>
      rw [cmd] at dispatched
      obtain ⟨effects, ran, same⟩ := bind_eq_ok dispatched
      cases same
      exact counted
  | _ =>
      rw [cmd] at dispatched
      cases dispatched
      exact counted

end Messages

/-! ## A run -/

/-- The store over the hash table in a run, with all that is allocated in it. -/
structure MemoryHolds (hashed : HashedStore) (store : Store) (table : UnreadTable) (peers : Nat) :
    Prop where
  implements : Implements hashed store
  refines : Refines store table
  messages : store.messages.allocated = table.total
  peers : hashed.allocatedPeers = peers

theorem memoryHolds_empty : MemoryHolds HashedStore.empty Store.empty QueueTable.empty 0 where
  implements := implements_empty
  refines := refines_empty
  messages := rfl
  peers := rfl

section Runs

variable {hashed : HashedStore} {store : Store} {table : UnreadTable} {peers : Nat}

/-- A peer is allocated where a command opens a queue. -/
private theorem createdBy_op (refines : Refines store table) (request : Request) :
    table.createdBy request.op =
      if request.data.cmd = .recv ∧ ¬ peerExist store request.data.id then 1 else 0 := by
  unfold Request.op
  cases cmd : request.data.cmd with
  | recv =>
      have known := refines.peerExist_iff request.data.id
      rw [table.mem_keys_iff] at known
      by_cases empty : table.lookup request.data.id = []
      · simp [QueueTable.createdBy, known, empty]
      · simp [QueueTable.createdBy, known, empty]
  | _ => simp [QueueTable.createdBy]

private theorem MemoryHolds.dispatch (holds : MemoryHolds hashed store table peers)
    {request : Request}
    (admissible : request.Admissible) :
    ∃ next outcome, hashed.dispatch request = .ok (next, outcome.effects) ∧
      request.dispatch store = .ok outcome ∧
      MemoryHolds next outcome.store (table.step request.op)
        (peers + table.createdBy request.op) := by
  obtain ⟨outcome, dispatched, refined, _⟩ := dispatch_refines holds.refines admissible
  obtain ⟨next, hashedDispatched, kept, count⟩ := holds.implements.dispatch dispatched
  refine ⟨next, outcome, hashedDispatched, dispatched, kept, refined,
    allocated_dispatch holds.refines holds.messages dispatched, ?_⟩
  rw [count, holds.peers, createdBy_op holds.refines]

private theorem MemoryHolds.run (holds : MemoryHolds hashed store table peers)
    {requests : List Request}
    (admissible : ∀ request ∈ requests, request.Admissible) :
    ∃ last after trace, hashed.run requests = .ok (last, trace) ∧
      Daemon.run store requests = .ok (after, trace) ∧
      MemoryHolds last after (table.after (ops requests))
        (peers + table.created (ops requests)) := by
  induction requests generalizing hashed store table peers with
  | nil => exact ⟨hashed, store, [], rfl, rfl, holds⟩
  | cons request rest inductionHypothesis =>
      obtain ⟨next, outcome, hashedDispatched, dispatched, kept⟩ :=
        holds.dispatch (admissible request List.mem_cons_self)
      obtain ⟨last, after, trace, hashedRan, ran, keptRest⟩ := inductionHypothesis kept
        fun later member => admissible later (List.mem_cons_of_mem _ member)
      refine ⟨last, after, (request, outcome.effects) :: trace, ?_, ?_, ?_⟩
      · simp only [HashedStore.run, hashedDispatched, hashedRan, bind, Except.bind]
      · simp only [Daemon.run, dispatched, ran, bind, Except.bind]
      · rw [Nat.add_assoc] at keptRest
        exact keptRest

end Runs

/-! ## The end -/

section End

variable {hashed : HashedStore}

/-- The messages that some entries of the table start with. -/
private def firstsOf (entries : List (Bytes × Peer)) : List Address :=
  entries.filterMap fun entry => entry.2.msg

private theorem firsts_eq (store : Store) :
    firstsOf (store.head.map byteEntry) = store.firsts := by
  rw [firstsOf, List.filterMap_map]
  rfl

private theorem next_of_first {peers : Hash Peer} {p : Address} {rest : List Address}
    (listed : ListedIn peers (p :: rest)) :
    ∃ element, loadElement peers.elements p = .ok element ∧ element.hh.next = rest.head? := by
  obtain ⟨head, elements⟩ := peers
  cases head with
  | none => exact absurd listed (by simp [ListedIn])
  | some found =>
      obtain ⟨_, table⟩ := listed
      obtain ⟨element, loaded, _⟩ := table.hashed p List.mem_cons_self
      have ordered : DoublyLinked (inOrder elements) ([] ++ p :: rest) := table.ordered
      have links := ordered.links_of_split
      simp only [inOrder, Heap.view, loaded, Option.map_some, Option.some.injEq] at links
      exact ⟨element, loadElement_of_load loaded, congrArg Ends.next links⟩

private theorem head_of_nil {peers : Hash Peer} (listed : ListedIn peers []) :
    peers.head = none := by
  obtain ⟨head, elements⟩ := peers
  cases head with
  | none => rfl
  | some found => exact absurd listed.1 (by simp)

/-- What the loop has done to the messages when it has deleted the peers of some entries. -/
private structure Released (hashed cleared : HashedStore) (firsts : List Address) : Prop where
  head : cleared.peers.head = none
  peers : cleared.allocatedPeers = hashed.allocatedPeers
  count : hashed.messages.allocated = cleared.messages.allocated + firsts.length
  messages : ∀ address, cleared.messages.load address =
    if address ∈ firsts then none else hashed.messages.load address

/-- `delete_peer` in the loop: the first message of the peer is released with it. -/
private theorem deletePeer_first {p : Address} {rest : List Address} {entry : Bytes × Peer}
    {entries : List (Bytes × Peer)} (listed : ListedIn hashed.peers (p :: rest))
    (same : (p :: rest).map (contentAt hashed.peers.elements) = (entry :: entries).map some)
    (live : ∀ address ∈ firstsOf (entry :: entries), (hashed.messages.load address).isSome) :
    ∃ next, hashed.deletePeer p = .ok next ∧ ListedIn next.peers rest ∧
      rest.map (contentAt next.peers.elements) = entries.map some ∧
      next.allocatedPeers = hashed.allocatedPeers ∧
      hashed.messages.allocated = next.messages.allocated + (firstsOf [entry]).length ∧
      ∀ address, next.messages.load address =
        if address ∈ firstsOf [entry] then none else hashed.messages.load address := by
  obtain ⟨content, sameRest⟩ := List.cons.inj same
  have split : ListedIn hashed.peers ([] ++ p :: rest) := listed
  obtain ⟨peers, afterListed, contents, count, removed⟩ := deletePeer_spec split content
  have kept : rest.map (contentAt peers.elements) = entries.map some := by
    rw [funext contents]
    exact sameRest
  cases msg : entry.2.msg with
  | none =>
      rw [msg] at removed
      refine ⟨_, removed, afterListed, kept, count, ?_, ?_⟩
      · simp [firstsOf, msg]
      · simp [firstsOf, msg]
  | some first =>
      have isLive := live first (by simp [firstsOf, msg])
      obtain ⟨message, loaded⟩ := Option.isSome_iff_exists.mp isLive
      obtain ⟨messages, freed, _, gone, others⟩ := Heap.free_of_load loaded
      simp only [msg, freeMessage, freed, Except.map] at removed
      refine ⟨_, removed, afterListed, kept, count, ?_, ?_⟩
      · simp [firstsOf, msg, Heap.allocated_free freed]
      · intro address
        by_cases isFirst : address = first
        · simp [firstsOf, msg, isFirst, gone]
        · simp [firstsOf, msg, isFirst, others address isFirst]

private theorem firstsOf_cons (entry : Bytes × Peer) (entries : List (Bytes × Peer)) :
    firstsOf (entry :: entries) = firstsOf [entry] ++ firstsOf entries := by
  rw [firstsOf, firstsOf, firstsOf, ← List.filterMap_append]
  rfl

/-- The loop releases the first message of every peer it visits. -/
private theorem clearLoop_spec {p : Address} {rest : List Address}
    {entries : List (Bytes × Peer)} (listed : ListedIn hashed.peers (p :: rest))
    (same : (p :: rest).map (contentAt hashed.peers.elements) = entries.map some)
    (live : ∀ address ∈ firstsOf entries, (hashed.messages.load address).isSome)
    (apart : (firstsOf entries).Nodup) {fuel : Nat} (enough : rest.length < fuel) :
    ∃ cleared, HashedStore.clearLoop fuel hashed (some p) rest.head? = .ok cleared ∧
      Released hashed cleared (firstsOf entries) := by
  induction rest generalizing hashed p entries fuel with
  | nil =>
      obtain ⟨entry, others, rfl, _, noOthers⟩ := List.map_eq_cons_iff.mp same.symm
      cases List.map_eq_nil_iff.mp noOthers
      obtain ⟨next, deleted, nextListed, _, peers, count, messages⟩ :=
        deletePeer_first listed same live
      obtain ⟨fuel, rfl⟩ := Nat.exists_eq_succ_of_ne_zero (Nat.ne_of_gt enough)
      refine ⟨next, ?_, head_of_nil nextListed, peers, count, messages⟩
      simp only [HashedStore.clearLoop, deleted, List.head?_nil, bind, Except.bind]
  | cons second others inductionHypothesis =>
      obtain ⟨entry, entries, rfl, _, _⟩ := List.map_eq_cons_iff.mp same.symm
      obtain ⟨next, deleted, nextListed, nextSame, peers, count, messages⟩ :=
        deletePeer_first listed same live
      rw [firstsOf_cons] at live apart
      obtain ⟨_, apartRest, different⟩ := List.nodup_append.mp apart
      have notFirst : ∀ address ∈ firstsOf entries, address ∉ firstsOf [entry] :=
        fun address member isFirst => different address isFirst address member rfl
      have liveRest : ∀ address ∈ firstsOf entries, (next.messages.load address).isSome := by
        intro address member
        rw [messages, if_neg (notFirst address member)]
        exact live address (List.mem_append_right _ member)
      obtain ⟨fuel, rfl⟩ := Nat.exists_eq_succ_of_ne_zero (Nat.ne_of_gt (Nat.zero_lt_of_lt enough))
      obtain ⟨cleared, looped, released⟩ := inductionHypothesis nextListed nextSame liveRest
        apartRest (Nat.lt_of_succ_lt_succ enough)
      obtain ⟨element, loaded, behind⟩ := next_of_first nextListed
      refine ⟨cleared, ?_, released.head, released.peers.trans peers, ?_, ?_⟩
      · simp only [HashedStore.clearLoop, deleted, List.head?_cons, loaded, behind, looped, bind,
          Except.bind]
      · rw [firstsOf_cons, List.length_append, count, released.count]
        omega
      · intro address
        rw [firstsOf_cons, released.messages, messages]
        by_cases inRest : address ∈ firstsOf entries
        · simp [inRest]
        · simp [inRest]

theorem clearDatastructs_spec {store : Store} (implements : Implements hashed store)
    (live : ∀ address ∈ store.firsts, (store.messages.load address).isSome)
    (apart : store.firsts.Nodup) :
    ∃ cleared, hashed.clearDatastructs = .ok cleared ∧ Released hashed cleared store.firsts := by
  obtain ⟨order, listed, same⟩ := implements.peers
  rw [← firsts_eq] at live apart ⊢
  rw [← implements.messages] at live
  cases head : hashed.peers.head with
  | none =>
      have empty : order = [] := by
        rw [ListedIn, head] at listed
        exact listed
      rw [empty] at same
      have noEntries : store.head.map byteEntry = [] := List.map_eq_nil_iff.mp same.symm
      refine ⟨hashed, by simp only [HashedStore.clearDatastructs, head], head, rfl, ?_, ?_⟩
      · rw [noEntries]
        rfl
      · rw [noEntries]
        exact fun address => rfl
  | some found =>
      obtain ⟨first, tbl⟩ := found
      have bounded := listed
      rw [ListedIn, head] at bounded
      obtain ⟨isFirst, table⟩ := bounded
      obtain ⟨rest, rfl⟩ : ∃ rest, order = first :: rest := by
        cases order with
        | nil => contradiction
        | cons p rest => exact ⟨rest, by rw [Option.some.inj isFirst]⟩
      obtain ⟨element, loaded, behind⟩ := next_of_first listed
      obtain ⟨cleared, looped, released⟩ := clearLoop_spec listed same live apart
        table.ordered.length_le_limit
      refine ⟨cleared, ?_, released⟩
      simp only [HashedStore.clearDatastructs, head, loaded, behind, looped, bind, Except.bind]

/-! ## The first messages -/

section Firsts

variable {store : Store} {table : UnreadTable}

private theorem Represents.head_mem {owned : List Owned} (represents : Represents store owned)
    {peer : Owned} (member : peer ∈ owned) {address : Address}
    (first : peer.peer.msg = some address) : address ∈ peer.addresses := by
  have chain := represents.chains peer member
  unfold Owned.addresses
  cases split : peer.cells with
  | nil =>
      rw [split] at chain
      exact absurd (first.symm.trans chain) (by simp)
  | cons cell rest =>
      rw [split] at chain
      cases first.symm.trans chain.1
      exact List.mem_cons_self

theorem Refines.firsts_live (refines : Refines store table) :
    ∀ address ∈ store.firsts, (store.messages.load address).isSome := by
  obtain ⟨owned, represents, _⟩ := refines
  intro address member
  rw [Store.firsts, represents.table, List.filterMap_map] at member
  obtain ⟨peer, inOwned, first⟩ := List.mem_filterMap.mp member
  obtain ⟨cell, inCells, isAddress⟩ := List.mem_map.mp (represents.head_mem inOwned first)
  rw [← isAddress, (represents.chains peer inOwned).load_of_mem inCells]
  rfl

theorem Refines.firsts_nodup (refines : Refines store table) : store.firsts.Nodup := by
  obtain ⟨owned, represents, _⟩ := refines
  rw [Store.firsts, represents.table, List.filterMap_map, List.Nodup, List.pairwise_filterMap]
  refine represents.disjoint.imp_of_mem ?_
  intro left right inLeft inRight disjoint address first other second same
  subst same
  exact disjoint (represents.head_mem inLeft first) (represents.head_mem inRight second)

theorem Refines.firsts_length (refines : Refines store table) :
    store.firsts.length = table.keys.length := by
  rw [← refines.head_keys, List.length_map, Store.firsts]
  have all : ∀ entry ∈ store.head, entry.2.msg.isSome := fun entry member =>
    Option.isSome_iff_ne_none.mpr (refines.head_peers member).2
  generalize store.head = head at all
  induction head with
  | nil => rfl
  | cons entry rest inductionHypothesis =>
      obtain ⟨first, isFirst⟩ := Option.isSome_iff_exists.mp (all entry List.mem_cons_self)
      have others := inductionHypothesis fun other member =>
        all other (List.mem_cons_of_mem _ member)
      simp only [List.filterMap_cons, isFirst, List.length_cons, others]

end Firsts

/-- After any run of commands the allocated messages are as many as the unread ones, and
`clear_datastructs` releases the oldest message of every peer and no other: every later
message and every peer that was ever allocated stays allocated. -/
theorem clear_releases_first_messages (requests : List Request)
    (admissible : ∀ request ∈ requests, request.Admissible) :
    ∃ hashed store trace cleared, HashedStore.empty.run requests = .ok (hashed, trace) ∧
      run Store.empty requests = .ok (store, trace) ∧
      hashed.clearDatastructs = .ok cleared ∧ cleared.peers.head = none ∧
      hashed.messages.allocated = (QueueTable.empty.after (ops requests)).total ∧
      (∀ address, cleared.messages.load address =
        if address ∈ store.firsts then none else hashed.messages.load address) ∧
      cleared.messages.allocated + (QueueTable.empty.after (ops requests)).keys.length =
        (QueueTable.empty.after (ops requests)).total ∧
      cleared.allocatedPeers = QueueTable.empty.created (ops requests) := by
  obtain ⟨hashed, store, trace, hashedRan, ran, holds⟩ := memoryHolds_empty.run admissible
  obtain ⟨cleared, clearedAll, released⟩ := clearDatastructs_spec holds.implements
    holds.refines.firsts_live holds.refines.firsts_nodup
  have count := released.count
  rw [holds.implements.messages, holds.messages] at count
  refine ⟨hashed, store, trace, cleared, hashedRan, ran, clearedAll, released.head, ?_,
    released.messages, ?_, ?_⟩
  · rw [holds.implements.messages, holds.messages]
  · rw [count, holds.refines.firsts_length]
  · rw [released.peers, holds.peers, Nat.zero_add]

theorem clear_releases_first_messages_alice :
    ∃ hashed trace cleared,
      HashedStore.empty.run [sampleRecv "alice" "hi", sampleRecv "alice" "ho"] =
        .ok (hashed, trace) ∧
      hashed.clearDatastructs = .ok cleared ∧ hashed.messages.allocated = 2 ∧
      cleared.messages.allocated = 1 := by
  obtain ⟨hashed, store, trace, cleared, hashedRan, _, clearedAll, _, held, _, left, _⟩ :=
    clear_releases_first_messages [sampleRecv "alice" "hi", sampleRecv "alice" "ho"]
      (by unfold Request.Admissible; decide)
  exact ⟨hashed, trace, cleared, hashedRan, clearedAll, held, Nat.succ.inj left⟩

end End

end Torchat.Daemon
