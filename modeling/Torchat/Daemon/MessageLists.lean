import Torchat.Foundation.Links
import Torchat.Foundation.Transition
import Torchat.Daemon.Unread

/-!
Contract: the message lists of `datastruct.c` as doubly linked lists.

`insert_new_message` sets both links between the tail and the new message, and
`delete_message` frees the head without a look at its successor. Owns the links in
both directions over whole runs of calls, and when they stay whole.

Does not own what the lists are for; see `StoreRefinement`.
-/

set_option autoImplicit false

namespace Torchat.Daemon

open Torchat.Foundation
open Torchat.Foundation.Heap

/-! ## Calls -/

/-- A call of the store from the handlers. -/
inductive StoreCall where
  | storeMsg (data : DataWrapper) (now : Tm)
  | getUnreadMessage (peerId : CString)

/-- The store behind a call; there is none behind a fault. -/
def StoreCall.step (store : Store) : StoreCall → Option Store
  | .storeMsg data now => (Daemon.storeMsg store data now).toOption
  | .getUnreadMessage peerId => (Daemon.getUnreadMessage store peerId).toOption.map Prod.snd

/-- The first messages of the peers. -/
def Store.firsts (store : Store) : List Address := store.head.filterMap fun entry => entry.2.msg

/-- Every list is a doubly linked one that ends, and no link leads to a freed message. -/
structure WellLinked (store : Store) : Prop where
  first : ∀ address ∈ store.firsts, ∃ message, store.messages.load address = some message ∧
    message.prev = none
  back : ∀ {address message next}, store.messages.load address = some message →
    message.next = some next →
      ∃ successor, store.messages.load next = some successor ∧ successor.prev = some address
  ends : ∀ address ∈ store.firsts, ∃ cells, Chain Message.next store.messages (some address) cells
  tail : ∀ address ∈ store.firsts, ∃ last,
    getTail store.messages store.messages.limit address = .ok last
  live : ∀ {address message target}, store.messages.load address = some message →
    message.next = some target ∨ message.prev = some target →
      ∃ other, store.messages.load target = some other

/-- What a call has to meet: no message is taken from a peer that has another one. -/
def TakesLast (store : Store) : StoreCall → Prop
  | .storeMsg _ _ => True
  | .getUnreadMessage peerId =>
      ∀ message, oldestUnread store peerId = some message → message.next = none

/-! ## The invariant -/

/-- The links of the messages, with the first messages unlinked backwards and apart. -/
structure Woven (store : Store) : Prop where
  linked : Linked Message.next Message.prev store.messages
  first : ∀ address ∈ store.firsts, ∃ message, store.messages.load address = some message ∧
    message.prev = none
  apart : store.firsts.Nodup

section Steps

variable {store after : Store}

theorem woven_empty : Woven Store.empty :=
  ⟨Linked.empty, fun _ member => absurd member List.not_mem_nil, List.nodup_nil⟩

private theorem exists_chain_first (woven : Woven store) {address : Address}
    (member : address ∈ store.firsts) :
    ∃ cells, Chain Message.next store.messages (some address) cells := by
  apply woven.linked.exists_chain store.messages.limit
  intro found same
  cases same
  obtain ⟨message, loaded, _⟩ := woven.first address member
  exact ⟨Nat.le_add_left _ _, message, loaded⟩

/-- A list that starts has a last message. -/
private theorem exists_last (woven : Woven store) {address : Address}
    (member : address ∈ store.firsts) :
    ∃ older tail last,
      Chain Message.next store.messages (some address) (older ++ [(tail, last)]) := by
  obtain ⟨cells, chain⟩ := exists_chain_first woven member
  rcases List.eq_nil_or_concat cells with rfl | ⟨older, ⟨tail, last⟩, rfl⟩
  · contradiction
  · rw [List.concat_eq_append] at chain
    exact ⟨older, tail, last, chain⟩

theorem Woven.wellLinked (woven : Woven store) : WellLinked store where
  first := woven.first
  back := by
    intro address message next loaded link
    obtain ⟨_, successor⟩ := woven.linked.forward loaded link
    exact successor
  ends := fun address member => exists_chain_first woven member
  tail := by
    intro address member
    obtain ⟨older, tail, last, chain⟩ := exists_last woven member
    have short := chain.length_le_limit
    rw [List.length_append] at short
    exact ⟨tail, getTail_of_chain chain (Nat.lt_of_lt_of_le (Nat.lt_succ_self _) short)⟩
  live := by
    rintro address message target loaded (forth | back)
    · obtain ⟨_, other, found, _⟩ := woven.linked.forward loaded forth
      exact ⟨other, found⟩
    · obtain ⟨other, found, _⟩ := woven.linked.backward loaded back
      exact ⟨other, found⟩

private theorem firsts_split {front back : List (CString × Peer)} {id : CString} {peer : Peer}
    (split : store.head = front ++ (id, peer) :: back) :
    store.firsts = front.filterMap (fun entry => entry.2.msg) ++ peer.msg.toList ++
      back.filterMap fun entry => entry.2.msg := by
  unfold Store.firsts
  rw [split, List.filterMap_append, List.filterMap_cons]
  cases peer.msg with
  | none => simp
  | some first => simp

private theorem Woven.limit_notMem (woven : Woven store) : store.messages.limit ∉ store.firsts := by
  intro member
  obtain ⟨message, loaded, _⟩ := woven.first _ member
  exact Nat.lt_irrefl _ (lt_limit_of_load loaded)

/-- A peer without messages joins the table. -/
private theorem woven_insertPeer (woven : Woven store) {id : CString}
    (inserted : insertPeer store id = .ok after) : Woven after := by
  obtain ⟨new, created, inserted⟩ := bind_eq_ok inserted
  obtain ⟨key, _, inserted⟩ := bind_eq_ok inserted
  cases inserted
  have noMessage : new.msg = none := by
    unfold newPeer at created
    split at created
    · cases created
      rfl
    · contradiction
  have same : Store.firsts { store with head := store.head ++ [(key, new)] } = store.firsts := by
    simp [Store.firsts, noMessage]
  refine ⟨woven.linked, ?_, ?_⟩
  · rw [same]
    exact woven.first
  · rw [same]
    exact woven.apart

/-- The first message of a peer is linked to nothing. -/
private theorem woven_first (woven : Woven store) {front back : List (CString × Peer)}
    {id : CString} {peer : Peer} (split : store.head = front ++ (id, peer) :: back)
    (noMessage : peer.msg = none) {new : Message} (noNext : new.next = none)
    (noPrev : new.prev = none) :
    Woven
      { head := front ++ (id, { peer with msg := some store.messages.limit }) :: back,
        messages := (store.messages.alloc new).2 } := by
  have before := firsts_split split
  rw [noMessage, Option.toList_none, List.append_nil] at before
  have after : Store.firsts
      { head := front ++ (id, { peer with msg := some store.messages.limit }) :: back,
        messages := (store.messages.alloc new).2 } =
      front.filterMap (fun entry => entry.2.msg) ++ [store.messages.limit] ++
        back.filterMap fun entry => entry.2.msg :=
    @firsts_split _ front back id { peer with msg := some store.messages.limit } rfl
  rw [List.append_assoc, List.singleton_append] at after
  constructor
  case linked =>
    exact woven.linked.add (load_limit store.messages) (load_alloc_self _ _) noNext noPrev
      fun address different => load_alloc_of_ne new different
  case first =>
    intro address member
    rw [after, List.perm_middle.mem_iff, ← before, List.mem_cons] at member
    rcases member with rfl | member
    · exact ⟨new, load_alloc_self _ _, noPrev⟩
    · obtain ⟨message, loaded, noPrev⟩ := woven.first address member
      have below := lt_limit_of_load loaded
      exact ⟨message, (load_alloc_of_lt new below).trans loaded, noPrev⟩
  case apart =>
    rw [after, List.perm_middle.nodup_iff, ← before, List.nodup_cons]
    exact ⟨woven.limit_notMem, woven.apart⟩

/-- A later one is linked to the tail in both directions. -/
private theorem woven_behind (woven : Woven store) {messages : Heap Message} {first tail : Address}
    {older : List (Address × Message)} {last relinked new : Message}
    (chain : Chain Message.next store.messages (some first) (older ++ [(tail, last)]))
    (chainAfter : Chain Message.next messages (some first)
      (older ++ [(tail, relinked), (store.messages.limit, new)]))
    (kept : relinked.prev = last.prev) (back : new.prev = some tail)
    (same : ∀ address, address ≠ tail → address ≠ store.messages.limit →
      messages.load address = store.messages.load address) :
    Woven { store with messages := messages } := by
  have tailFound : store.messages.load tail = some last := chain.load_of_mem (by simp)
  have tailAfter : messages.load tail = some relinked := chainAfter.load_of_mem (by simp)
  have freshAfter : messages.load store.messages.limit = some new :=
    chainAfter.load_of_mem (by simp)
  have wasLast : last.next = none := chain.suffix.2.2
  obtain ⟨_, _, link, _, isLast⟩ := chainAfter.suffix
  constructor
  case linked =>
    exact woven.linked.extend (load_limit store.messages) tailFound wasLast
      (lt_limit_of_load tailFound) tailAfter link kept freshAfter isLast back same
  case first =>
    intro address member
    obtain ⟨message, loaded, noPrev⟩ := woven.first address member
    by_cases isTail : address = tail
    · subst isTail
      rw [tailFound] at loaded
      cases loaded
      exact ⟨relinked, tailAfter, kept.trans noPrev⟩
    · have notNew := Nat.ne_of_lt (lt_limit_of_load loaded)
      exact ⟨message, (same address isTail notNew).trans loaded, noPrev⟩
  case apart => exact woven.apart

private theorem woven_insertNewMessage (woven : Woven store) {id content : CString} {cmd : Command}
    {now : Tm} (inserted : insertNewMessage store id content cmd now = .ok after) :
    Woven after := by
  cases found : getPeer store id with
  | none =>
      simp [insertNewMessage, found] at inserted
  | some peer =>
      obtain ⟨front, back, split, absent⟩ := exists_split_of_hashFind found
      cases starts : peer.msg with
      | none =>
          simp only [insertNewMessage, found, starts, split, setMsg_split absent] at inserted
          cases inserted
          exact woven_first woven split starts rfl rfl
      | some first =>
          have member : first ∈ store.firsts := by
            rw [firsts_split split, starts]
            simp
          obtain ⟨older, tail, last, chain⟩ := exists_last woven member
          obtain ⟨messages, insertedHere, chainAfter, same⟩ :=
            insertNewMessage_of_chain found starts chain content cmd now
          rw [insertedHere] at inserted
          cases inserted
          exact woven_behind woven chain chainAfter rfl rfl same

private theorem woven_storeMsg (woven : Woven store) {data : DataWrapper} {now : Tm}
    (stored : storeMsg store data now = .ok after) : Woven after := by
  unfold storeMsg at stored
  split at stored
  next => exact woven_insertNewMessage woven stored
  next =>
    obtain ⟨between, inserted, stored⟩ := bind_eq_ok stored
    exact woven_insertNewMessage (woven_insertPeer woven inserted) stored

/-! ## The step that takes a message -/

private theorem load_of_loadMessage {messages : Heap Message} {address : Address}
    {message : Message} (loaded : loadMessage messages address = .ok message) :
    messages.load address = some message := by
  unfold loadMessage at loaded
  split at loaded
  next found =>
    cases loaded
    exact found
  next => contradiction

private theorem free_of_deleteMessage {messages freed : Heap Message} {address : Address}
    {next : Option Address} (deleted : deleteMessage messages address = .ok (next, freed)) :
    ∃ message, messages.load address = some message ∧ message.next = next ∧
      messages.free address = some freed := by
  obtain ⟨message, loaded, deleted⟩ := bind_eq_ok deleted
  split at deleted
  next found =>
    cases deleted
    exact ⟨message, load_of_loadMessage loaded, rfl, found⟩
  next => contradiction

/-- A call that takes a message: the head of a list is freed behind its copy, and the
list goes on with its successor or its peer leaves the table. -/
private theorem getUnreadMessage_cases {id : CString} {retMsg : Option Address}
    (taken : getUnreadMessage store id = .ok (retMsg, after)) :
    (oldestUnread store id = none ∧ after = store) ∨
      ∃ front peer back address message, store.head = front ++ (id, peer) :: back ∧
        peer.msg = some address ∧ oldestUnread store id = some message ∧
        store.messages.load address = some message ∧
        (store.messages.alloc (copyOf message)).2.free address = some after.messages ∧
        (message.next = none → after.head = front ++ back) := by
  cases found : getPeer store id with
  | none =>
      simp only [getUnreadMessage, found] at taken
      cases taken
      simp [oldestUnread, found]
  | some peer =>
      obtain ⟨front, back, split, absent⟩ := exists_split_of_hashFind found
      cases starts : peer.msg with
      | none =>
          simp only [getUnreadMessage, found, starts] at taken
          cases taken
          simp [oldestUnread, found, starts]
      | some address =>
          right
          simp only [getUnreadMessage, found, starts] at taken
          obtain ⟨message, loaded, taken⟩ := bind_eq_ok taken
          have loaded := load_of_loadMessage loaded
          rw [newMessage_copy] at taken
          obtain ⟨⟨next, messages⟩, deleted, taken⟩ := bind_eq_ok taken
          obtain ⟨again, loadedAgain, rfl, freed⟩ := free_of_deleteMessage deleted
          rw [load_alloc_of_lt _ (lt_limit_of_load loaded), loaded] at loadedAgain
          cases loadedAgain
          have oldest : oldestUnread store id = some message := by
            simp [oldestUnread, found, starts, loaded]
          refine ⟨front, peer, back, address, message, split, starts, oldest, loaded, ?_⟩
          dsimp only at taken
          split at taken
          next next more =>
            cases taken
            refine ⟨freed, fun last => ?_⟩
            rw [last] at more
            contradiction
          next last =>
            obtain ⟨between, removed, taken⟩ := bind_eq_ok taken
            cases taken
            rw [split, setMsg_split absent, last] at removed
            have alone : getPeer ⟨front ++ (id, { peer with msg := none }) :: back, messages⟩ id =
                some { peer with msg := none } := hashFind_split absent
            simp only [deletePeer, alone, hashDel_split absent] at removed
            cases removed
            exact ⟨freed, fun _ => rfl⟩

/-- The copy is linked to nothing. -/
private theorem linked_copy (woven : Woven store) (message : Message) :
    Linked Message.next Message.prev (store.messages.alloc (copyOf message)).2 :=
  woven.linked.add (load_limit store.messages) (load_alloc_self _ _) rfl rfl
    fun _ different => load_alloc_of_ne _ different

/-- The last message of a peer leaves. -/
private theorem woven_getUnreadMessage (woven : Woven store) {id : CString}
    (last : TakesLast store (.getUnreadMessage id)) {retMsg : Option Address}
    (taken : getUnreadMessage store id = .ok (retMsg, after)) : Woven after := by
  rcases getUnreadMessage_cases taken with
    ⟨_, rfl⟩ | ⟨front, peer, back, address, message, split, starts, oldest, loaded, freed, gone⟩
  · exact woven
  · have noNext := last message oldest
    have before := firsts_split split
    rw [starts, Option.toList_some, List.append_assoc, List.singleton_append] at before
    have behind : after.firsts = front.filterMap (fun entry => entry.2.msg) ++
        back.filterMap fun entry => entry.2.msg := by
      rw [Store.firsts, gone noNext, List.filterMap_append]
    have isFirst : address ∈ store.firsts := by
      rw [before]
      exact List.mem_append_right _ List.mem_cons_self
    obtain ⟨same, loadedAgain, noPrev⟩ := woven.first address isFirst
    rw [loaded] at loadedAgain
    cases loadedAgain
    have apart := woven.apart
    rw [before, List.perm_middle.nodup_iff, ← behind, List.nodup_cons] at apart
    have copied := (load_alloc_of_lt (copyOf message) (lt_limit_of_load loaded)).trans loaded
    obtain ⟨messages, freedHere, _, freedCell, elsewhere⟩ := free_of_load copied
    rw [freed] at freedHere
    cases freedHere
    constructor
    case linked => exact (linked_copy woven message).remove copied noNext noPrev freedCell elsewhere
    case first =>
      intro other member
      have notGone : other ≠ address := by
        rintro rfl
        exact apart.1 member
      have wasFirst : other ∈ store.firsts := by
        rw [before, List.perm_middle.mem_iff, ← behind]
        exact List.mem_cons_of_mem _ member
      obtain ⟨head, found, unlinked⟩ := woven.first other wasFirst
      refine ⟨head, ?_, unlinked⟩
      rw [elsewhere other notGone, load_alloc_of_lt _ (lt_limit_of_load found), found]
    case apart => exact apart.2

/-- A message that is not the last one leaves its successor with a link to it. -/
private theorem not_wellLinked_getUnreadMessage (woven : Woven store) {id : CString}
    (more : ¬ TakesLast store (.getUnreadMessage id)) {retMsg : Option Address}
    (taken : getUnreadMessage store id = .ok (retMsg, after)) : ¬ WellLinked after := by
  intro wellLinked
  rcases getUnreadMessage_cases taken with
    ⟨empty, _⟩ | ⟨_, _, _, address, message, _, _, oldest, loaded, freed, _⟩
  · apply more
    intro message oldest
    rw [empty] at oldest
    contradiction
  · have linksOn : message.next ≠ none := by
      intro last
      apply more
      intro other found
      rw [oldest] at found
      cases found
      exact last
    obtain ⟨later, link⟩ := Option.ne_none_iff_exists'.mp linksOn
    have copied := (load_alloc_of_lt (copyOf message) (lt_limit_of_load loaded)).trans loaded
    obtain ⟨messages, freedHere, _, freedCell, elsewhere⟩ := free_of_load copied
    rw [freed] at freedHere
    cases freedHere
    obtain ⟨successor, found, back⟩ :=
      (linked_copy woven message).dangling_of_free copied link elsewhere
    obtain ⟨other, live⟩ := wellLinked.live found (Or.inr back)
    rw [freedCell] at live
    contradiction

private theorem ok_of_toOption {ε α : Type} {result : Except ε α} {value : α}
    (same : result.toOption = some value) : result = .ok value := by
  cases result with
  | error => contradiction
  | ok other =>
      cases same
      rfl

private theorem woven_step {call : StoreCall} (woven : Woven store) (last : TakesLast store call)
    (stepped : call.step store = some after) : Woven after := by
  cases call with
  | storeMsg data now => exact woven_storeMsg woven (ok_of_toOption stepped)
  | getUnreadMessage peerId =>
      obtain ⟨⟨retMsg, behind⟩, taken, rfl⟩ := Option.map_eq_some_iff.mp stepped
      exact woven_getUnreadMessage woven last (ok_of_toOption taken)

private theorem not_wellLinked_step {call : StoreCall} (woven : Woven store)
    (more : ¬ TakesLast store call) (stepped : call.step store = some after) :
    ¬ WellLinked after := by
  cases call with
  | storeMsg data now => exact absurd trivial more
  | getUnreadMessage peerId =>
      obtain ⟨⟨retMsg, behind⟩, taken, rfl⟩ := Option.map_eq_some_iff.mp stepped
      exact not_wellLinked_getUnreadMessage woven more (ok_of_toOption taken)

end Steps

/-- In every run of calls, all states have whole lists exactly where no call takes a
message from a peer that has another one. -/
theorem wellLinked_iff (calls : List StoreCall) (store : Store)
    (ran : runActions StoreCall.step Store.empty calls = some store) :
    EachState StoreCall.step WellLinked Store.empty calls ↔
      EachStep StoreCall.step TakesLast Store.empty calls :=
  eachState_iff_eachStep (fun _ _ _ woven last stepped => woven_step woven last stepped)
    (fun _ woven => woven.wellLinked)
    (fun _ _ _ woven more stepped => not_wellLinked_step woven more stepped) woven_empty ran

/-- A peer writes a message, and the client reads it. -/
def sampleRead : List StoreCall :=
  [.storeMsg (sampleRecv "peer" "one").data sampleTime,
    .getUnreadMessage (CString.literal "peer")]

theorem wellLinked_iff_read :
    ∃ store, runActions StoreCall.step Store.empty sampleRead = some store ∧
      EachState StoreCall.step WellLinked Store.empty sampleRead := by
  refine ⟨_, rfl, (wellLinked_iff sampleRead _ rfl).mpr ⟨trivial, ?_, trivial⟩⟩
  intro message oldest
  cases oldest
  rfl

/-- The peer has written another one before. -/
def sampleReadFirst : List StoreCall :=
  .storeMsg (sampleRecv "peer" "zero").data sampleTime :: sampleRead

/-- The message that is left is linked back to the one that has been read and freed. -/
theorem second_message_dangles :
    ∃ store, runActions StoreCall.step Store.empty sampleReadFirst = some store ∧
      store.firsts = [1] ∧ (store.messages.load 1).map Message.prev = some (some 0) ∧
      store.messages.load 0 = none ∧
      ¬ EachState StoreCall.step WellLinked Store.empty sampleReadFirst := by
  refine ⟨_, rfl, rfl, rfl, rfl, fun each => ?_⟩
  have wellLinked : WellLinked _ := each.2.2.2
  obtain ⟨message, found, unlinked⟩ := wellLinked.first 1 List.mem_cons_self
  cases found
  contradiction

end Torchat.Daemon
