import Torchat.Foundation.QueueTable
import Torchat.Daemon.Datastruct

/-!
Contract: the unread-message store refines a table of FIFO queues.

Owns the representation relation between the hash table with its linked lists
and the abstract table, and one simulation lemma for each operation: a stored
message is a push, an unread message handed out is a pop, and the list of peers
is the list of keys.

Does not own the backward links of the lists.
-/

set_option autoImplicit false

namespace Torchat.Daemon

open Torchat.Foundation
open Torchat.Foundation.Heap

/-- What the store keeps of a message. -/
structure Stored where
  content : CString
  date : CString
  cmd : Command
deriving DecidableEq

def Message.stored (message : Message) : Stored :=
  { content := message.content, date := message.date, cmd := message.cmd }

/-- The purpose of the store: unread messages by peer id. -/
abbrev UnreadTable := QueueTable CString Stored

/-- A peer of the table with the cells of its message list. -/
structure Owned where
  key : CString
  peer : Peer
  cells : List (Address × Message)

namespace Owned

def entry (owned : Owned) : CString × Peer := (owned.key, owned.peer)

def addresses (owned : Owned) : List Address := owned.cells.map Prod.fst

def queue (owned : Owned) : CString × List Stored :=
  (owned.key, owned.cells.map fun cell => cell.2.stored)

end Owned

/-- The table holds these peers under the ids in their arrays, their lists end,
and no two lists share a cell. -/
structure Represents (store : Store) (owned : List Owned) : Prop where
  table : store.head = owned.map Owned.entry
  ids : ∀ peer ∈ owned, peer.peer.id.read = some peer.key
  chains : ∀ peer ∈ owned, Chain Message.next store.messages peer.peer.msg peer.cells
  disjoint : owned.Pairwise fun left right => List.Disjoint left.addresses right.addresses

/-- The store holds the queues of an abstract table, in its order. -/
def Refines (store : Store) (table : UnreadTable) : Prop :=
  ∃ owned, Represents store owned ∧ table.entries = owned.map Owned.queue

theorem refines_empty : Refines Store.empty QueueTable.empty :=
  ⟨[], ⟨rfl, by simp, by simp, List.Pairwise.nil⟩, rfl⟩

/-! ## Peers of a represented store -/

private theorem mem_split {front back : List Owned} {peer other : Owned} :
    other ∈ front ++ peer :: back ↔ other = peer ∨ other ∈ front ∨ other ∈ back := by
  rw [List.mem_append, List.mem_cons]
  exact or_left_comm

namespace Represents

variable {store : Store} {owned front back : List Owned} {peer : Owned}

theorem keys (represents : Represents store owned) :
    store.head.map Prod.fst = owned.map Owned.key := by
  rw [represents.table, List.map_map]
  rfl

theorem lt_limit (represents : Represents store owned) (member : peer ∈ owned)
    {address : Address} (inPeer : address ∈ peer.addresses) :
    address < store.messages.limit := by
  obtain ⟨⟨found, message⟩, inCells, rfl⟩ := List.mem_map.mp inPeer
  exact lt_limit_of_load ((represents.chains peer member).load_of_mem inCells)

/-- What leaves the cells of the lists alone leaves the store represented. -/
theorem frame (represents : Represents store owned) {messages : Heap Message}
    (same : ∀ peer ∈ owned, ∀ address ∈ peer.addresses,
      messages.load address = store.messages.load address) :
    Represents { store with messages := messages } owned where
  table := represents.table
  ids := represents.ids
  chains := fun peer member => (represents.chains peer member).frame (same peer member)
  disjoint := represents.disjoint

/-- One peer may change its list, within its own cells and new ones. -/
theorem replace (represents : Represents store (front ++ peer :: back)) (after : Owned)
    (messages : Heap Message) (id : after.peer.id.read = some after.key)
    (chain : Chain Message.next messages after.peer.msg after.cells)
    (inside : ∀ address ∈ after.addresses,
      address ∈ peer.addresses ∨ store.messages.limit ≤ address)
    (same : ∀ address, address ∉ peer.addresses → address < store.messages.limit →
      messages.load address = store.messages.load address) :
    Represents
      { head := front.map Owned.entry ++ after.entry :: back.map Owned.entry,
        messages := messages }
      (front ++ after :: back) := by
  obtain ⟨frontDisjoint, backDisjoint, frontPeer⟩ := List.pairwise_append.mp represents.disjoint
  obtain ⟨peerBack, backDisjoint⟩ := List.pairwise_cons.mp backDisjoint
  have inOwned : ∀ other, other ∈ front ∨ other ∈ back → other ∈ front ++ peer :: back :=
    fun other member => mem_split.mpr (Or.inr member)
  have apart : ∀ other, other ∈ front ∨ other ∈ back →
      ∀ address ∈ other.addresses, address ∉ peer.addresses := by
    intro other member address inOther inPeer
    rcases member with inFront | inBack
    · exact frontPeer other inFront peer List.mem_cons_self inOther inPeer
    · exact peerBack other inBack inPeer inOther
  have apartAfter : ∀ other, other ∈ front ∨ other ∈ back →
      ∀ address ∈ other.addresses, address ∉ after.addresses := by
    intro other member address inOther inAfter
    rcases inside address inAfter with inPeer | new
    · exact apart other member address inOther inPeer
    · have old := represents.lt_limit (inOwned other member) inOther
      exact absurd new (Nat.not_le_of_lt old)
  have othersChain : ∀ other, other ∈ front ∨ other ∈ back →
      Chain Message.next messages other.peer.msg other.cells := by
    intro other member
    apply (represents.chains other (inOwned other member)).frame
    intro address inOther
    exact same address (apart other member address inOther)
      (represents.lt_limit (inOwned other member) inOther)
  refine ⟨by simp, ?_, ?_, ?_⟩
  · intro other member
    rcases mem_split.mp member with rfl | unchanged
    · exact id
    · exact represents.ids other (inOwned other unchanged)
  · intro other member
    rcases mem_split.mp member with rfl | unchanged
    · exact chain
    · exact othersChain other unchanged
  · rw [List.pairwise_append, List.pairwise_cons]
    refine ⟨frontDisjoint, ⟨?_, backDisjoint⟩, ?_⟩
    · intro other inBack address inAfter inOther
      exact apartAfter other (Or.inr inBack) address inOther inAfter
    · intro other inFront later inRest address inOther inLater
      rcases List.mem_cons.mp inRest with rfl | inBack
      · exact apartAfter other (Or.inl inFront) address inOther inLater
      · exact frontPeer other inFront later (List.mem_cons_of_mem _ inBack) inOther inLater

/-- A peer leaves the table. -/
theorem drop (represents : Represents store (front ++ peer :: back)) :
    Represents { store with head := front.map Owned.entry ++ back.map Owned.entry }
      (front ++ back) := by
  have sublist : (front ++ back).Sublist (front ++ peer :: back) :=
    (List.sublist_cons_self peer back).append_left front
  exact
    { table := by simp
      ids := fun other member => represents.ids other (sublist.subset member)
      chains := fun other member => represents.chains other (sublist.subset member)
      disjoint := represents.disjoint.sublist sublist }

/-- A peer without messages joins the table. -/
theorem add (represents : Represents store owned) {key : CString} {new : Peer}
    (id : new.id.read = some key) (noMessage : new.msg = none) :
    Represents { store with head := store.head ++ [(key, new)] }
      (owned ++ [{ key := key, peer := new, cells := [] }]) where
  table := by simp [represents.table, Owned.entry]
  ids := by
    intro other member
    rcases List.mem_append.mp member with old | new
    · exact represents.ids other old
    · rw [List.mem_singleton.mp new]
      exact id
  chains := by
    intro other member
    rcases List.mem_append.mp member with old | new
    · exact represents.chains other old
    · rw [List.mem_singleton.mp new]
      exact noMessage
  disjoint := by
    rw [List.pairwise_append]
    refine ⟨represents.disjoint, List.pairwise_singleton _ _, ?_⟩
    intro other _ new inNew address _ inNone
    rw [List.mem_singleton.mp inNew] at inNone
    exact List.not_mem_nil inNone

end Represents

/-! ## Operations on one peer -/

theorem getPeer_split {store : Store} {front back : List Owned} {peer : Owned}
    (represents : Represents store (front ++ peer :: back))
    (first : peer.key ∉ front.map Owned.key) : getPeer store peer.key = some peer.peer := by
  unfold getPeer
  rw [represents.table, List.map_append, List.map_cons]
  exact hashFind_split (by rw [List.map_map]; exact first)

theorem getPeer_eq_none {store : Store} {owned : List Owned} {id : CString}
    (represents : Represents store owned) (absent : id ∉ owned.map Owned.key) :
    getPeer store id = none := by
  unfold getPeer
  exact hashFind_eq_none (by rw [represents.keys]; exact absent)

/-- An id of at most 29 bytes fits the array of a peer with its terminator. -/
theorem insertPeer_spec {store : Store} {owned : List Owned} {id : CString}
    (represents : Represents store owned) (fits : id.length < 30) :
    ∃ after new, insertPeer store id = .ok after ∧
      Represents after (owned ++ [{ key := id, peer := new, cells := [] }]) := by
  have copied := CharArray.read_overwrite_zeroed fits
  cases overwritten : (CharArray.zeroed 30).overwrite id.bytes with
  | none => simp [overwritten] at copied
  | some array =>
      rw [overwritten, Option.bind_some] at copied
      refine ⟨_, { id := array, msg := none }, ?_, represents.add copied rfl⟩
      simp [insertPeer, newPeer, overwritten, readId, copied, bind, Except.bind]

/-- An id that fills the array or more does not become a peer. -/
theorem insertPeer_of_long {store : Store} {id : CString} (long : 30 ≤ id.length) :
    insertPeer store id = .error .outOfBounds := by
  unfold insertPeer newPeer
  cases overwritten : (CharArray.zeroed 30).overwrite id.bytes with
  | none => rfl
  | some array =>
      have notOver : ¬ 30 < id.bytes.length := by
        intro tooLong
        rw [(CharArray.overwrite_eq_none_iff _ _).mpr tooLong] at overwritten
        contradiction
      have full : id.length = 30 := Nat.le_antisymm (Nat.le_of_not_lt notOver) long
      have unterminated := CharArray.read_overwrite_full full overwritten
      simp [readId, unterminated, bind, Except.bind]

/-- The walk to the tail of a list that ends. -/
theorem getTail_of_chain {messages : Heap Message} {first tail : Address}
    {front : List (Address × Message)} {last : Message}
    (chain : Chain Message.next messages (some first) (front ++ [(tail, last)])) {fuel : Nat}
    (enough : front.length < fuel) : getTail messages fuel first = .ok tail := by
  induction front generalizing first fuel with
  | nil =>
      obtain ⟨starts, loaded, ends⟩ := chain
      cases starts
      cases fuel with
      | zero => omega
      | succ fuel =>
          change last.next = none at ends
          simp [getTail, loadMessage, loaded, ends, bind, Except.bind]
  | cons cell rest inductionHypothesis =>
      obtain ⟨starts, loaded, remaining⟩ := chain
      cases starts
      cases fuel with
      | zero => omega
      | succ fuel =>
          have nonempty : ∃ next, cell.2.next = some next := by
            cases rest with
            | nil => exact ⟨_, remaining.1⟩
            | cons later others => exact ⟨_, remaining.1⟩
          obtain ⟨next, link⟩ := nonempty
          rw [link] at remaining
          have walked := inductionHypothesis remaining (Nat.lt_of_succ_lt_succ enough)
          simp [getTail, loadMessage, loaded, link, walked, bind, Except.bind]

section OnePeer

variable {store : Store} {front back : List Owned} {peer : Owned}

/-- The message as `new_message` leaves it. -/
def freshMessage (content : CString) (cmd : Command) (now : Tm) : Message :=
  { content := content, date := getShortDate now, cmd := cmd, next := none, prev := none }

private theorem head_split (represents : Represents store (front ++ peer :: back)) :
    store.head = front.map Owned.entry ++ (peer.key, peer.peer) :: back.map Owned.entry := by
  rw [represents.table, List.map_append, List.map_cons]
  rfl

private theorem notMem_entries (first : peer.key ∉ front.map Owned.key) :
    peer.key ∉ (front.map Owned.entry).map Prod.fst := by
  rw [List.map_map]
  exact first

/-- The first message of a peer hangs at the peer itself. -/
private theorem insertNewMessage_first (represents : Represents store (front ++ peer :: back))
    (first : peer.key ∉ front.map Owned.key) (empty : peer.cells = []) (content : CString)
    (cmd : Command) (now : Tm) :
    ∃ after owned, insertNewMessage store peer.key content cmd now = .ok after ∧
      Represents after (front ++ owned :: back) ∧ owned.key = peer.key ∧
      owned.queue.2 = [(freshMessage content cmd now).stored] := by
  have member : peer ∈ front ++ peer :: back := by simp
  have noMessage : peer.peer.msg = none := by
    have chain := represents.chains peer member
    rw [empty] at chain
    exact chain
  let owned : Owned :=
    { key := peer.key
      peer := { peer.peer with msg := some store.messages.limit }
      cells := [(store.messages.limit, freshMessage content cmd now)] }
  refine ⟨_, owned, ?_, represents.replace owned
    (newMessage store.messages content (getShortDate now) cmd).2 (represents.ids peer member)
    ⟨rfl, load_alloc_self _ _, rfl⟩ ?_ ?_, rfl, rfl⟩
  · simp only [insertNewMessage, getPeer_split represents first, noMessage,
      head_split represents, setMsg_split (notMem_entries first)]
    rfl
  · intro address inNew
    exact Or.inr (Nat.le_of_eq (List.mem_singleton.mp inNew).symm)
  · intro address _ below
    exact load_alloc_of_lt _ below

/-- The two writes that link a new cell behind the tail of a list. -/
theorem link_tail {messages : Heap Message} {start : Option Address}
    {older : List (Address × Message)} {tail : Address} {last : Message}
    (chain : Chain Message.next messages start (older ++ [(tail, last)])) {fresh : Message}
    (unlinked : fresh.next = none) :
    ∃ linked after,
      (messages.alloc fresh).2.store tail { last with next := some messages.limit } =
        some linked ∧
      linked.load messages.limit = some fresh ∧
      linked.store messages.limit { fresh with prev := some tail } = some after ∧
      Chain Message.next after start
        (older ++ [(tail, { last with next := some messages.limit }),
          (messages.limit, { fresh with prev := some tail })]) ∧
      ∀ address, address ≠ tail → address ≠ messages.limit →
        after.load address = messages.load address := by
  have nodup := chain.nodup
  have tailBelow : tail < messages.limit :=
    lt_limit_of_load (chain.load_of_mem (by simp : (tail, last) ∈ older ++ [(tail, last)]))
  have tailNotNew : tail ≠ messages.limit := Nat.ne_of_lt tailBelow
  have tailLoaded : (messages.alloc fresh).2.load tail = some last :=
    (chain.alloc fresh).load_of_mem (by simp)
  obtain ⟨linked, linkStored, _, linkedTail, linkedElsewhere⟩ :=
    store_of_load tailLoaded { last with next := some messages.limit }
  have newLoaded : linked.load messages.limit = some fresh := by
    rw [linkedElsewhere _ (Ne.symm tailNotNew)]
    exact load_alloc_self _ _
  obtain ⟨after, backStored, _, afterNew, afterElsewhere⟩ :=
    store_of_load newLoaded { fresh with prev := some tail }
  have same : ∀ address, address ≠ tail → address ≠ messages.limit →
      after.load address = messages.load address := by
    intro address notTail notNew
    rw [afterElsewhere _ notNew, linkedElsewhere _ notTail]
    exact load_alloc_of_ne _ notNew
  have tailAfter : after.load tail = some { last with next := some messages.limit } := by
    rw [afterElsewhere _ tailNotNew, linkedTail]
  refine ⟨linked, after, linkStored, newLoaded, backStored, ?_, same⟩
  apply chain.extend tailAfter rfl afterNew unlinked
  intro address inOlder
  apply same address
  · rintro rfl
    rw [List.map_append] at nodup
    exact List.disjoint_of_nodup_append nodup inOlder (by simp)
  · obtain ⟨⟨found, message⟩, inCells, rfl⟩ := List.mem_map.mp inOlder
    exact Nat.ne_of_lt (lt_limit_of_load (chain.load_of_mem (List.mem_append_left _ inCells)))

/-- A message for a peer with a list that ends. -/
theorem insertNewMessage_of_chain {store : Store} {id : CString} {peer : Peer} {first : Address}
    (found : getPeer store id = some peer) (starts : peer.msg = some first)
    {older : List (Address × Message)} {tail : Address} {last : Message}
    (chain : Chain Message.next store.messages (some first) (older ++ [(tail, last)]))
    (content : CString) (cmd : Command) (now : Tm) :
    ∃ after, insertNewMessage store id content cmd now = .ok { store with messages := after } ∧
      Chain Message.next after (some first)
        (older ++ [(tail, { last with next := some store.messages.limit }),
          (store.messages.limit, { freshMessage content cmd now with prev := some tail })]) ∧
      ∀ address, address ≠ tail → address ≠ store.messages.limit →
        after.load address = store.messages.load address := by
  obtain ⟨linked, after, linkStored, newLoaded, backStored, chainAfter, same⟩ :=
    link_tail chain (rfl : (freshMessage content cmd now).next = none)
  have short := chain.length_le_limit
  rw [List.length_append] at short
  have allocated := chain.alloc (freshMessage content cmd now)
  have tailLoaded : (store.messages.alloc (freshMessage content cmd now)).2.load tail =
      some last := allocated.load_of_mem (by simp)
  have tailFound := getTail_of_chain allocated
    (Nat.lt_succ_of_le (Nat.le_of_add_right_le short))
  have allocates : newMessage store.messages content (getShortDate now) cmd =
      (store.messages.limit, (store.messages.alloc (freshMessage content cmd now)).2) := rfl
  have limit : (store.messages.alloc (freshMessage content cmd now)).2.limit =
      store.messages.limit + 1 := rfl
  refine ⟨after, ?_, chainAfter, same⟩
  simp only [insertNewMessage, allocates, limit, found, starts, tailFound, loadMessage,
    tailLoaded, storeMessage, linkStored, newLoaded, backStored, bind, Except.bind]

/-- A later one is linked behind the tail of the list. -/
private theorem insertNewMessage_append (represents : Represents store (front ++ peer :: back))
    (first : peer.key ∉ front.map Owned.key) {older : List (Address × Message)}
    {tail : Address} {last : Message} (split : peer.cells = older ++ [(tail, last)])
    (content : CString) (cmd : Command) (now : Tm) :
    ∃ after owned, insertNewMessage store peer.key content cmd now = .ok after ∧
      Represents after (front ++ owned :: back) ∧ owned.key = peer.key ∧
      owned.queue.2 = peer.queue.2 ++ [(freshMessage content cmd now).stored] := by
  have member : peer ∈ front ++ peer :: back := by simp
  have chain := represents.chains peer member
  rw [split] at chain
  -- The list starts somewhere, so the walk to its tail is made.
  obtain ⟨start, starts⟩ : ∃ start, peer.peer.msg = some start := by
    cases older with
    | nil => exact ⟨_, chain.1⟩
    | cons => exact ⟨_, chain.1⟩
  rw [starts] at chain
  obtain ⟨after, inserted, chainAfter, same⟩ :=
    insertNewMessage_of_chain (getPeer_split represents first) starts chain content cmd now
  let owned : Owned :=
    { key := peer.key
      peer := peer.peer
      cells := older ++ [(tail, { last with next := some store.messages.limit }),
        (store.messages.limit, { freshMessage content cmd now with prev := some tail })] }
  have sameHead := head_split represents
  refine ⟨{ store with messages := after }, owned, inserted, ?_, rfl, ?_⟩
  · rw [sameHead]
    rw [← starts] at chainAfter
    apply represents.replace owned after (represents.ids peer member) chainAfter
    · intro address inOwned
      simp only [Owned.addresses, owned, split, List.map_append, List.map_cons, List.map_nil,
        List.mem_append, List.mem_cons, List.not_mem_nil, or_false] at inOwned ⊢
      rcases inOwned with inOlder | isTail | isNew
      · exact Or.inl (Or.inl inOlder)
      · exact Or.inl (Or.inr isTail)
      · exact Or.inr (Nat.le_of_eq isNew.symm)
    · intro address notInPeer below
      have inPeer : tail ∈ peer.addresses := by simp [Owned.addresses, split]
      exact same address (fun isTail => notInPeer (isTail ▸ inPeer)) (Nat.ne_of_lt below)
  · simp [Owned.queue, owned, split, Message.stored]

/-- A new message becomes the last one of its peer. -/
theorem insertNewMessage_spec (represents : Represents store (front ++ peer :: back))
    (first : peer.key ∉ front.map Owned.key) (content : CString) (cmd : Command) (now : Tm) :
    ∃ after owned, insertNewMessage store peer.key content cmd now = .ok after ∧
      Represents after (front ++ owned :: back) ∧ owned.queue = (peer.key, peer.queue.2 ++
        [{ content := content, date := getShortDate now, cmd := cmd }]) := by
  rcases List.eq_nil_or_concat peer.cells with empty | ⟨older, ⟨tail, last⟩, split⟩
  · obtain ⟨after, owned, inserted, represented, key, queue⟩ :=
      insertNewMessage_first represents first empty content cmd now
    refine ⟨after, owned, inserted, represented, Prod.ext key ?_⟩
    rw [queue, Owned.queue, empty]
    rfl
  · obtain ⟨after, owned, inserted, represented, key, queue⟩ :=
      insertNewMessage_append represents first (split.trans (List.concat_eq_append ..)) content
        cmd now
    exact ⟨after, owned, inserted, represented, Prod.ext key queue⟩

/-- The copy that is handed out. -/
def copyOf (message : Message) : Message :=
  { content := message.content, date := message.date, cmd := message.cmd,
    next := none, prev := none }

/-- A peer whose list starts behind its former head. -/
private def behindHead (peer : Owned) (message : Message) (rest : List (Address × Message)) :
    Owned :=
  { key := peer.key, peer := { peer.peer with msg := message.next }, cells := rest }

/-- After the head of the list has been copied and freed. -/
private theorem deleteMessage_spec (represents : Represents store (front ++ peer :: back))
    {address : Address} {message : Message} {rest : List (Address × Message)}
    (split : peer.cells = (address, message) :: rest) :
    ∃ messages, deleteMessage (store.messages.alloc (copyOf message)).2 address =
        .ok (message.next, messages) ∧
      messages.load store.messages.limit = some (copyOf message) ∧
      Represents
        { head := front.map Owned.entry ++
            (behindHead peer message rest).entry :: back.map Owned.entry,
          messages := messages }
        (front ++ behindHead peer message rest :: back) := by
  have member : peer ∈ front ++ peer :: back := by simp
  have chain := represents.chains peer member
  have nodup := chain.nodup
  rw [split] at chain nodup
  rw [List.map_cons, List.nodup_cons] at nodup
  obtain ⟨starts, loaded, remaining⟩ := chain
  have below : address < store.messages.limit := lt_limit_of_load loaded
  have inPeer : address ∈ peer.addresses := by simp [Owned.addresses, split]
  have loadedStill := (load_alloc_of_lt (copyOf message) below).trans loaded
  obtain ⟨messages, freed, _, _, elsewhere⟩ := free_of_load loadedStill
  have same : ∀ other, other ≠ address → other < store.messages.limit →
      messages.load other = store.messages.load other := by
    intro other different otherBelow
    rw [elsewhere other different]
    exact load_alloc_of_lt _ otherBelow
  refine ⟨messages, ?_, ?_, ?_⟩
  · simp [deleteMessage, loadMessage, loadedStill, freed, bind, Except.bind]
  · rw [elsewhere _ (Ne.symm (Nat.ne_of_lt below))]
    exact load_alloc_self _ _
  · refine represents.replace _ _ (represents.ids peer member) ?_ ?_ ?_
    · apply remaining.frame
      intro other inRest
      obtain ⟨⟨found, cell⟩, inCells, rfl⟩ := List.mem_map.mp inRest
      apply same found
      · rintro rfl
        exact nodup.1 inRest
      · exact lt_limit_of_load (remaining.load_of_mem inCells)
    · intro other inRest
      left
      have inCells : other ∈ ((address, message) :: rest).map Prod.fst :=
        List.mem_cons_of_mem _ inRest
      rw [← split] at inCells
      exact inCells
    · intro other notInPeer otherBelow
      exact same other (fun isHead => notInPeer (isHead ▸ inPeer)) otherBelow

/-- The copy is younger than every message of the lists. -/
private theorem copy_apart (represents : Represents store (front ++ peer :: back))
    {address : Address} {message : Message} {rest : List (Address × Message)}
    (split : peer.cells = (address, message) :: rest) {other : Owned}
    (member : other ∈ front ++ behindHead peer message rest :: back) :
    store.messages.limit ∉ other.addresses := by
  intro inOther
  rcases mem_split.mp member with rfl | unchanged
  · have inPeer : store.messages.limit ∈ peer.addresses := by
      rw [Owned.addresses, split]
      exact List.mem_cons_of_mem _ inOther
    exact Nat.lt_irrefl _ (represents.lt_limit (by simp) inPeer)
  · exact Nat.lt_irrefl _ (represents.lt_limit (mem_split.mpr (Or.inr unchanged)) inOther)

theorem newMessage_copy (messages : Heap Message) (message : Message) :
    newMessage messages message.content message.date message.cmd =
      (messages.limit, (messages.alloc (copyOf message)).2) := rfl

private theorem setMsg_behindHead (represents : Represents store (front ++ peer :: back))
    (first : peer.key ∉ front.map Owned.key) (message : Message)
    (rest : List (Address × Message)) :
    setMsg peer.key message.next store.head = front.map Owned.entry ++
      (behindHead peer message rest).entry :: back.map Owned.entry := by
  rw [head_split represents, setMsg_split (notMem_entries first)]
  rfl

/-- The list goes on behind its head. -/
private theorem getUnreadMessage_more (represents : Represents store (front ++ peer :: back))
    (first : peer.key ∉ front.map Owned.key) {address next : Address} {message : Message}
    (started : peer.peer.msg = some address) (loaded : store.messages.load address = some message)
    (more : message.next = some next) {messages : Heap Message}
    (deleted : deleteMessage (store.messages.alloc (copyOf message)).2 address =
      .ok (message.next, messages)) (rest : List (Address × Message)) :
    getUnreadMessage store peer.key = .ok (some store.messages.limit,
      ⟨front.map Owned.entry ++ (behindHead peer message rest).entry :: back.map Owned.entry,
        messages⟩) := by
  have kept := setMsg_behindHead represents first message rest
  rw [more] at deleted kept
  simp only [getUnreadMessage, getPeer_split represents first, started, loadMessage, loaded,
    newMessage_copy, deleted, kept, bind, Except.bind]

/-- With the last message the peer leaves the table. -/
private theorem getUnreadMessage_last (represents : Represents store (front ++ peer :: back))
    (first : peer.key ∉ front.map Owned.key) {address : Address} {message : Message}
    (started : peer.peer.msg = some address) (loaded : store.messages.load address = some message)
    (last : message.next = none) {messages : Heap Message}
    (deleted : deleteMessage (store.messages.alloc (copyOf message)).2 address =
      .ok (message.next, messages))
    (represented : Represents
      ⟨front.map Owned.entry ++ (behindHead peer message []).entry :: back.map Owned.entry,
        messages⟩ (front ++ behindHead peer message [] :: back)) :
    getUnreadMessage store peer.key = .ok (some store.messages.limit,
      ⟨front.map Owned.entry ++ back.map Owned.entry, messages⟩) := by
  have kept := setMsg_behindHead represents first message []
  have removed : hashDel peer.key (front.map Owned.entry ++
      (behindHead peer message []).entry :: back.map Owned.entry) =
      front.map Owned.entry ++ back.map Owned.entry := hashDel_split (notMem_entries first)
  have noMessage : (behindHead peer message []).peer.msg = none := last
  have alone := getPeer_split represented first
  change getPeer _ peer.key = _ at alone
  rw [last] at deleted kept
  simp only [getUnreadMessage, getPeer_split represents first, started, loadMessage, loaded,
    newMessage_copy, deleted, kept, deletePeer, alone, noMessage, removed, bind, Except.bind]

/-- The oldest message is handed out as a copy and leaves the list of its peer;
with the last one the peer leaves the table. -/
theorem getUnreadMessage_spec (represents : Represents store (front ++ peer :: back))
    (first : peer.key ∉ front.map Owned.key) {address : Address} {message : Message}
    {rest : List (Address × Message)} (split : peer.cells = (address, message) :: rest) :
    ∃ after remaining,
      getUnreadMessage store peer.key = .ok (some store.messages.limit, after) ∧
      (∃ copy, after.messages.load store.messages.limit = some copy ∧
        copy.stored = message.stored) ∧
      Represents after (front ++ remaining ++ back) ∧
      (∀ peer ∈ front ++ remaining ++ back, store.messages.limit ∉ peer.addresses) ∧
      remaining.map Owned.queue =
        if rest = [] then [] else [(peer.key, rest.map fun cell => cell.2.stored)] := by
  have chain := represents.chains peer (by simp)
  rw [split] at chain
  obtain ⟨started, loaded, remaining⟩ := chain
  obtain ⟨messages, deleted, copied, represented⟩ := deleteMessage_spec represents split
  cases rest with
  | nil =>
      refine ⟨_, [], getUnreadMessage_last represents first started loaded remaining deleted
        represented, ⟨copyOf message, copied, rfl⟩, ?_, ?_, rfl⟩
      · rw [List.append_nil]
        exact represented.drop
      · intro other inOwned
        rw [List.append_nil] at inOwned
        apply copy_apart represents split
        exact mem_split.mpr (Or.inr (List.mem_append.mp inOwned))
  | cons second others =>
      refine ⟨_, [behindHead peer message (second :: others)],
        getUnreadMessage_more represents first started loaded remaining.1 deleted
          (second :: others),
        ⟨copyOf message, copied, rfl⟩, ?_, ?_, rfl⟩
      · rw [List.append_assoc, List.singleton_append]
        exact represented
      · intro other inOwned
        rw [List.append_assoc, List.singleton_append] at inOwned
        exact copy_apart represents split inOwned

end OnePeer

/-! ## The list of peers -/

/-- The ids of a list with commas between them. -/
def commaList (ids : List CString) : Bytes := (ascii ",").intercalate (ids.map CString.bytes)

/-- What the second iteration writes: a comma behind every id. -/
private def listed (ids : List CString) : Bytes := ids.flatMap fun id => id.bytes ++ ascii ","

private theorem listed_dropLast {ids : List CString} (nonempty : ids ≠ []) :
    listed ids ≠ [] ∧ (listed ids).dropLast = commaList ids := by
  have comma : ascii "," = [0x2C] := rfl
  induction ids with
  | nil => exact absurd rfl nonempty
  | cons id rest inductionHypothesis =>
      cases rest with
      | nil => simp [listed, commaList, comma, List.intercalate]
      | cons second others =>
          obtain ⟨restNonempty, dropped⟩ := inductionHypothesis (by simp)
          have split : listed (id :: second :: others) =
              (id.bytes ++ ascii ",") ++ listed (second :: others) := rfl
          refine ⟨by simp [split, comma], ?_⟩
          rw [split, List.dropLast_append_of_ne_nil restNonempty, dropped]
          simp [commaList, List.intercalate, comma]

section Terminated

variable {peers : List (CString × Peer)} {ids : List CString}

/-- What the arrays of a table of terminated ids are read as. -/
private theorem ids_cons {entry : CString × Peer}
    (terminated : (entry :: peers).map (fun entry => entry.2.id.read) = ids.map some) :
    ∃ id rest, ids = id :: rest ∧ readId entry.2 = .ok id ∧
      peers.map (fun entry => entry.2.id.read) = rest.map some := by
  cases ids with
  | nil => contradiction
  | cons id rest =>
      rw [List.map_cons, List.map_cons, List.cons.injEq] at terminated
      refine ⟨id, rest, rfl, ?_, terminated.2⟩
      rw [readId, terminated.1]

private theorem peerListSize_spec
    (terminated : peers.map (fun entry => entry.2.id.read) = ids.map some) :
    peerListSize peers = .ok (listed ids).length := by
  induction peers generalizing ids with
  | nil =>
      cases ids with
      | nil => rfl
      | cons => contradiction
  | cons entry rest inductionHypothesis =>
      obtain ⟨id, others, rfl, read, terminatedRest⟩ := ids_cons terminated
      have size := inductionHypothesis terminatedRest
      have comma : (ascii ",").length = 1 := rfl
      simp only [peerListSize, read, size, bind, Except.bind, listed, List.flatMap_cons,
        List.length_append, comma]
      rfl

private theorem appendPeers_spec {capacity : Nat} {buffer : Bytes}
    (terminated : peers.map (fun entry => entry.2.id.read) = ids.map some)
    (room : buffer.length + (listed ids).length < capacity) :
    appendPeers capacity buffer peers = .ok (buffer ++ listed ids) := by
  induction peers generalizing ids buffer with
  | nil =>
      cases ids with
      | nil => simp [appendPeers, listed]
      | cons => contradiction
  | cons entry rest inductionHypothesis =>
      obtain ⟨id, others, rfl, read, terminatedRest⟩ := ids_cons terminated
      have split : listed (id :: others) = (id.bytes ++ ascii ",") ++ listed others := rfl
      rw [split, List.length_append, List.length_append] at room
      have idFits : (buffer ++ id.bytes).length < capacity := by
        rw [List.length_append]
        omega
      have commaFits : (buffer ++ id.bytes ++ ascii ",").length < capacity := by
        rw [List.length_append, List.length_append]
        omega
      have restRoom : (buffer ++ id.bytes ++ ascii ",").length + (listed others).length <
          capacity := by
        rw [List.length_append, List.length_append]
        omega
      have appended := inductionHypothesis terminatedRest restRoom
      simp only [appendPeers, read, strncat, if_pos idFits, if_pos commaFits, appended, bind,
        Except.bind]
      simp [split]

end Terminated

/-- The block of `get_peer_list` has room for what is appended to it, and a comma at its end. -/
theorem getPeerList_of_terminated {store : Store} {ids : List CString}
    (terminated : store.head.map (fun entry => entry.2.id.read) = ids.map some)
    (nonempty : store.head ≠ []) :
    getPeerList store = .ok (some (CString.ofBytes (commaList ids))) := by
  have someIds : ids ≠ [] := by
    rintro rfl
    exact nonempty (List.map_eq_nil_iff.mp terminated)
  obtain ⟨written, dropped⟩ := listed_dropLast someIds
  have size := peerListSize_spec terminated
  have room : ([] : Bytes).length + (listed ids).length < (listed ids).length + 1 := by simp
  have appended := appendPeers_spec terminated room
  unfold getPeerList
  split
  next empty => exact absurd empty nonempty
  next =>
    simp only [size, appended, bind, Except.bind, List.nil_append, List.length_eq_zero_iff,
      if_neg written, dropped]

theorem getPeerList_spec {store : Store} {owned : List Owned}
    (represents : Represents store owned) (nonempty : owned ≠ []) :
    getPeerList store = .ok (some (CString.ofBytes (commaList (owned.map Owned.key)))) := by
  apply getPeerList_of_terminated
  · rw [represents.table, List.map_map, List.map_map]
    exact List.map_congr_left represents.ids
  · rw [represents.table]
    simpa using nonempty

/-! ## Simulation -/

namespace Refines

variable {store : Store} {table : UnreadTable} {id : CString}

private theorem keys_eq {owned : List Owned} (same : table.entries = owned.map Owned.queue) :
    table.keys = owned.map Owned.key := by
  rw [QueueTable.keys, same, List.map_map]
  rfl

/-- An id of the abstract table is the id of one peer of the store. -/
private theorem split_of_mem (refines : Refines store table) (present : id ∈ table.keys) :
    ∃ front peer back, Represents store (front ++ peer :: back) ∧ peer.key = id ∧
      id ∉ front.map Owned.key ∧
      table.entries = front.map Owned.queue ++ (id, peer.queue.2) :: back.map Owned.queue := by
  obtain ⟨owned, represents, same⟩ := refines
  have nodup := table.nodup
  have keys := keys_eq same
  rw [keys] at present
  change table.keys.Nodup at nodup
  rw [keys] at nodup
  obtain ⟨peer, inOwned, rfl⟩ := List.mem_map.mp present
  obtain ⟨front, back, rfl⟩ := List.append_of_mem inOwned
  refine ⟨front, peer, back, represents, rfl, ?_, by rw [same, List.map_append]; rfl⟩
  rw [List.map_append, List.map_cons] at nodup
  intro inFront
  exact List.disjoint_of_nodup_append nodup inFront List.mem_cons_self

private theorem notMem_queues {front : List Owned} (first : id ∉ front.map Owned.key) :
    id ∉ (front.map Owned.queue).map Prod.fst := by
  rw [List.map_map]
  exact first

private theorem lookup_split {front back : List Owned} {queue : List Stored}
    (entries : table.entries = front.map Owned.queue ++ (id, queue) :: back.map Owned.queue)
    (first : id ∉ front.map Owned.key) : table.lookup id = queue := by
  show QueueTable.lookupIn _ table.entries = _
  rw [entries, QueueTable.lookupIn_split (notMem_queues first)]

theorem getPeer_of_notMem (refines : Refines store table) (absent : id ∉ table.keys) :
    getPeer store id = none := by
  obtain ⟨owned, represents, same⟩ := refines
  exact getPeer_eq_none represents (keys_eq same ▸ absent)

/-- The keys of the hash table are the keys of the abstract table. -/
theorem head_keys (refines : Refines store table) : store.head.map Prod.fst = table.keys := by
  obtain ⟨owned, represents, same⟩ := refines
  rw [represents.keys, keys_eq same]

/-- Every peer is found under the id in its array, and its list has a head. -/
theorem head_peers (refines : Refines store table) {entry : CString × Peer}
    (member : entry ∈ store.head) : entry.2.id.read = some entry.1 ∧ entry.2.msg ≠ none := by
  obtain ⟨owned, represents, same⟩ := refines
  rw [represents.table] at member
  obtain ⟨peer, inOwned, rfl⟩ := List.mem_map.mp member
  refine ⟨represents.ids peer inOwned, ?_⟩
  have nonempty := table.nonempty peer.queue (by rw [same]; exact List.mem_map_of_mem inOwned)
  have chain := represents.chains peer inOwned
  cases split : peer.cells with
  | nil =>
      rw [Owned.queue, split] at nonempty
      exact absurd rfl nonempty
  | cons cell rest =>
      rw [split] at chain
      intro noMessage
      have clash := noMessage.symm.trans chain.1
      contradiction

/-- `peer_exist` answers whether the id has an unread message. -/
theorem peerExist_iff (refines : Refines store table) (id : CString) :
    peerExist store id = true ↔ id ∈ table.keys := by
  unfold peerExist
  by_cases present : id ∈ table.keys
  · obtain ⟨front, peer, back, represents, rfl, first, _⟩ := refines.split_of_mem present
    simp [getPeer_split represents first, present]
  · simp [refines.getPeer_of_notMem present, present]

/-- A message for a peer of the table. -/
theorem insertNewMessage (refines : Refines store table) (present : id ∈ table.keys)
    (content : CString) (cmd : Command) (now : Tm) :
    ∃ after, Daemon.insertNewMessage store id content cmd now = .ok after ∧
      Refines after (table.push id
        { content := content, date := getShortDate now, cmd := cmd }) := by
  obtain ⟨front, peer, back, represents, rfl, first, entries⟩ := refines.split_of_mem present
  obtain ⟨after, owned, inserted, represented, queue⟩ :=
    insertNewMessage_spec represents first content cmd now
  refine ⟨after, inserted, front ++ owned :: back, represented, ?_⟩
  have notBefore := notMem_queues first
  show QueueTable.pushIn _ _ table.entries = _
  rw [entries, QueueTable.pushIn_split notBefore, List.map_append, List.map_cons, queue]

/-- A message for an id that has to become a peer first. -/
theorem insertPeer (refines : Refines store table) (absent : id ∉ table.keys)
    (fits : id.length < 30) (content : CString) (cmd : Command) (now : Tm) :
    ∃ between after, Daemon.insertPeer store id = .ok between ∧
      Daemon.insertNewMessage between id content cmd now = .ok after ∧
      Refines after (table.push id
        { content := content, date := getShortDate now, cmd := cmd }) := by
  obtain ⟨owned, represents, same⟩ := refines
  obtain ⟨between, new, inserted, represented⟩ := insertPeer_spec represents fits
  have notBefore : id ∉ owned.map Owned.key := keys_eq same ▸ absent
  obtain ⟨after, grown, appended, representedAfter, queue⟩ :=
    insertNewMessage_spec represented notBefore content cmd now
  refine ⟨between, after, inserted, appended, owned ++ [grown], representedAfter, ?_⟩
  show QueueTable.pushIn _ _ table.entries = _
  rw [QueueTable.pushIn_of_notMem absent, same, List.map_append, List.map_singleton, queue]
  rfl

theorem getUnreadMessage_of_notMem (refines : Refines store table) (absent : id ∉ table.keys) :
    getUnreadMessage store id = .ok (none, store) := by
  simp [getUnreadMessage, refines.getPeer_of_notMem absent]

/-- The oldest message of a peer is handed out in a cell of its own. -/
theorem getUnreadMessage_of_mem (refines : Refines store table) (present : id ∈ table.keys) :
    ∃ oldest later after retMsg copy, table.lookup id = oldest :: later ∧
      getUnreadMessage store id = .ok (some retMsg, after) ∧
      after.messages.load retMsg = some copy ∧ copy.stored = oldest ∧
      ∀ messages, after.messages.free retMsg = some messages →
        Refines { after with messages := messages } (table.pop id) := by
  have nonempty := (table.mem_keys_iff id).mp present
  obtain ⟨front, peer, back, represents, rfl, first, entries⟩ := refines.split_of_mem present
  have notBefore := notMem_queues first
  have lookup := lookup_split entries first
  cases split : peer.cells with
  | nil =>
      rw [lookup, Owned.queue, split] at nonempty
      exact absurd rfl nonempty
  | cons cell rest =>
      obtain ⟨after, remaining, handedOut, ⟨copy, loaded, sameCopy⟩, represented, apart, queues⟩ :=
        getUnreadMessage_spec represents first split
      refine ⟨cell.2.stored, rest.map fun cell => cell.2.stored, after, _, copy, ?_, handedOut,
        loaded, sameCopy, ?_⟩
      · rw [lookup, Owned.queue, split]
        rfl
      · intro messages freed
        refine ⟨front ++ remaining ++ back, represented.frame ?_, ?_⟩
        · obtain ⟨found, freedFound, _, _, elsewhere⟩ := free_of_load loaded
          rw [freed] at freedFound
          cases freedFound
          intro other member address inOther
          apply elsewhere
          rintro rfl
          exact apart other member inOther
        · show QueueTable.popIn _ table.entries = _
          rw [entries, List.map_append, List.map_append, queues, Owned.queue, split]
          cases rest with
          | nil =>
              rw [if_pos rfl, List.append_nil]
              exact QueueTable.popIn_split_last notBefore _
          | cons second others =>
              rw [if_neg (by simp), List.append_assoc, List.singleton_append]
              exact QueueTable.popIn_split_more notBefore _ _ _

/-- The list of peers is the list of keys. -/
theorem getPeerList (refines : Refines store table) :
    Daemon.getPeerList store =
      .ok (if table.keys = [] then none else some (CString.ofBytes (commaList table.keys))) := by
  obtain ⟨owned, represents, same⟩ := refines
  rw [keys_eq same]
  cases owned with
  | nil => simp [Daemon.getPeerList, represents.table]
  | cons peer rest => rw [getPeerList_spec represents (by simp), if_neg (by simp)]

/-- Following the pointers of a peer's list finds its queue. -/
theorem queued (refines : Refines store table) (id : CString) :
    Daemon.queued store id = some ((table.lookup id).map Stored.content) := by
  unfold Daemon.queued
  by_cases present : id ∈ table.keys
  · obtain ⟨front, peer, back, represents, rfl, first, entries⟩ := refines.split_of_mem present
    have chain := represents.chains peer (by simp)
    have lookup := lookup_split entries first
    rw [getPeer_split represents first, lookup]
    simp only [walk_of_chain chain chain.length_le_limit, Option.map_some, Owned.queue,
      List.map_map]
    rfl
  · rw [refines.getPeer_of_notMem present, QueueTable.lookup_of_notMem present]
    rfl

/-- The head of a peer's list is the head of its queue. -/
theorem oldestUnread (refines : Refines store table) (id : CString) :
    (Daemon.oldestUnread store id).map Message.stored = (table.lookup id).head? := by
  unfold Daemon.oldestUnread
  by_cases present : id ∈ table.keys
  · have nonempty := (table.mem_keys_iff id).mp present
    obtain ⟨front, peer, back, represents, rfl, first, entries⟩ := refines.split_of_mem present
    have chain := represents.chains peer (by simp)
    have lookup := lookup_split entries first
    rw [lookup, Owned.queue] at nonempty ⊢
    rw [getPeer_split represents first]
    cases split : peer.cells with
    | nil => simp [split] at nonempty
    | cons cell rest =>
        rw [split] at chain
        obtain ⟨starts, loaded, _⟩ := chain
        have started : peer.peer.msg = some cell.1 := starts
        simp [started, loaded]
  · rw [refines.getPeer_of_notMem present, QueueTable.lookup_of_notMem present]
    rfl

end Refines

end Torchat.Daemon
