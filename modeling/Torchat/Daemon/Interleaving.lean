import Torchat.Foundation.HeapFrame
import Torchat.Daemon.Unread

/-!
Contract: handlers that take turns where they send their replies.

`torchatproto_msend` waits until its socket can be written to, and other coroutines run
meanwhile; what `client_update` has taken from the store is freed behind that wait. Owns
the handlers cut at the wait, their interleavings, and that these do to the store what the
requests do one after the other.

Does not own the waits in front of the switch, where nothing was taken yet; see `EventLoop`.
-/

set_option autoImplicit false

namespace Torchat.Daemon

open Torchat.Foundation

/-! ## Handlers -/

/-- `client_update` up to `torchatproto_msend`, with the message that it holds. -/
def beginUpdate (environment : Environment) (store : Store) (data : DataWrapper) :
    Except Fault (Store × List Effect × Option Address) := do
  let data := { data with id := data.msg }
  let (msg, store) ← getUnreadMessage store data.msg
  match msg with
  | none => .ok (store, [environment.answer { data with cmd := .end_ }], none)
  | some address => do
      let message ← loadMessage store.messages address
      let reply := { data with msg := message.content, cmd := message.cmd, date := message.date }
      .ok (store, [environment.answer reply], some address)

/-- `client_update` behind it. -/
def finishUpdate (store : Store) : Option Address → Except Fault Store
  | none => .ok store
  | some address => do
      let messages ← freeMessage store.messages address
      .ok { store with messages := messages }

/-- A handler that waits until its reply is sent. -/
structure Handler where
  request : Request
  effects : List Effect
  msg : Option Address

def Handler.step (handler : Handler) : Request × List Effect := (handler.request, handler.effects)

/-- The switch of `event_routine` up to the wait; a handler that sends nothing has nothing
left to do. -/
def Request.begin (request : Request) (store : Store) : Except Fault (Store × Handler) :=
  match request.data.cmd with
  | .update => do
      let (store, effects, msg) ← beginUpdate request.environment store request.data
      .ok (store, ⟨request, effects, msg⟩)
  | _ => do
      let outcome ← request.dispatch store
      .ok (outcome.store, ⟨request, outcome.effects, none⟩)

/-- The store, the handlers that wait, and those that have ended, in this order. -/
structure Handlers where
  store : Store
  waiting : List Handler
  ended : List (Request × List Effect)

/-- A request gets to the switch, or the scheduler goes on with a handler. -/
inductive Move where
  | arrive (request : Request)
  | goOn (index : Nat)

namespace Handlers

def initial : Handlers := ⟨Store.empty, [], []⟩

def move (handlers : Handlers) : Move → Except Fault Handlers
  | .arrive request => do
      let (store, handler) ← request.begin handlers.store
      .ok ⟨store, handlers.waiting ++ [handler], handlers.ended⟩
  | .goOn index =>
      match handlers.waiting[index]? with
      | none => .ok handlers
      | some handler => do
          let store ← finishUpdate handlers.store handler.msg
          .ok ⟨store, handlers.waiting.eraseIdx index, handlers.ended ++ [handler.step]⟩

def run : Handlers → List Move → Except Fault Handlers
  | handlers, [] => .ok handlers
  | handlers, move :: rest => do
      let handlers ← handlers.move move
      handlers.run rest

/-- The messages that handlers hold. -/
def held (handlers : Handlers) : List Address := handlers.waiting.filterMap Handler.msg

end Handlers

/-- The requests in the order in which they get to the switch. -/
def arrivals (moves : List Move) : List Request :=
  moves.filterMap fun move =>
    match move with
    | .arrive request => some request
    | .goOn _ => none

/-- A handler that nobody interrupts is the command. -/
theorem clientUpdate_eq (environment : Environment) (store : Store) (data : DataWrapper) :
    clientUpdate environment store data = (do
      let (store, effects, msg) ← beginUpdate environment store data
      let store ← finishUpdate store msg
      .ok (store, effects)) := by
  unfold clientUpdate beginUpdate
  dsimp only
  cases getUnreadMessage store data.msg with
  | error fault => rfl
  | ok handedOut =>
      obtain ⟨msg, after⟩ := handedOut
      cases msg with
      | none => rfl
      | some address =>
          cases loaded : loadMessage after.messages address with
          | error fault => simp only [loaded, bind, Except.bind]
          | ok message =>
              cases freed : freeMessage after.messages address with
              | error fault => simp only [loaded, freed, finishUpdate, bind, Except.bind]
              | ok messages => simp only [loaded, freed, finishUpdate, bind, Except.bind]

/-- A command begins and finishes where it is dispatched. -/
theorem begin_of_dispatch {request : Request} {store : Store} {outcome : Outcome}
    (dispatched : request.dispatch store = .ok outcome) :
    ∃ between msg, request.begin store = .ok (between, ⟨request, outcome.effects, msg⟩) ∧
      finishUpdate between msg = .ok outcome.store := by
  unfold Request.begin
  cases cmd : request.data.cmd with
  | update =>
      simp only [Request.dispatch, dispatch, cmd, clientUpdate_eq] at dispatched
      obtain ⟨⟨left, effects⟩, updated, same⟩ := bind_eq_ok dispatched
      obtain ⟨⟨between, begun, msg⟩, began, rest⟩ := bind_eq_ok updated
      obtain ⟨after, finished, isLeft⟩ := bind_eq_ok rest
      cases isLeft
      cases same
      exact ⟨between, msg, by simp only [began, bind, Except.bind], finished⟩
  | _ => exact ⟨outcome.store, none, by simp only [dispatched, bind, Except.bind], rfl⟩

/-! ## A store with more messages -/

/-- The same table over a heap with more messages. -/
structure Store.Extends (large small : Store) (extra : List Address) : Prop where
  head : large.head = small.head
  messages : Heap.Extends large.messages small.messages extra

section Locality

variable {large small : Heap Message} {largeStore smallStore after : Store}
  {extra : List Address}

private theorem loadMessage_extends (extends_ : Heap.Extends large small extra)
    {address : Address} {message : Message} (loaded : loadMessage small address = .ok message) :
    loadMessage large address = .ok message := by
  unfold loadMessage at loaded ⊢
  cases found : small.load address with
  | none =>
      rw [found] at loaded
      contradiction
  | some old =>
      rw [found] at loaded
      rw [extends_.load found]
      exact loaded

private theorem storeMessage_extends (extends_ : Heap.Extends large small extra)
    {address : Address} {message : Message} {messages : Heap Message}
    (stored : storeMessage small address message = .ok messages) :
    ∃ largeAfter, storeMessage large address message = .ok largeAfter ∧
      Heap.Extends largeAfter messages extra := by
  unfold storeMessage at stored ⊢
  split at stored
  next result written =>
    cases stored
    obtain ⟨largeAfter, largeStored, kept⟩ := extends_.store written
    exact ⟨largeAfter, by rw [largeStored], kept⟩
  · contradiction

private theorem getTail_extends (extends_ : Heap.Extends large small extra) {fuel : Nat}
    {h tail : Address} (found : getTail small fuel h = .ok tail) :
    getTail large fuel h = .ok tail := by
  induction fuel generalizing h with
  | zero => contradiction
  | succ fuel inductionHypothesis =>
      obtain ⟨message, loaded, rest⟩ := bind_eq_ok found
      simp only [getTail, loadMessage_extends extends_ loaded, bind, Except.bind]
      cases next : message.next with
      | none =>
          rw [next] at rest
          exact rest
      | some address =>
          rw [next] at rest
          exact inductionHypothesis rest

private theorem deleteMessage_extends (extends_ : Heap.Extends large small extra)
    {msg : Address} {next : Option Address} {messages : Heap Message}
    (deleted : deleteMessage small msg = .ok (next, messages)) :
    ∃ largeAfter, deleteMessage large msg = .ok (next, largeAfter) ∧
      Heap.Extends largeAfter messages extra := by
  obtain ⟨message, loaded, rest⟩ := bind_eq_ok deleted
  simp only [deleteMessage, loadMessage_extends extends_ loaded, bind, Except.bind]
  split at rest
  next result freed =>
    cases rest
    obtain ⟨largeAfter, largeFreed, kept⟩ := extends_.free freed
    exact ⟨largeAfter, by rw [largeFreed], kept⟩
  · contradiction

private theorem newMessage_extends (extends_ : Heap.Extends large small extra)
    (content date : CString) (cmd : Command) :
    ∃ grown, newMessage large content date cmd = ((newMessage small content date cmd).1, grown) ∧
      Heap.Extends grown (newMessage small content date cmd).2 extra := by
  obtain ⟨address, grown⟩ := extends_.alloc ⟨content, date, cmd, none, none⟩
  exact ⟨(newMessage large content date cmd).2, Prod.ext address rfl, grown⟩

private theorem getPeer_extends (extends_ : largeStore.Extends smallStore extra)
    (id : CString) : getPeer largeStore id = getPeer smallStore id := by
  rw [getPeer, getPeer, extends_.head]

private theorem insertNewMessage_extends (extends_ : largeStore.Extends smallStore extra)
    {id content : CString} {cmd : Command} {now : Tm}
    (inserted : insertNewMessage smallStore id content cmd now = .ok after) :
    ∃ largeAfter, insertNewMessage largeStore id content cmd now = .ok largeAfter ∧
      largeAfter.Extends after extra := by
  obtain ⟨largeMessages, made, grown⟩ :=
    newMessage_extends extends_.messages content (getShortDate now) cmd
  unfold insertNewMessage at inserted ⊢
  dsimp only at inserted ⊢
  rw [made, getPeer_extends extends_, extends_.head]
  dsimp only
  rw [grown.limit]
  cases found : getPeer smallStore id with
  | none =>
      rw [found] at inserted
      contradiction
  | some p =>
      cases first : p.msg with
      | none =>
          simp only [found, first, Except.ok.injEq] at inserted
          subst inserted
          simp only [first]
          exact ⟨_, rfl, rfl, grown⟩
      | some start =>
          simp only [found, first] at inserted
          obtain ⟨tmp, isTail, rest⟩ := bind_eq_ok inserted
          obtain ⟨tail, tailLoaded, rest⟩ := bind_eq_ok rest
          obtain ⟨linked, isLinked, rest⟩ := bind_eq_ok rest
          obtain ⟨new, newLoaded, rest⟩ := bind_eq_ok rest
          obtain ⟨both, isBoth, same⟩ := bind_eq_ok rest
          cases same
          obtain ⟨largeLinked, largeIsLinked, linkedToo⟩ := storeMessage_extends grown isLinked
          obtain ⟨largeBoth, largeIsBoth, bothToo⟩ := storeMessage_extends linkedToo isBoth
          simp only [first, getTail_extends grown isTail, loadMessage_extends grown tailLoaded,
            largeIsLinked, loadMessage_extends linkedToo newLoaded, largeIsBoth, bind, Except.bind]
          exact ⟨_, rfl, rfl, bothToo⟩

private theorem insertPeer_extends (extends_ : largeStore.Extends smallStore extra) {id : CString}
    (inserted : insertPeer smallStore id = .ok after) :
    ∃ largeAfter, insertPeer largeStore id = .ok largeAfter ∧ largeAfter.Extends after extra := by
  obtain ⟨new, made, rest⟩ := bind_eq_ok inserted
  obtain ⟨key, isKey, same⟩ := bind_eq_ok rest
  cases same
  simp only [insertPeer, made, isKey, bind, Except.bind]
  exact ⟨_, rfl, by rw [extends_.head], extends_.messages⟩

private theorem storeMsg_extends (extends_ : largeStore.Extends smallStore extra)
    {data : DataWrapper} {now : Tm} (stored : storeMsg smallStore data now = .ok after) :
    ∃ largeAfter, storeMsg largeStore data now = .ok largeAfter ∧
      largeAfter.Extends after extra := by
  unfold storeMsg peerExist at stored ⊢
  rw [getPeer_extends extends_]
  by_cases known : (getPeer smallStore data.id).isSome = true
  · rw [if_pos known] at stored ⊢
    exact insertNewMessage_extends extends_ stored
  · rw [if_neg known] at stored ⊢
    obtain ⟨between, inserted, rest⟩ := bind_eq_ok stored
    obtain ⟨largeBetween, largeInserted, kept⟩ := insertPeer_extends extends_ inserted
    obtain ⟨largeAfter, largeStored, keptToo⟩ := insertNewMessage_extends kept rest
    exact ⟨largeAfter, by rw [largeInserted]; exact largeStored, keptToo⟩

private theorem deletePeer_extends (extends_ : largeStore.Extends smallStore extra) {id : CString}
    (deleted : deletePeer smallStore id = .ok after) :
    ∃ largeAfter, deletePeer largeStore id = .ok largeAfter ∧ largeAfter.Extends after extra := by
  unfold deletePeer at deleted ⊢
  rw [getPeer_extends extends_, extends_.head]
  cases found : getPeer smallStore id with
  | none =>
      rw [found] at deleted
      contradiction
  | some peer =>
      cases first : peer.msg with
      | none =>
          simp only [found, first, Except.ok.injEq] at deleted
          subst deleted
          simp only [first]
          exact ⟨_, rfl, rfl, extends_.messages⟩
      | some msg =>
          simp only [found, first] at deleted
          split at deleted
          next messages freed =>
            cases deleted
            obtain ⟨largeMessages, largeFreed, kept⟩ := extends_.messages.free freed
            simp only [first, largeFreed]
            exact ⟨_, rfl, rfl, kept⟩
          · contradiction

private theorem getUnreadMessage_extends (extends_ : largeStore.Extends smallStore extra)
    {id : CString} {msg : Option Address}
    (handedOut : getUnreadMessage smallStore id = .ok (msg, after)) :
    ∃ largeAfter, getUnreadMessage largeStore id = .ok (msg, largeAfter) ∧
      largeAfter.Extends after extra := by
  unfold getUnreadMessage at handedOut ⊢
  rw [getPeer_extends extends_, extends_.head]
  cases found : getPeer smallStore id with
  | none =>
      simp only [found, Except.ok.injEq, Prod.mk.injEq] at handedOut
      obtain ⟨rfl, rfl⟩ := handedOut
      exact ⟨largeStore, rfl, extends_⟩
  | some peer =>
      cases first : peer.msg with
      | none =>
          simp only [found, first, Except.ok.injEq, Prod.mk.injEq] at handedOut
          obtain ⟨rfl, rfl⟩ := handedOut
          simp only [first]
          exact ⟨largeStore, rfl, extends_⟩
      | some start =>
          simp only [found, first] at handedOut
          obtain ⟨message, loaded, rest⟩ := bind_eq_ok handedOut
          obtain ⟨⟨next, messages⟩, deleted, rest⟩ := bind_eq_ok rest
          obtain ⟨largeGrown, made, grown⟩ :=
            newMessage_extends extends_.messages message.content message.date message.cmd
          obtain ⟨largeMessages, largeDeleted, kept⟩ := deleteMessage_extends grown deleted
          simp only [first, loadMessage_extends extends_.messages loaded, made, largeDeleted, bind,
            Except.bind]
          cases next with
          | some second =>
              cases rest
              exact ⟨_, rfl, rfl, kept⟩
          | none =>
              obtain ⟨left, removed, same⟩ := bind_eq_ok rest
              cases same
              obtain ⟨largeLeft, largeRemoved, keptToo⟩ := deletePeer_extends
                (⟨rfl, kept⟩ : Store.Extends ⟨_, largeMessages⟩ ⟨_, messages⟩ extra) removed
              simp only [largeRemoved]
              exact ⟨_, rfl, keptToo⟩

private theorem beginUpdate_extends (extends_ : largeStore.Extends smallStore extra)
    {environment : Environment} {data : DataWrapper} {effects : List Effect}
    {msg : Option Address}
    (begun : beginUpdate environment smallStore data = .ok (after, effects, msg)) :
    ∃ largeAfter, beginUpdate environment largeStore data = .ok (largeAfter, effects, msg) ∧
      largeAfter.Extends after extra := by
  obtain ⟨⟨found, left⟩, handedOut, rest⟩ := bind_eq_ok begun
  obtain ⟨largeLeft, largeHandedOut, kept⟩ := getUnreadMessage_extends extends_ handedOut
  simp only [beginUpdate, largeHandedOut, bind, Except.bind]
  cases found with
  | none =>
      cases rest
      exact ⟨largeLeft, rfl, kept⟩
  | some address =>
      obtain ⟨message, loaded, same⟩ := bind_eq_ok rest
      cases same
      simp only [loadMessage_extends kept.messages loaded]
      exact ⟨largeLeft, rfl, kept⟩

private theorem finishUpdate_extends (extends_ : largeStore.Extends smallStore extra)
    {msg : Option Address} (finished : finishUpdate smallStore msg = .ok after) :
    largeStore.Extends after (msg.toList ++ extra) := by
  cases msg with
  | none =>
      cases finished
      exact extends_
  | some address =>
      obtain ⟨messages, freed, same⟩ := bind_eq_ok finished
      cases same
      unfold freeMessage at freed
      split at freed
      next result released =>
        cases freed
        exact ⟨extends_.head, extends_.messages.keep released⟩
      · contradiction

private theorem sendPeerListToClient_extends (extends_ : largeStore.Extends smallStore extra)
    (environment : Environment) (data : DataWrapper) :
    sendPeerListToClient environment largeStore data =
      sendPeerListToClient environment smallStore data := by
  rw [sendPeerListToClient, sendPeerListToClient, getPeerList, getPeerList, extends_.head]

/-- The larger store is begun upon like the smaller one that the command is done to; what
the handler holds is one more message. -/
private theorem begin_extends (extends_ : largeStore.Extends smallStore extra) {request : Request}
    {outcome : Outcome} (dispatched : request.dispatch smallStore = .ok outcome) :
    ∃ largeAfter msg, request.begin largeStore =
        .ok (largeAfter, ⟨request, outcome.effects, msg⟩) ∧
      largeAfter.Extends outcome.store (msg.toList ++ extra) := by
  obtain ⟨between, msg, began, finished⟩ := begin_of_dispatch dispatched
  unfold Request.begin at began ⊢
  cases cmd : request.data.cmd with
  | update =>
      simp only [cmd] at began
      obtain ⟨⟨left, effects, held⟩, begun, same⟩ := bind_eq_ok began
      cases same
      obtain ⟨largeLeft, largeBegun, kept⟩ := beginUpdate_extends extends_ begun
      exact ⟨largeLeft, held, by simp only [largeBegun, bind, Except.bind],
        finishUpdate_extends kept finished⟩
  | recv =>
      simp only [Request.dispatch, dispatch, cmd] at dispatched ⊢
      obtain ⟨left, stored, same⟩ := bind_eq_ok dispatched
      cases same
      obtain ⟨largeLeft, largeStored, kept⟩ := storeMsg_extends extends_ stored
      exact ⟨largeLeft, none, by simp only [largeStored, bind, Except.bind], kept⟩
  | getPeers =>
      simp only [Request.dispatch, dispatch, cmd] at dispatched ⊢
      rw [sendPeerListToClient_extends extends_]
      obtain ⟨effects, listed, same⟩ := bind_eq_ok dispatched
      cases same
      exact ⟨largeStore, none, by simp only [listed, bind, Except.bind], extends_⟩
  | _ =>
      simp only [Request.dispatch, dispatch, cmd] at dispatched ⊢
      cases dispatched
      exact ⟨largeStore, none, rfl, extends_⟩

end Locality

/-! ## Interleavings -/

section Interleavings

variable {handlers : Handlers} {store after : Store} {trace : List (Request × List Effect)}

/-- The requests that got to the switch, done one after the other: their store is the one
here without the messages that handlers hold, and their effects are those of the handlers. -/
structure Serializes (handlers : Handlers) (store : Store)
    (trace : List (Request × List Effect)) : Prop where
  extends_ : handlers.store.Extends store handlers.held
  steps : (handlers.ended ++ handlers.waiting.map Handler.step).Perm trace

theorem serializes_initial : Serializes Handlers.initial Store.empty [] where
  extends_ := ⟨rfl, Heap.Extends.refl _⟩
  steps := List.Perm.refl _

private theorem Store.Extends.perm {large small : Store} {extra other : List Address}
    (extends_ : large.Extends small extra) (permuted : extra.Perm other) :
    large.Extends small other :=
  ⟨extends_.head, extends_.messages.perm permuted⟩

private theorem Serializes.arrive (serializes : Serializes handlers store trace)
    {request : Request} {outcome : Outcome} (dispatched : request.dispatch store = .ok outcome) :
    ∃ next, handlers.move (.arrive request) = .ok next ∧
      Serializes next outcome.store (trace ++ [(request, outcome.effects)]) := by
  obtain ⟨largeAfter, msg, began, kept⟩ := begin_extends serializes.extends_ dispatched
  simp only [Handlers.move, began, bind, Except.bind]
  refine ⟨_, rfl, kept.perm ?_, ?_⟩
  · simp only [Handlers.held, List.filterMap_append, List.filterMap_cons, List.filterMap_nil]
    cases msg with
    | none => simp
    | some address => exact (List.perm_append_singleton _ _).symm
  · simp only [List.map_append, List.map_singleton, ← List.append_assoc]
    exact serializes.steps.append_right _

private theorem Serializes.goOn (serializes : Serializes handlers store trace) (index : Nat) :
    ∃ next, handlers.move (.goOn index) = .ok next ∧ Serializes next store trace := by
  cases found : handlers.waiting[index]? with
  | none => exact ⟨handlers, by simp only [Handlers.move, found], serializes⟩
  | some handler =>
      obtain ⟨inside, isHandler⟩ := List.getElem?_eq_some_iff.mp found
      have moved : handlers.waiting.Perm (handler :: handlers.waiting.eraseIdx index) := by
        rw [← isHandler]
        exact (List.getElem_cons_eraseIdx_perm inside).symm
      have steps : ((handlers.ended ++ [handler.step]) ++
          (handlers.waiting.eraseIdx index).map Handler.step).Perm trace := by
        refine List.Perm.trans ?_ serializes.steps
        rw [List.append_assoc]
        exact ((moved.map Handler.step).symm).append_left _
      have held := serializes.extends_.perm (moved.filterMap Handler.msg)
      simp only [Handlers.move, found]
      cases msg : handler.msg with
      | none =>
          rw [List.filterMap_cons_none msg] at held
          exact ⟨_, rfl, held, steps⟩
      | some address =>
          rw [List.filterMap_cons_some msg] at held
          obtain ⟨messages, freed, released⟩ := held.messages.release
          simp only [finishUpdate, freeMessage, freed, bind, Except.bind]
          exact ⟨_, rfl, ⟨held.head, released⟩, steps⟩

private theorem Serializes.run {table : UnreadTable} (refines : Refines store table)
    (serializes : Serializes handlers store trace) {moves : List Move}
    (admissible : ∀ request ∈ arrivals moves, request.Admissible) :
    ∃ last after later, handlers.run moves = .ok last ∧
      Daemon.run store (arrivals moves) = .ok (after, later) ∧
      Serializes last after (trace ++ later) ∧ ∃ final, Refines after final := by
  induction moves generalizing handlers store trace table with
  | nil =>
      exact
        ⟨handlers, store, [], rfl, rfl, (List.append_nil trace).symm ▸ serializes, table, refines⟩
  | cons move rest inductionHypothesis =>
      cases move with
      | arrive request =>
          have inRest : ∀ other ∈ arrivals rest, other.Admissible := fun other member =>
            admissible other (List.mem_cons_of_mem _ member)
          obtain ⟨outcome, dispatched, refined, _⟩ :=
            dispatch_refines refines (admissible request List.mem_cons_self)
          obtain ⟨next, moved, kept⟩ := serializes.arrive dispatched
          obtain ⟨last, after, later, ran, sequential, keptLast, final⟩ :=
            inductionHypothesis refined kept inRest
          refine ⟨last, after, (request, outcome.effects) :: later, ?_, ?_, ?_, final⟩
          · simp only [Handlers.run, moved, ran, bind, Except.bind]
          · show Daemon.run store (request :: arrivals rest) = _
            simp only [Daemon.run, dispatched, sequential, bind, Except.bind]
          · rwa [List.append_assoc, List.singleton_append] at keptLast
      | goOn index =>
          obtain ⟨next, moved, kept⟩ := serializes.goOn index
          obtain ⟨last, after, later, ran, sequential, keptLast, final⟩ :=
            inductionHypothesis refines kept admissible
          exact ⟨last, after, later, by simp only [Handlers.run, moved, ran, bind, Except.bind],
            sequential, keptLast, final⟩

private theorem queued_extends {large small : Store} {extra : List Address}
    (extends_ : large.Extends small extra) {table : UnreadTable} (refines : Refines small table)
    (id : CString) : queued large id = queued small id := by
  have isQueue := refines.queued id
  rw [isQueue]
  unfold queued at isQueue ⊢
  rw [getPeer_extends extends_, extends_.messages.limit]
  cases found : getPeer small id with
  | none =>
      rw [found] at isQueue
      exact isQueue
  | some peer =>
      simp only [found, Option.map_eq_some_iff] at isQueue ⊢
      obtain ⟨cells, walked, same⟩ := isQueue
      exact ⟨cells, extends_.messages.walk walked, same⟩

end Interleavings

/-- However the handlers take turns: no access fails, the store, the peers and the effects
of every request are those of the same requests one after the other, in the order in
which they get to the switch, and the messages that are allocated beyond those are the
ones that the waiting handlers hold and will free. -/
theorem interleaved_handlers_are_atomic (moves : List Move)
    (admissible : ∀ request ∈ arrivals moves, request.Admissible) :
    ∃ handlers store trace, Handlers.initial.run moves = .ok handlers ∧
      run Store.empty (arrivals moves) = .ok (store, trace) ∧
      (handlers.ended ++ handlers.waiting.map Handler.step).Perm trace ∧
      handlers.store.head = store.head ∧
      (∀ id, queued handlers.store id = queued store id) ∧
      handlers.store.messages.allocated = store.messages.allocated + handlers.held.length := by
  obtain ⟨handlers, store, trace, ran, sequential, serializes, table, refines⟩ :=
    serializes_initial.run refines_empty admissible
  exact ⟨handlers, store, trace, ran, sequential, serializes.steps, serializes.extends_.head,
    queued_extends serializes.extends_ refines, serializes.extends_.messages.allocated⟩

/-- Two updates for one peer, the first of which is still waiting when alice writes again. -/
theorem interleaved_handlers_are_atomic_alice :
    ∃ handlers store trace,
      Handlers.initial.run [.arrive (sampleRecv "alice" "hi"), .arrive (sampleUpdate "alice" 0),
        .arrive (sampleRecv "alice" "ho"), .arrive (sampleUpdate "alice" 0), .goOn 1] =
          .ok handlers ∧
      run Store.empty [sampleRecv "alice" "hi", sampleUpdate "alice" 0, sampleRecv "alice" "ho",
        sampleUpdate "alice" 0] = .ok (store, trace) ∧
      ∀ id, queued handlers.store id = queued store id := by
  obtain ⟨handlers, store, trace, ran, sequential, _, _, queues, _⟩ :=
    interleaved_handlers_are_atomic [.arrive (sampleRecv "alice" "hi"),
      .arrive (sampleUpdate "alice" 0), .arrive (sampleRecv "alice" "ho"),
      .arrive (sampleUpdate "alice" 0), .goOn 1]
      (by unfold Request.Admissible arrivals; decide)
  exact ⟨handlers, store, trace, ran, sequential, queues⟩

end Torchat.Daemon
