import Torchat.Daemon.Dispatch

/-!
Contract: what peers and clients may rely on, over every run of commands.

Owns the conservation of messages, the invariant of the peer table with the list
of peers, and the conditions under which a message survives a failed reply.

Does not own the simulation behind them; see `Dispatch`.
-/

set_option autoImplicit false

namespace Torchat.Daemon

open Torchat.Foundation

/-- A message `msg` from the peer `id`. -/
def sampleRecv (id msg : String) : Request where
  environment :=
    { hostname := CString.literal "host.onion"
      now := sampleTime
      sendOverTor := some 0
      fdSend := fun _ => 0 }
  json := CString.empty
  data :=
    { cmd := .recv
      id := CString.literal id
      portno := 0
      msg := CString.literal msg
      date := CString.empty }

/-- The client asks for a message of the peer `id`, and `fd_send` returns `rc`. -/
def sampleUpdate (id : String) (rc : Int) : Request :=
  let request := sampleRecv "client" id
  { request with
    environment := { request.environment with fdSend := fun _ => rc }
    data := { request.data with cmd := .update } }

/-! ## Conservation -/

private theorem lookup_step_of_other {table : UnreadTable} {request : Request} {id : CString}
    (notStored : request.data.cmd = .recv → request.data.id ≠ id)
    (notAsked : request.data.cmd = .update → request.data.msg ≠ id) :
    (table.step request.op).lookup id = table.lookup id := by
  cases cmd : request.data.cmd with
  | recv =>
      have other : ¬ id = request.data.id := Ne.symm (notStored cmd)
      simp [Request.op, cmd, QueueTable.step, other]
  | update =>
      have other : ¬ id = request.data.msg := Ne.symm (notAsked cmd)
      simp [Request.op, cmd, QueueTable.step, other]
  | _ => simp [Request.op, cmd, QueueTable.step]

private theorem queued_eq_nil_iff {store : Store} {table : UnreadTable}
    (refines : Refines store table) (id : CString) :
    queued store id = some [] ↔ table.lookup id = [] := by
  rw [refines.queued]
  simp

/-- The reply is END exactly where the queue is empty. -/
private theorem updateReply_end_iff {table : UnreadTable} (received : AllReceived table)
    (data : DataWrapper) :
    (updateReply data (table.lookup data.msg).head?).cmd = .end_ ↔ table.lookup data.msg = [] := by
  cases queue : table.lookup data.msg with
  | nil => simp [updateReply]
  | cons oldest later =>
      have recv := received data.msg oldest (by rw [queue]; exact List.mem_cons_self)
      simp [updateReply, recv]

/-- The store is a map of FIFO queues: over every run of commands, what is
handed out for a peer and what waits for it are together what was stored for it,
in order; an update is answered END exactly where nothing waits; and a command
touches no queue but the one it is about. -/
theorem store_refines_queues (requests : List Request)
    (admissible : ∀ request ∈ requests, request.Admissible) :
    ∃ store trace, run Store.empty requests = .ok (store, trace) ∧
      (∀ id, ∃ waiting, queued store id = some waiting ∧
        handedOut id trace ++ waiting = storedFor id requests) ∧
      ∀ request : Request, request.Admissible →
        ∃ outcome, request.dispatch store = .ok outcome ∧
          (request.data.cmd = .update → ∃ reply,
            outcome.effects = [request.environment.answer reply] ∧
            (reply.cmd = .end_ ↔ queued store request.data.msg = some [])) ∧
          (∀ id, (request.data.cmd = .recv → request.data.id ≠ id) →
            (request.data.cmd = .update → request.data.msg ≠ id) →
            queued outcome.store id = queued store id) := by
  obtain ⟨store, trace, ran, refined, received, conserved⟩ := run_empty admissible
  refine ⟨store, trace, ran, fun id => ⟨_, refined.queued id, conserved id⟩, ?_⟩
  intro request fits
  obtain ⟨outcome, dispatched, refinedAfter, answered, _⟩ := dispatch_refines refined fits
  refine ⟨outcome, dispatched, ?_, ?_⟩
  · intro update
    refine ⟨_, answered update, ?_⟩
    rw [updateReply_end_iff received, queued_eq_nil_iff refined]
  · intro id notStored notAsked
    rw [refinedAfter.queued, refined.queued, lookup_step_of_other notStored notAsked]

theorem store_refines_queues_alice :
    ∃ store trace,
      run Store.empty [sampleRecv "alice" "hi", sampleRecv "bob" "ho", sampleUpdate "alice" 0] =
        .ok (store, trace) ∧
      ∀ id, ∃ waiting, queued store id = some waiting ∧
        handedOut id trace ++ waiting =
          storedFor id
            [sampleRecv "alice" "hi", sampleRecv "bob" "ho", sampleUpdate "alice" 0] := by
  obtain ⟨store, trace, ran, conserved, _⟩ :=
    store_refines_queues [sampleRecv "alice" "hi", sampleRecv "bob" "ho", sampleUpdate "alice" 0]
      (by unfold Request.Admissible; decide)
  exact ⟨store, trace, ran, conserved⟩

/-! ## The peer table -/

/-- The number of messages that wait for a peer after the first `n` commands. -/
def unreadAfter (requests : List Request) (id : CString) (n : Nat) : Nat :=
  match run Store.empty (requests.take n) with
  | .ok (store, _) => ((queued store id).getD []).length
  | .error _ => 0

private theorem unreadAfter_eq {requests : List Request}
    (admissible : ∀ request ∈ requests, request.Admissible) (id : CString) (n : Nat) :
    unreadAfter requests id n = QueueTable.countAfter (ops requests) id n := by
  have takenAdmissible : ∀ request ∈ requests.take n, request.Admissible :=
    fun request member => admissible request (List.mem_of_mem_take member)
  obtain ⟨store, trace, ran, refined, _⟩ := run_empty takenAdmissible
  rw [unreadAfter, ran, QueueTable.countAfter, ops, ← List.map_take]
  simp [refined.queued, ops]

/-- The peer table in every reachable state: ids are unique, every peer has a
message, and the peers are the ids with a message stored and not yet handed out;
the list of peers holds each of them once, in the order in which they last went
from no unread message to one. -/
theorem peer_table_invariant (requests : List Request)
    (admissible : ∀ request ∈ requests, request.Admissible) :
    ∃ store trace, run Store.empty requests = .ok (store, trace) ∧
      (store.head.map Prod.fst).Nodup ∧
      (∀ entry ∈ store.head, entry.2.id.read = some entry.1 ∧ entry.2.msg ≠ none ∧
        ∃ oldest later, queued store entry.1 = some (oldest :: later)) ∧
      (∀ id, id ∈ store.head.map Prod.fst ↔
        (handedOut id trace).length < (storedFor id requests).length) ∧
      (∀ environment json data, data.cmd = .getPeers →
        ∃ outcome, dispatch environment store json data = .ok outcome ∧
          outcome.effects =
            [environment.answer { data with msg := peerListText (store.head.map Prod.fst) }]) ∧
      ∃ time : CString → Nat,
        (∀ id ∈ store.head.map Prod.fst,
          QueueTable.LastRaise (unreadAfter requests id) requests.length (time id)) ∧
        (store.head.map Prod.fst).Pairwise fun earlier later => time earlier < time later := by
  obtain ⟨store, trace, ran, refined, received, conserved⟩ := run_empty admissible
  have keys := refined.head_keys
  refine ⟨store, trace, ran, ?_, ?_, ?_, ?_, ?_⟩
  · rw [keys]
    exact (QueueTable.empty.after (ops requests)).nodup
  · intro entry member
    obtain ⟨id, msg⟩ := refined.head_peers member
    have present : entry.1 ∈ (QueueTable.empty.after (ops requests)).keys := by
      rw [← keys]
      exact List.mem_map_of_mem member
    have nonempty := (QueueTable.mem_keys_iff _ _).mp present
    refine ⟨id, msg, ?_⟩
    rw [refined.queued]
    cases queue : (QueueTable.empty.after (ops requests)).lookup entry.1 with
    | nil => exact absurd queue nonempty
    | cons oldest later => exact ⟨_, _, rfl⟩
  · intro id
    have lengths := congrArg List.length (conserved id)
    rw [List.length_append, List.length_map] at lengths
    rw [keys, QueueTable.mem_keys_iff, ← lengths, ← List.length_pos_iff]
    omega
  · intro environment json data getPeers
    let request : Request := { environment := environment, json := json, data := data }
    have fits : request.Admissible := admissible_of_cmd getPeers (by decide)
    obtain ⟨outcome, dispatched, _, _, listed⟩ := dispatch_refines refined fits
    refine ⟨outcome, dispatched, ?_⟩
    rw [keys]
    exact listed getPeers
  · obtain ⟨time, raised, ordered⟩ := QueueTable.keys_ordered_by_lastRaise (ops requests)
    have counts (id : CString) :
        unreadAfter requests id = QueueTable.countAfter (ops requests) id :=
      funext fun n => unreadAfter_eq admissible id n
    have length : (ops requests).length = requests.length := List.length_map _
    rw [keys]
    refine ⟨time, ?_, ordered⟩
    intro id member
    rw [counts, ← length]
    exact raised id member

theorem peer_table_invariant_alice :
    ∃ store trace,
      run Store.empty [sampleRecv "alice" "hi", sampleRecv "bob" "ho", sampleUpdate "alice" 0] =
        .ok (store, trace) ∧
      (store.head.map Prod.fst).Nodup ∧
      ∀ id, id ∈ store.head.map Prod.fst ↔
        (handedOut id trace).length <
          (storedFor id
            [sampleRecv "alice" "hi", sampleRecv "bob" "ho", sampleUpdate "alice" 0]).length := by
  obtain ⟨store, trace, ran, nodup, _, unread, _⟩ :=
    peer_table_invariant [sampleRecv "alice" "hi", sampleRecv "bob" "ho", sampleUpdate "alice" 0]
      (by unfold Request.Admissible; decide)
  exact ⟨store, trace, ran, nodup, unread⟩

/-! ## Failed deliveries -/

/-- The reply that carries a stored message. -/
def deliveryReply (data : DataWrapper) (message : Message) : DataWrapper :=
  { data with id := data.msg, msg := message.content, cmd := message.cmd, date := message.date }

/-- The reply with the oldest message for the peer, if one waits, is sent. -/
def ReplyWritten (store : Store) (request : Request) : Prop :=
  ∀ message, oldestUnread store request.data.msg = some message →
    request.environment.Sends (deliveryReply request.data message)

/-- A failed reply costs no message: the queue of the peer is as before, and the
next update finds what this one found. A message leaves the queue only with a
written reply that carries it. -/
structure DeliversSafely (store : Store) (request : Request) (outcome : Outcome) : Prop where
  kept : ∀ reply rc, .msend reply rc ∈ outcome.effects → rc < 0 →
    queued outcome.store request.data.msg = queued store request.data.msg
  again : ∀ reply rc, .msend reply rc ∈ outcome.effects → rc < 0 →
    ∀ next : Request, next.data.cmd = .update → next.data.msg = request.data.msg →
      (next.dispatch outcome.store).map Outcome.effects =
        (next.dispatch store).map Outcome.effects
  carried : queued outcome.store request.data.msg ≠ queued store request.data.msg →
    ∃ reply rc later, .msend reply rc ∈ outcome.effects ∧ 0 ≤ rc ∧
      queued store request.data.msg = some (reply.msg :: later) ∧
      queued outcome.store request.data.msg = some later

/-- Every update of a run gets its reply written. -/
def RepliesWritten : Store → List Request → Prop
  | _, [] => True
  | store, request :: rest =>
      (request.data.cmd = .update → ReplyWritten store request) ∧
      ∀ outcome, request.dispatch store = .ok outcome → RepliesWritten outcome.store rest

def Effect.written : Effect → Bool
  | .msend _ rc => 0 ≤ rc
  | _ => true

/-- The contents that the written replies to one request hand out for a peer. -/
def confirmedBy (id : CString) (step : Request × List Effect) : List CString :=
  handedOutBy id (step.1, step.2.filter Effect.written)

/-- The contents that the written replies of a run hand out for a peer. -/
def confirmed (id : CString) (trace : List (Request × List Effect)) : List CString :=
  trace.flatMap (confirmedBy id)

section Deliveries

variable {store : Store} {table : UnreadTable} {request : Request}

private theorem updateReply_stored (data : DataWrapper) (message : Message) :
    updateReply data (some message.stored) = deliveryReply data message := rfl

private theorem oldestUnread_cases (refines : Refines store table) (id : CString) :
    (table.lookup id = [] ∧ oldestUnread store id = none) ∨
      ∃ message later, table.lookup id = message.stored :: later ∧
        oldestUnread store id = some message := by
  have head := refines.oldestUnread id
  cases found : oldestUnread store id with
  | none =>
      rw [found] at head
      exact Or.inl ⟨List.head?_eq_none_iff.mp head.symm, rfl⟩
  | some message =>
      rw [found] at head
      obtain ⟨later, queue⟩ := List.head?_eq_some_iff.mp head.symm
      exact Or.inr ⟨message, later, queue, rfl⟩

/-- An update that finds no message leaves the store alone. -/
private theorem deliversSafely_of_empty (refines : Refines store table)
    (update : request.data.cmd = .update) {outcome : Outcome}
    (dispatched : request.dispatch store = .ok outcome)
    (empty : table.lookup request.data.msg = []) : DeliversSafely store request outcome := by
  have unchanged : outcome.store = store := by
    have quiet := clientUpdate_of_empty refines request.environment empty
    rw [Request.dispatch, dispatch, update] at dispatched
    simp only [quiet, bind, Except.bind] at dispatched
    cases dispatched
    rfl
  constructor
  · intro reply rc _ _
    rw [unchanged]
  · intro reply rc _ _ next _ _
    rw [unchanged]
  · intro changed
    rw [unchanged] at changed
    exact absurd rfl changed

/-- An update with a message waiting is safe exactly where its reply is written. -/
private theorem deliversSafely_iff (refines : Refines store table)
    (update : request.data.cmd = .update) {outcome : Outcome}
    (dispatched : request.dispatch store = .ok outcome) :
    DeliversSafely store request outcome ↔ ReplyWritten store request := by
  rcases oldestUnread_cases refines request.data.msg with
    ⟨empty, none_⟩ | ⟨message, later, queue, some_⟩
  · apply iff_of_true
    · exact deliversSafely_of_empty refines update dispatched empty
    · intro message found
      rw [none_] at found
      contradiction
  · obtain ⟨same, sameDispatched, refinedAfter, answered, _⟩ :=
      dispatch_refines refines (admissible_of_cmd update (by decide))
    rw [dispatched] at sameDispatched
    cases sameDispatched
    have effects := answered update
    rw [queue, List.head?_cons, updateReply_stored] at effects
    simp only [Request.op, update, QueueTable.step] at refinedAfter
    have before := refines.queued request.data.msg
    have after := refinedAfter.queued request.data.msg
    rw [QueueTable.lookup_pop, if_pos rfl] at after
    rw [queue] at before after
    have changed : queued outcome.store request.data.msg ≠ queued store request.data.msg := by
      rw [before, after]
      simp
    have sent : .msend (deliveryReply request.data message)
        (request.environment.msend (deliveryReply request.data message)) ∈ outcome.effects := by
      rw [effects]
      exact List.mem_singleton_self _
    constructor
    · intro safe found isOldest
      rw [some_] at isOldest
      cases isOldest
      rw [← Environment.msend_nonneg_iff]
      by_contra failed
      exact changed (safe.kept _ _ sent (Int.not_le.mp failed))
    · intro written
      have rc := (Environment.msend_nonneg_iff _ _).mpr (written message some_)
      have notFailed : ∀ reply failure, .msend reply failure ∈ outcome.effects →
          ¬ failure < 0 := by
        intro reply failure sent
        rw [effects] at sent
        cases List.mem_singleton.mp sent
        exact Int.not_lt.mpr rc
      constructor
      · intro reply failure sent failed
        exact absurd failed (notFailed reply failure sent)
      · intro reply failure sent failed
        exact absurd failed (notFailed reply failure sent)
      · intro _
        exact ⟨_, _, later.map Stored.content, sent, rc, before, after⟩

theorem confirmedBy_sublist (id : CString) (step : Request × List Effect) :
    (confirmedBy id step).Sublist (handedOutBy id step) := by
  unfold confirmedBy handedOutBy
  split
  · exact List.filter_sublist.filterMap _
  · exact List.Sublist.refl _

theorem confirmed_sublist (id : CString) (trace : List (Request × List Effect)) :
    (confirmed id trace).Sublist (handedOut id trace) := by
  unfold confirmed handedOut
  induction trace with
  | nil => exact List.Sublist.refl _
  | cons step rest inductionHypothesis =>
      exact (confirmedBy_sublist id step).append inductionHypothesis

/-- A request hands out nothing unconfirmed exactly where its reply, if it has
to carry a message, is written. -/
private theorem confirmedBy_eq_iff (refines : Refines store table)
    (received : AllReceived table) {effects : List Effect}
    (answered : request.data.cmd = .update → effects =
      [request.environment.answer
        (updateReply request.data (table.lookup request.data.msg).head?)]) :
    (∀ id, confirmedBy id (request, effects) = handedOutBy id (request, effects)) ↔
      (request.data.cmd = .update → ReplyWritten store request) := by
  by_cases update : request.data.cmd = .update
  swap
  · refine iff_of_true (fun id => ?_) fun isUpdate => absurd isUpdate update
    simp [confirmedBy, handedOutBy, update]
  have effect := answered update
  rcases oldestUnread_cases refines request.data.msg with
    ⟨empty, none_⟩ | ⟨message, later, queue, some_⟩
  · have quiet : ReplyWritten store request := by
      intro message found
      rw [none_] at found
      contradiction
    refine iff_of_true (fun id => ?_) fun _ => quiet
    have nothing : handedOutBy id (request, effects) = [] := by
      unfold handedOutBy
      split
      · simp [effect, empty, updateReply]
      · rfl
    have sublist := confirmedBy_sublist id (request, effects)
    rw [nothing] at sublist ⊢
    exact List.sublist_nil.mp sublist
  · have recv : message.stored.cmd = .recv :=
      received request.data.msg _ (by rw [queue]; exact List.mem_cons_self)
    have carries : (deliveryReply request.data message).cmd ≠ .end_ := by
      show message.stored.cmd ≠ .end_
      rw [recv]
      decide
    rw [queue, List.head?_cons, updateReply_stored] at effect
    have handed : handedOutBy request.data.msg (request, effects) = [message.content] := by
      rw [handedOutBy, if_pos ⟨update, rfl⟩]
      simp only [effect, List.filterMap_cons, Effect.content_answer, if_neg carries]
      rfl
    constructor
    · intro same _ found isOldest
      rw [some_] at isOldest
      cases isOldest
      rw [← Environment.msend_nonneg_iff]
      by_contra failed
      have dropped : effects.filter Effect.written = [] := by
        rw [effect]
        exact List.filter_cons_of_neg (by simpa [Effect.written, Environment.answer] using failed)
      have lost := same request.data.msg
      rw [handed, confirmedBy, dropped] at lost
      simp [handedOutBy] at lost
    · intro written id
      have kept : effects.filter Effect.written = effects := by
        rw [effect]
        have rc := (Environment.msend_nonneg_iff _ _).mpr (written update message some_)
        exact List.filter_cons_of_pos (by simpa [Effect.written, Environment.answer] using rc)
      rw [confirmedBy, kept]

/-- What is confirmed is a part of what is handed out, so a run confirms all of
it exactly where its first step and its rest do. -/
private theorem confirmed_cons_eq_iff (step : Request × List Effect)
    (later : List (Request × List Effect)) :
    (∀ id, confirmed id (step :: later) = handedOut id (step :: later)) ↔
      (∀ id, confirmedBy id step = handedOutBy id step) ∧
        ∀ id, confirmed id later = handedOut id later := by
  constructor
  · intro same
    have both : ∀ id, confirmedBy id step = handedOutBy id step ∧
        confirmed id later = handedOut id later := by
      intro id
      have lengths := congrArg List.length (same id)
      have first := confirmedBy_sublist id step
      have others := confirmed_sublist id later
      simp only [confirmed, handedOut, List.flatMap_cons, List.length_append] at lengths others ⊢
      have firstLength := first.length_le
      have othersLength := others.length_le
      constructor
      · apply first.eq_of_length
        omega
      · apply others.eq_of_length
        omega
    exact ⟨fun id => (both id).1, fun id => (both id).2⟩
  · rintro ⟨first, others⟩ id
    have rest := others id
    simp only [confirmed, handedOut] at rest
    simp only [confirmed, handedOut, List.flatMap_cons, first id, rest]

/-- A run confirms all that it hands out exactly where every reply is written. -/
private theorem confirmed_eq_iff (refines : Refines store table)
    (received : AllReceived table) {requests : List Request}
    (admissible : ∀ request ∈ requests, request.Admissible) {after : Store}
    {trace : List (Request × List Effect)} (ran : run store requests = .ok (after, trace)) :
    (∀ id, confirmed id trace = handedOut id trace) ↔ RepliesWritten store requests := by
  induction requests generalizing store table trace with
  | nil =>
      cases ran
      exact iff_of_true (fun _ => rfl) trivial
  | cons request rest inductionHypothesis =>
      obtain ⟨outcome, dispatched, refined, answered, _⟩ :=
        dispatch_refines refines (admissible request List.mem_cons_self)
      have restAdmissible : ∀ later ∈ rest, later.Admissible := fun later member =>
        admissible later (List.mem_cons_of_mem _ member)
      obtain ⟨last, later, ranRest, _⟩ :=
        run_refines refined (received.step request) restAdmissible
      simp only [run, dispatched, ranRest, bind, Except.bind] at ran
      cases ran
      have head := confirmedBy_eq_iff refines received answered
      have tail := inductionHypothesis refined (received.step request) restAdmissible ranRest
      have outcomeOnly : RepliesWritten store (request :: rest) ↔
          (request.data.cmd = .update → ReplyWritten store request) ∧
            RepliesWritten outcome.store rest := by
        simp [RepliesWritten, dispatched]
      rw [outcomeOnly, confirmed_cons_eq_iff, head, tail]

end Deliveries

/-- In every reachable store an update is safe from a failed delivery exactly
where the reply with the oldest message, if one waits, is written; and a run
loses no message exactly where that holds of each of its updates. -/
theorem deliversSafely_iff_replyWritten (requests : List Request)
    (admissible : ∀ request ∈ requests, request.Admissible) :
    ∃ store trace, run Store.empty requests = .ok (store, trace) ∧
      (∀ request : Request, request.data.cmd = .update →
        ∃ outcome, request.dispatch store = .ok outcome ∧
          (DeliversSafely store request outcome ↔ ReplyWritten store request)) ∧
      ((∀ id, ∃ waiting, queued store id = some waiting ∧
        confirmed id trace ++ waiting = storedFor id requests) ↔
          RepliesWritten Store.empty requests) := by
  obtain ⟨store, trace, ran, refined, received, conserved⟩ := run_empty admissible
  refine ⟨store, trace, ran, ?_, ?_⟩
  · intro request update
    obtain ⟨outcome, dispatched, _⟩ := dispatch_refines refined (admissible_of_cmd update (by decide))
    exact ⟨outcome, dispatched, deliversSafely_iff refined update dispatched⟩
  · rw [← confirmed_eq_iff refines_empty allReceived_empty admissible ran]
    refine forall_congr' fun id => ?_
    rw [refined.queued, ← conserved id]
    simp

theorem deliversSafely_iff_replyWritten_alice :
    ∃ store trace, run Store.empty [sampleRecv "alice" "hi"] = .ok (store, trace) ∧
      ∃ outcome, (sampleUpdate "alice" 0).dispatch store = .ok outcome ∧
        (DeliversSafely store (sampleUpdate "alice" 0) outcome ↔
          ReplyWritten store (sampleUpdate "alice" 0)) := by
  obtain ⟨store, trace, ran, safe, _⟩ :=
    deliversSafely_iff_replyWritten [sampleRecv "alice" "hi"]
      (by unfold Request.Admissible; decide)
  exact ⟨store, trace, ran, safe _ rfl⟩

/-- A reset connection takes the message with it. -/
theorem failed_reply_loses_message :
    ∃ store trace outcome reply, run Store.empty [sampleRecv "alice" "hi"] = .ok (store, trace) ∧
      (sampleUpdate "alice" (-1)).dispatch store = .ok outcome ∧
      outcome.effects = [.msend reply (-1)] ∧
      queued store (CString.literal "alice") = some [CString.literal "hi"] ∧
      queued outcome.store (CString.literal "alice") = some [] ∧
      ¬ DeliversSafely store (sampleUpdate "alice" (-1)) outcome := by
  refine ⟨_, _, _, _, rfl, rfl, rfl, rfl, rfl, ?_⟩
  intro safe
  have kept := safe.kept _ (-1) List.mem_cons_self (by decide)
  exact absurd (Option.some.inj kept) (by decide)

end Torchat.Daemon
