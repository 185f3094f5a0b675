import Torchat.Daemon.Actions
import Torchat.Daemon.StoreRefinement

/-!
Contract: runs of dispatched commands over the unread-message store.

Owns the simulation of a command by one operation on the abstract table and
what follows over whole runs: conservation of the messages of every peer, the
invariant of the peer table, the list of peers, and what a failed reply costs.

Does not own the parsing of the commands.
-/

set_option autoImplicit false

namespace Torchat.Daemon

open Torchat.Foundation

/-! ## One command -/

/-- The operation of the abstract table that a command performs. -/
def Request.op (request : Request) : QueueTable.Op CString Stored :=
  match request.data.cmd with
  | .recv =>
      .push request.data.id
        { content := request.data.msg, date := getShortDate request.environment.now, cmd := .recv }
  | .update => .pop request.data.msg
  | _ => .idle

/-- The id of a stored message fits the array of a peer. -/
def Request.Admissible (request : Request) : Prop :=
  request.data.cmd = .recv → request.data.id.length ≤ 29

theorem admissible_of_cmd {request : Request} {cmd : Command} (sent : request.data.cmd = cmd)
    (other : cmd ≠ .recv) : request.Admissible :=
  fun recv => absurd (sent.symm.trans recv) other

/-- The answer to an update request. -/
def updateReply (data : DataWrapper) : Option Stored → DataWrapper
  | none => { data with id := data.msg, cmd := .end_ }
  | some oldest =>
      { data with id := data.msg, msg := oldest.content, cmd := oldest.cmd, date := oldest.date }

/-- The text of the list of peers; no peers are an empty text. -/
def peerListText (ids : List CString) : CString :=
  if ids = [] then CString.empty else CString.ofBytes (commaList ids)

section Simulation

variable {store : Store} {table : UnreadTable}

theorem storeMsg_refines (refines : Refines store table) {data : DataWrapper}
    (fits : data.id.length ≤ 29) (now : Tm) :
    ∃ after, storeMsg store data now = .ok after ∧
      Refines after (table.push data.id
        { content := data.msg, date := getShortDate now, cmd := data.cmd }) := by
  by_cases present : data.id ∈ table.keys
  · obtain ⟨after, inserted, refined⟩ :=
      refines.insertNewMessage present data.msg data.cmd now
    have known : peerExist store data.id = true := (refines.peerExist_iff _).mpr present
    refine ⟨after, ?_, refined⟩
    rw [storeMsg, if_pos known]
    exact inserted
  · obtain ⟨between, after, inserted, appended, refined⟩ :=
      refines.insertPeer present (Nat.lt_succ_of_le fits) data.msg data.cmd now
    have unknown : ¬ peerExist store data.id = true := fun known =>
      present ((refines.peerExist_iff _).mp known)
    refine ⟨after, ?_, refined⟩
    rw [storeMsg, if_neg unknown, inserted]
    exact appended

/-- Without a message for the peer the store stays as it is. -/
theorem clientUpdate_of_empty (refines : Refines store table) (environment : Environment)
    {data : DataWrapper} (empty : table.lookup data.msg = []) :
    clientUpdate environment store data =
      .ok (store, [environment.answer (updateReply data none)]) := by
  have absent : data.msg ∉ table.keys := fun present =>
    (table.mem_keys_iff _).mp present empty
  simp only [clientUpdate, refines.getUnreadMessage_of_notMem absent, bind, Except.bind]
  rfl

theorem clientUpdate_refines (refines : Refines store table) (environment : Environment)
    (data : DataWrapper) :
    ∃ after, clientUpdate environment store data =
        .ok (after, [environment.answer (updateReply data (table.lookup data.msg).head?)]) ∧
      Refines after (table.pop data.msg) := by
  by_cases present : data.msg ∈ table.keys
  · obtain ⟨oldest, later, after, retMsg, copy, lookup, handedOut, loaded, same, freed⟩ :=
      refines.getUnreadMessage_of_mem present
    obtain ⟨messages, released, _, _, _⟩ := Heap.free_of_load loaded
    refine ⟨_, ?_, freed messages released⟩
    subst same
    simp only [clientUpdate, handedOut, loadMessage, loaded, freeMessage, released, bind,
      Except.bind, lookup, List.head?_cons]
    rfl
  · have empty : table.lookup data.msg = [] := by
      by_contra found
      exact present ((table.mem_keys_iff _).mpr found)
    have unchanged : (table.pop data.msg).entries = table.entries :=
      QueueTable.popIn_of_notMem present
    refine ⟨store, ?_, ?_⟩
    · rw [empty]
      exact clientUpdate_of_empty refines environment empty
    · obtain ⟨owned, represents, entries⟩ := refines
      exact ⟨owned, represents, unchanged.trans entries⟩

theorem sendPeerListToClient_refines (refines : Refines store table)
    (environment : Environment) (data : DataWrapper) :
    sendPeerListToClient environment store data =
      .ok [environment.answer { data with msg := peerListText table.keys }] := by
  rw [sendPeerListToClient, refines.getPeerList]
  unfold peerListText
  by_cases none_ : table.keys = []
  · rw [if_pos none_, if_pos none_]
    rfl
  · rw [if_neg none_, if_neg none_]
    rfl

/-- Every command is one operation of the table, and none of them faults. -/
theorem dispatch_refines (refines : Refines store table) {request : Request}
    (admissible : request.Admissible) :
    ∃ outcome, request.dispatch store = .ok outcome ∧
      Refines outcome.store (table.step request.op) ∧
      (request.data.cmd = .update → outcome.effects =
        [request.environment.answer
          (updateReply request.data (table.lookup request.data.msg).head?)]) ∧
      (request.data.cmd = .getPeers → outcome.effects =
        [request.environment.answer { request.data with msg := peerListText table.keys }]) := by
  cases cmd : request.data.cmd with
  | recv =>
      obtain ⟨after, stored, refined⟩ :=
        storeMsg_refines refines (admissible cmd) request.environment.now
      refine ⟨{ store := after, effects := [.logInfo request.json], exitFlag := false }, ?_, ?_,
        by simp, by simp⟩
      · simp [Request.dispatch, dispatch, cmd, stored, bind, Except.bind]
      · rw [cmd] at refined
        simp only [Request.op, cmd]
        exact refined
  | update =>
      obtain ⟨after, updated, refined⟩ :=
        clientUpdate_refines refines request.environment request.data
      refine ⟨⟨after, _, false⟩, ?_, ?_, fun _ => rfl, by simp⟩
      · simp [Request.dispatch, dispatch, cmd, updated, bind, Except.bind]
      · simp only [Request.op, cmd]
        exact refined
  | getPeers =>
      have listed := sendPeerListToClient_refines refines request.environment request.data
      refine ⟨⟨store, _, false⟩, ?_, ?_, by simp, fun _ => rfl⟩
      · simp [Request.dispatch, dispatch, cmd, listed, bind, Except.bind]
      · simp only [Request.op, cmd]
        exact refines
  | _ =>
      refine ⟨_, by simp only [Request.dispatch, dispatch, cmd]; rfl, ?_, by simp, by simp⟩
      simp only [Request.op, cmd]
      exact refines

end Simulation

/-! ## Runs -/

/-- The content that the reply to an update hands out. -/
def Effect.content : Effect → Option CString
  | .msend reply _ => if reply.cmd = .end_ then none else some reply.msg
  | _ => none

@[simp] theorem Effect.content_answer (environment : Environment) (reply : DataWrapper) :
    (environment.answer reply).content = if reply.cmd = .end_ then none else some reply.msg := rfl

/-- The reply with which an update hands out a message. -/
def Effect.delivery : Effect → Option DataWrapper
  | .msend reply _ => if reply.cmd = .end_ then none else some reply
  | _ => none

@[simp] theorem Effect.delivery_answer (environment : Environment) (reply : DataWrapper) :
    (environment.answer reply).delivery = if reply.cmd = .end_ then none else some reply := rfl

/-- The replies with which one request hands out messages of a peer. -/
def deliveriesBy (id : CString) (step : Request × List Effect) : List DataWrapper :=
  if step.1.data.cmd = .update ∧ step.1.data.msg = id then step.2.filterMap Effect.delivery
  else []

/-- The replies with which the updates of a run hand out messages of a peer. -/
def deliveries (id : CString) (trace : List (Request × List Effect)) : List DataWrapper :=
  trace.flatMap (deliveriesBy id)

/-- What a reply hands out. -/
def DataWrapper.stored (reply : DataWrapper) : Stored :=
  { content := reply.msg, date := reply.date, cmd := reply.cmd }

/-- The contents that one request hands out for a peer. -/
def handedOutBy (id : CString) (step : Request × List Effect) : List CString :=
  if step.1.data.cmd = .update ∧ step.1.data.msg = id then step.2.filterMap Effect.content
  else []

/-- The contents that the updates of a run hand out for a peer. -/
def handedOut (id : CString) (trace : List (Request × List Effect)) : List CString :=
  trace.flatMap (handedOutBy id)

/-- The content that one request stores for a peer. -/
def storedBy (id : CString) (request : Request) : List CString :=
  if request.data.cmd = .recv ∧ request.data.id = id then [request.data.msg] else []

/-- The contents that a run stores for a peer. -/
def storedFor (id : CString) (requests : List Request) : List CString :=
  requests.flatMap (storedBy id)

/-- Every stored message came with the command RECV. -/
def AllReceived (table : UnreadTable) : Prop :=
  ∀ id, ∀ stored ∈ table.lookup id, stored.cmd = .recv

def ops (requests : List Request) : List (QueueTable.Op CString Stored) :=
  requests.map Request.op

theorem allReceived_empty : AllReceived QueueTable.empty := by
  intro id stored member
  contradiction

theorem AllReceived.step {table : UnreadTable} (received : AllReceived table)
    (request : Request) : AllReceived (table.step request.op) := by
  intro id stored member
  cases cmd : request.data.cmd with
  | recv =>
      simp only [Request.op, cmd, QueueTable.step, QueueTable.lookup_push] at member
      split at member
      · rcases List.mem_append.mp member with old | new
        · exact received _ stored old
        · rw [List.mem_singleton.mp new]
      · exact received id stored member
  | update =>
      simp only [Request.op, cmd, QueueTable.step, QueueTable.lookup_pop] at member
      split at member
      · exact received _ stored (List.mem_of_mem_tail member)
      · exact received id stored member
  | _ =>
      simp only [Request.op, cmd, QueueTable.step] at member
      exact received id stored member

private theorem storedBy_eq (id : CString) (request : Request) :
    (QueueTable.pushedBy id request.op).map Stored.content = storedBy id request := by
  unfold storedBy Request.op
  cases cmd : request.data.cmd <;> simp only [QueueTable.pushedBy, reduceCtorEq, false_and,
    if_false, List.map_nil, true_and]
  split <;> rfl

theorem storedFor_eq (id : CString) (requests : List Request) :
    (QueueTable.pushed id (ops requests)).map Stored.content = storedFor id requests := by
  unfold QueueTable.pushed ops storedFor
  induction requests with
  | nil => rfl
  | cons request rest inductionHypothesis =>
      rw [List.map_cons, List.flatMap_cons, List.map_append, storedBy_eq, inductionHypothesis]
      rfl

private theorem content_eq_delivery (effect : Effect) :
    effect.content = effect.delivery.map DataWrapper.msg := by
  cases effect with
  | msend reply rc =>
      simp only [Effect.content, Effect.delivery]
      by_cases ends : reply.cmd = .end_
      · rw [if_pos ends, if_pos ends]
        rfl
      · rw [if_neg ends, if_neg ends]
        rfl
  | _ => rfl

/-- The contents that are handed out are those of the replies. -/
theorem handedOut_eq (id : CString) (trace : List (Request × List Effect)) :
    handedOut id trace = (deliveries id trace).map DataWrapper.msg := by
  unfold handedOut deliveries
  rw [List.map_flatMap]
  apply List.flatMap_congr
  intro step _
  unfold handedOutBy deliveriesBy
  split
  · rw [List.map_filterMap, funext content_eq_delivery]
  · rfl

/-- The updates hand out what the table pops, each in a reply about the peer. -/
private theorem deliveriesBy_eq {table : UnreadTable} (received : AllReceived table)
    (id : CString) {request : Request} {effects : List Effect}
    (answered : request.data.cmd = .update → effects =
      [request.environment.answer
        (updateReply request.data (table.lookup request.data.msg).head?)]) :
    (deliveriesBy id (request, effects)).map DataWrapper.stored =
        QueueTable.poppedBy id table request.op ∧
      ∀ reply ∈ deliveriesBy id (request, effects), reply.id = id := by
  unfold deliveriesBy Request.op
  cases cmd : request.data.cmd with
  | update =>
      rw [answered cmd]
      by_cases same : request.data.msg = id
      · subst same
        cases queue : table.lookup request.data.msg with
        | nil => simp [QueueTable.poppedBy, queue, updateReply]
        | cons oldest later =>
            have recv := received request.data.msg oldest (by rw [queue]; exact List.mem_cons_self)
            have notEnd : oldest.cmd ≠ .end_ := by
              rw [recv]
              decide
            simp [QueueTable.poppedBy, queue, updateReply, notEnd, DataWrapper.stored]
      · simp [QueueTable.poppedBy, same]
  | _ => simp [QueueTable.poppedBy]

/-- A run of commands is a run of the abstract table. -/
theorem run_refines {store : Store} {table : UnreadTable} (refines : Refines store table)
    (received : AllReceived table) {requests : List Request}
    (admissible : ∀ request ∈ requests, request.Admissible) :
    ∃ after trace, run store requests = .ok (after, trace) ∧
      Refines after (table.after (ops requests)) ∧
      AllReceived (table.after (ops requests)) ∧
      ∀ id, (deliveries id trace).map DataWrapper.stored =
          QueueTable.popped id table (ops requests) ∧
        ∀ reply ∈ deliveries id trace, reply.id = id := by
  induction requests generalizing store table with
  | nil => exact ⟨store, [], rfl, refines, received, fun _ => ⟨rfl, by simp [deliveries]⟩⟩
  | cons request rest inductionHypothesis =>
      obtain ⟨outcome, dispatched, refined, answered, _⟩ :=
        dispatch_refines refines (admissible request List.mem_cons_self)
      obtain ⟨after, trace, ran, refinedAfter, receivedAfter, delivered⟩ :=
        inductionHypothesis refined (received.step request)
          fun later member => admissible later (List.mem_cons_of_mem _ member)
      refine ⟨after, (request, outcome.effects) :: trace, ?_, refinedAfter, receivedAfter, ?_⟩
      · simp [run, dispatched, ran, bind, Except.bind]
      · intro id
        obtain ⟨first, firstId⟩ := deliveriesBy_eq received id answered
        obtain ⟨later, laterId⟩ := delivered id
        unfold deliveries at later laterId ⊢
        rw [List.flatMap_cons]
        constructor
        · rw [List.map_append, first, later]
          rfl
        · intro reply member
          rcases List.mem_append.mp member with here | there
          · exact firstId reply here
          · exact laterId reply there

private theorem map_content_stored (replies : List DataWrapper) :
    (replies.map DataWrapper.stored).map Stored.content = replies.map DataWrapper.msg := by
  rw [List.map_map]
  rfl

/-- The empty store, run. -/
theorem run_empty {requests : List Request}
    (admissible : ∀ request ∈ requests, request.Admissible) :
    ∃ store trace, run Store.empty requests = .ok (store, trace) ∧
      Refines store (QueueTable.empty.after (ops requests)) ∧
      AllReceived (QueueTable.empty.after (ops requests)) ∧
      ∀ id, handedOut id trace ++
          ((QueueTable.empty.after (ops requests)).lookup id).map Stored.content =
        storedFor id requests := by
  obtain ⟨store, trace, ran, refined, received, delivered⟩ :=
    run_refines refines_empty allReceived_empty admissible
  refine ⟨store, trace, ran, refined, received, ?_⟩
  intro id
  have conserved := QueueTable.run_conserves QueueTable.empty id (ops requests)
  rw [handedOut_eq, ← map_content_stored, (delivered id).1, ← List.map_append, conserved,
    QueueTable.lookup_empty, List.nil_append, storedFor_eq]

end Torchat.Daemon
