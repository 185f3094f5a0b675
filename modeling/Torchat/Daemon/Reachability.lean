import Torchat.Daemon.Dispatch

/-!
Contract: the stores that runs of commands leave behind.

A command that a run has taken did not fault, so the ids of its messages fit the
array of a peer. Owns the refinement of every reachable store and the fault of a
message whose id does not fit.

Does not own the commands; see `Dispatch`.
-/

set_option autoImplicit false

namespace Torchat.Daemon

open Torchat.Foundation

/-- Some run of commands leaves this store. -/
def Reachable (store : Store) : Prop :=
  ∃ requests trace, run Store.empty requests = .ok (store, trace)

section Refinement

variable {store : Store} {table : UnreadTable}

/-- The ids of the table have been read from the arrays of the peers. -/
theorem Refines.length_le_of_mem (refines : Refines store table) {id : CString}
    (present : id ∈ table.keys) : id.length ≤ 29 := by
  rw [← refines.head_keys] at present
  obtain ⟨entry, member, rfl⟩ := List.mem_map.mp present
  have room := CharArray.length_lt_of_read (refines.head_peers member).1
  omega

/-- A stored message is one more in the queue of its id. -/
theorem queued_storeMsg (refines : Refines store table) {after : Store} {data : DataWrapper} {now : Tm}
    (stored : storeMsg store data now = .ok after) (fits : data.id.length ≤ 29)
    (other : CString) :
    queued after other =
      if other = data.id then (queued store other).map (· ++ [data.msg])
      else queued store other := by
  obtain ⟨same, sameStored, refined⟩ := storeMsg_refines refines fits now
  rw [stored] at sameStored
  cases sameStored
  rw [refined.queued, refines.queued, QueueTable.lookup_push]
  split
  next here => simp [here]
  next => rfl

/-- An id without room for its terminator is not stored. -/
theorem storeMsg_of_long (refines : Refines store table) {data : DataWrapper}
    (long : 30 ≤ data.id.length) (now : Tm) :
    storeMsg store data now = .error .outOfBounds := by
  have unknown : ¬ peerExist store data.id = true := by
    rw [refines.peerExist_iff]
    intro present
    have short := refines.length_le_of_mem present
    omega
  rw [storeMsg, if_neg unknown, insertPeer_of_long long]
  rfl

/-- A command that does not fault stores under an id that fits. -/
theorem admissible_of_dispatch (refines : Refines store table) {request : Request}
    {outcome : Outcome} (dispatched : request.dispatch store = .ok outcome) :
    request.Admissible := by
  intro recv
  by_contra long
  have failed := storeMsg_of_long refines (Nat.lt_of_not_le long) request.environment.now
  rw [Request.dispatch, dispatch, recv] at dispatched
  simp only [failed, bind, Except.bind] at dispatched
  contradiction

/-- So does every command of a run. -/
theorem admissible_of_run (refines : Refines store table) {requests : List Request}
    {after : Store} {trace : List (Request × List Effect)}
    (ran : run store requests = .ok (after, trace)) :
    ∀ request ∈ requests, request.Admissible := by
  induction requests generalizing store table after trace with
  | nil =>
      intro request member
      contradiction
  | cons request rest inductionHypothesis =>
      cases dispatched : request.dispatch store with
      | error => simp [run, dispatched, bind, Except.bind] at ran
      | ok outcome =>
          have admissible := admissible_of_dispatch refines dispatched
          obtain ⟨same, sameDispatched, refined, _⟩ := dispatch_refines refines admissible
          rw [dispatched] at sameDispatched
          cases sameDispatched
          cases ranRest : run outcome.store rest with
          | error => simp [run, dispatched, ranRest, bind, Except.bind] at ran
          | ok result =>
              obtain ⟨last, later⟩ := result
              intro later member
              rcases List.mem_cons.mp member with rfl | inRest
              · exact admissible
              · exact inductionHypothesis refined ranRest later inRest

end Refinement

/-- A run that has not faulted is a run of the abstract table. -/
theorem refines_of_run {requests : List Request} {store : Store}
    {trace : List (Request × List Effect)} (ran : run Store.empty requests = .ok (store, trace)) :
    Refines store (QueueTable.empty.after (ops requests)) ∧
      AllReceived (QueueTable.empty.after (ops requests)) ∧
      ∀ id, (deliveries id trace).map DataWrapper.stored =
          QueueTable.popped id QueueTable.empty (ops requests) ∧
        ∀ reply ∈ deliveries id trace, reply.id = id := by
  obtain ⟨_, _, same, refined⟩ :=
    run_refines refines_empty allReceived_empty (admissible_of_run refines_empty ran)
  rw [ran] at same
  cases same
  exact refined

/-- A reachable store holds the queues of an abstract table. -/
theorem Reachable.refines {store : Store} (reachable : Reachable store) :
    ∃ table, Refines store table ∧ AllReceived table := by
  obtain ⟨requests, trace, ran⟩ := reachable
  obtain ⟨refined, received, _⟩ := refines_of_run ran
  exact ⟨_, refined, received⟩

end Torchat.Daemon
