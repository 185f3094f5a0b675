import Mathlib.Data.List.Perm.Basic
import Torchat.Daemon.EventLoop

/-!
Contract: every call on a socket acts on the connection that it is meant for.

Owns the condition on the closing of descriptors under which that holds of every
run of the event loop, and the run in which it fails.

Does not own the loop; see `EventLoop`.
-/

set_option autoImplicit false

namespace Torchat.Daemon

open Torchat.Foundation

/-- The calls of the routines act on their own connections, and no connection is
closed twice. -/
structure Unmixed (log : List Access) : Prop where
  same : ∀ access ∈ log, access.caller = .eventRoutine →
    access.target = some access.connection
  once : ∀ connection, (log.filter fun access => access.call = .close ∧
    (access.connection = connection ∨ access.target = some connection)).length ≤ 1

/-- A descriptor is closed only while no event of the batch and no other routine
that will use it refers to it. A routine that waits for the connecting thread
does not come back to its socket. -/
def ClosesAlone (loop : EventLoop) : Action → Prop
  | .handle =>
      match loop.main with
      | .handling (event :: _) => event.failed = true →
          ∀ routine ∈ loop.suspended, routine.rawsock = event.fd → routine.point = .relay
      | _ => True
  | .close =>
      ∀ routine, loop.running = some routine →
        (∀ other ∈ loop.suspended, other.rawsock = routine.rawsock → other.point = .relay) ∧
          ∀ event ∈ loop.main.events, event.fd ≠ routine.rawsock
  | _ => True

def EventLoop.routines (loop : EventLoop) : List Routine :=
  loop.running.toList ++ loop.suspended

/-! ## The log -/

/-- Every call of a log met its connection, and what was closed is gone. -/
structure Orderly (table : DescriptorTable Nat) (log : List Access) : Prop where
  same : ∀ access ∈ log, access.target = some access.connection
  gone : ∀ access ∈ log, access.call = .close → table.Gone access.connection
  once : ((log.filter fun access => access.call = .close).map Access.connection).Nodup

section Log

variable {table : DescriptorTable Nat} {log : List Access} {fd connection : Nat}

theorem Orderly.assign (orderly : Orderly table log) (fd : Nat) :
    Orderly (table.assign fd) log where
  same := orderly.same
  gone := fun access member closes => (orderly.gone access member closes).assign fd
  once := orderly.once

theorem Orderly.access (orderly : Orderly table log)
    (held : table.lookup fd = some connection) {call : Call} (keeps : call ≠ .close)
    (caller : Caller) :
    Orderly table
      (log ++ [{ call := call, caller := caller, connection := connection,
                 target := table.lookup fd }]) := by
  refine ⟨?_, ?_, ?_⟩
  · intro access member
    rcases List.mem_append.mp member with old | new
    · exact orderly.same access old
    · rw [List.mem_singleton.mp new]
      exact held
  · intro access member closes
    rcases List.mem_append.mp member with old | new
    · exact orderly.gone access old closes
    · rw [List.mem_singleton.mp new] at closes
      exact absurd closes keeps
  · rw [List.filter_append]
    simpa [keeps] using orderly.once

theorem Orderly.close (orderly : Orderly table log)
    (held : table.lookup fd = some connection) (caller : Caller) :
    Orderly (table.release fd)
      (log ++ [{ call := .close, caller := caller, connection := connection,
                 target := table.lookup fd }]) := by
  refine ⟨?_, ?_, ?_⟩
  · intro access member
    rcases List.mem_append.mp member with old | new
    · exact orderly.same access old
    · rw [List.mem_singleton.mp new]
      exact held
  · intro access member closes
    rcases List.mem_append.mp member with old | new
    · exact (orderly.gone access old closes).release fd
    · rw [List.mem_singleton.mp new]
      exact DescriptorTable.gone_release held
  · rw [List.filter_append, List.map_append, List.nodup_append']
    refine ⟨orderly.once, by simp, ?_⟩
    intro closed before now
    obtain ⟨access, member, rfl⟩ := List.mem_map.mp before
    obtain ⟨inLog, closes⟩ := List.mem_filter.mp member
    have earlier := orderly.gone access inLog (of_decide_eq_true closes)
    have here : access.connection = connection := by simpa using now
    exact DescriptorTable.ne_of_gone earlier held here.symm

theorem Orderly.unmixed (orderly : Orderly table log) : Unmixed log := by
  refine ⟨fun access member _ => orderly.same access member, fun connection => ?_⟩
  have closings : (log.filter fun access => access.call = .close ∧
      (access.connection = connection ∨ access.target = some connection)) =
      (log.filter fun access => access.call = .close).filter fun access =>
        access.connection = connection := by
    rw [List.filter_filter]
    apply List.filter_congr
    intro access member
    have target := orderly.same access member
    simp only [target, Option.some.injEq, or_self, Bool.decide_and, Bool.and_comm]
  have counted := List.nodup_iff_count_le_one.mp orderly.once connection
  rw [closings, ← List.countP_eq_length_filter]
  rw [List.count, List.countP_map] at counted
  refine le_trans (le_of_eq (List.countP_congr fun access _ => ?_)) counted
  simp

end Log

/-! ## Who refers to a descriptor -/

/-- A descriptor has the connection behind it that its user takes it for, and it
is no socket of a connecting thread. -/
def Holds (table : DescriptorTable Nat) (others : List (Nat × Nat)) (fd connection : Nat) :
    Prop :=
  table.lookup fd = some connection ∧ connection ∉ others.map Prod.snd

/-- The invariant of the loop. -/
structure Isolated (table : DescriptorTable Nat) (routines : List Routine) (events : List Event)
    (others : List (Nat × Nat)) (log : List Access) : Prop where
  routinesHold : ∀ routine ∈ routines,
    routine.point = .relay ∨ Holds table others routine.rawsock routine.connection
  eventsHold : ∀ event ∈ events, Holds table others event.fd event.connection
  eventsNodup : (events.map Event.fd).Nodup
  othersHeld : ∀ other ∈ others, table.lookup other.1 = some other.2
  othersNodup : (others.map Prod.snd).Nodup
  orderly : Orderly table log

def EventLoop.Isolated (loop : EventLoop) : Prop :=
  Daemon.Isolated loop.table loop.routines loop.main.events loop.others loop.log

section Users

variable {table : DescriptorTable Nat} {others : List (Nat × Nat)} {fd connection : Nat}
variable {routines : List Routine} {events : List Event} {log : List Access}

theorem Holds.assign (holds : Holds table others fd connection) {free : Nat}
    (isFree : table.lookup free = none) : Holds (table.assign free) others fd connection :=
  ⟨DescriptorTable.lookup_assign_of_free isFree holds.1, holds.2⟩

theorem Holds.release (holds : Holds table others fd connection) {closed : Nat}
    (different : fd ≠ closed) : Holds (table.release closed) others fd connection :=
  ⟨(DescriptorTable.lookup_release_of_ne different).trans holds.1, holds.2⟩

namespace Isolated

/-- Routines may end, and move on while they hold their descriptor or are done
with it. -/
theorem ofRoutines (isolated : Isolated table routines events others log)
    {after : List Routine} (moved : ∀ routine ∈ after, routine ∈ routines ∨
      routine.point = .relay ∨ Holds table others routine.rawsock routine.connection) :
    Isolated table after events others log where
  routinesHold := by
    intro routine member
    rcases moved routine member with old | new
    · exact isolated.routinesHold routine old
    · exact new
  eventsHold := isolated.eventsHold
  eventsNodup := isolated.eventsNodup
  othersHeld := isolated.othersHeld
  othersNodup := isolated.othersNodup
  orderly := isolated.orderly

/-- The first event is dealt with. -/
theorem tail {event : Event} (isolated : Isolated table routines (event :: events) others log) :
    Isolated table routines events others log where
  routinesHold := isolated.routinesHold
  eventsHold := fun later member => isolated.eventsHold later (List.mem_cons_of_mem _ member)
  eventsNodup := (List.nodup_cons.mp isolated.eventsNodup).2
  othersHeld := isolated.othersHeld
  othersNodup := isolated.othersNodup
  orderly := isolated.orderly

/-- A descriptor that was free is given away. -/
theorem assign (isolated : Isolated table routines events others log) {free : Nat}
    (isFree : table.lookup free = none) :
    Isolated (table.assign free) routines events others log where
  routinesHold := by
    intro routine member
    exact (isolated.routinesHold routine member).imp_right fun holds => holds.assign isFree
  eventsHold := fun event member => (isolated.eventsHold event member).assign isFree
  eventsNodup := isolated.eventsNodup
  othersHeld := fun other member =>
    DescriptorTable.lookup_assign_of_free isFree (isolated.othersHeld other member)
  othersNodup := isolated.othersNodup
  orderly := isolated.orderly.assign free

/-- A call other than `close` on a descriptor that is held. -/
theorem access (isolated : Isolated table routines events others log)
    (held : table.lookup fd = some connection) {call : Call} (keeps : call ≠ .close)
    (caller : Caller) :
    Isolated table routines events others
      (log ++ [{ call := call, caller := caller, connection := connection,
                 target := table.lookup fd }]) :=
  { isolated with orderly := isolated.orderly.access held keeps caller }

/-- A descriptor is closed that nobody else will use. -/
theorem close (isolated : Isolated table routines events others log)
    (held : table.lookup fd = some connection) (caller : Caller)
    (noRoutine : ∀ routine ∈ routines, routine.rawsock = fd → routine.point = .relay)
    (noEvent : ∀ event ∈ events, event.fd ≠ fd) (noOther : connection ∉ others.map Prod.snd) :
    Isolated (table.release fd) routines events others
      (log ++ [{ call := .close, caller := caller, connection := connection,
                 target := table.lookup fd }]) where
  routinesHold := by
    intro routine member
    rcases isolated.routinesHold routine member with relay | holds
    · exact Or.inl relay
    · by_cases here : routine.rawsock = fd
      · exact Or.inl (noRoutine routine member here)
      · exact Or.inr (holds.release here)
  eventsHold := fun event member => (isolated.eventsHold event member).release (noEvent event member)
  eventsNodup := isolated.eventsNodup
  othersHeld := by
    intro other member
    have kept := isolated.othersHeld other member
    have different : other.1 ≠ fd := by
      intro here
      rw [here, held] at kept
      exact noOther (List.mem_map.mpr ⟨other, member, (Option.some.inj kept).symm⟩)
    exact (DescriptorTable.lookup_release_of_ne different).trans kept
  othersNodup := isolated.othersNodup
  orderly := isolated.orderly.close held caller

/-- A connecting thread opens a socket. -/
theorem openOther (isolated : Isolated table routines events others log)
    (free : table.lookup fd = none) :
    Isolated (table.assign fd) routines events (others ++ [(fd, table.next)]) log := by
  have assigned := isolated.assign free
  have apart {held resource : Nat} (holds : Holds table others held resource) :
      Holds (table.assign fd) (others ++ [(fd, table.next)]) held resource := by
    refine ⟨(holds.assign free).1, ?_⟩
    have older := table.below holds.1
    rw [List.map_append, List.mem_append, not_or]
    exact ⟨holds.2, by simpa using Nat.ne_of_lt older⟩
  refine ⟨?_, fun event member => apart (isolated.eventsHold event member), isolated.eventsNodup, ?_,
    ?_, assigned.orderly⟩
  · intro routine member
    exact (isolated.routinesHold routine member).imp_right apart
  · intro other member
    rcases List.mem_append.mp member with old | new
    · exact assigned.othersHeld other old
    · rw [List.mem_singleton.mp new]
      exact DescriptorTable.lookup_assign_self
  · rw [List.map_append, List.nodup_append']
    refine ⟨isolated.othersNodup, by simp, ?_⟩
    intro resource old new
    obtain ⟨other, member, rfl⟩ := List.mem_map.mp old
    have older := table.below (isolated.othersHeld other member)
    exact absurd (List.mem_singleton.mp new) (Nat.ne_of_lt older)

/-- A connecting thread closes its socket. -/
theorem closeOther (isolated : Isolated table routines events others log) {index : Nat}
    (found : others[index]? = some (fd, connection)) :
    Isolated (table.release fd) routines events (others.eraseIdx index)
      (log ++ [{ call := .close, caller := .connectingThread, connection := connection,
                 target := table.lookup fd }]) := by
  obtain ⟨inside, atIndex⟩ := List.getElem?_eq_some_iff.mp found
  have member : (fd, connection) ∈ others := atIndex ▸ List.getElem_mem inside
  have held := isolated.othersHeld _ member
  have sublist := List.eraseIdx_sublist others index
  have noOther : connection ∉ (others.eraseIdx index).map Prod.snd := by
    have perm := (List.getElem_cons_eraseIdx_perm inside).map Prod.snd
    have nodup := perm.nodup_iff.mpr isolated.othersNodup
    rw [List.map_cons, List.nodup_cons, atIndex] at nodup
    exact nodup.1
  have weaker {user resource : Nat} (holds : Holds table others user resource) :
      Holds table (others.eraseIdx index) user resource :=
    ⟨holds.1, fun inRest => holds.2 ((sublist.map Prod.snd).subset inRest)⟩
  have apart {user resource : Nat} (holds : Holds table others user resource) : user ≠ fd := by
    rintro rfl
    have same := Option.some.inj (holds.1.symm.trans held)
    exact holds.2 (List.mem_map.mpr ⟨_, member, same.symm⟩)
  have without : Isolated table routines events (others.eraseIdx index) log :=
    { routinesHold := fun routine inRoutines =>
        (isolated.routinesHold routine inRoutines).imp_right weaker
      eventsHold := fun event inEvents => weaker (isolated.eventsHold event inEvents)
      eventsNodup := isolated.eventsNodup
      othersHeld := fun other inRest => isolated.othersHeld other (sublist.subset inRest)
      othersNodup := (sublist.map Prod.snd).nodup isolated.othersNodup
      orderly := isolated.orderly }
  refine without.close held .connectingThread ?_
    (fun event inEvents => apart (isolated.eventsHold event inEvents)) noOther
  intro routine inRoutines here
  rcases isolated.routinesHold routine inRoutines with relay | holds
  · exact relay
  · exact absurd here (apart holds)

end Isolated

end Users

/-! ## Steps -/

namespace EventLoop

variable {loop after : EventLoop} {listenSock : Nat} {routine : Routine}

theorem isolated_initial (listenSock : Nat) : (initial listenSock).Isolated :=
  { routinesHold := by simp [routines, initial]
    eventsHold := by simp [Main.events, initial]
    eventsNodup := by simp [Main.events, initial]
    othersHeld := by simp [initial]
    othersNodup := by simp [initial]
    orderly := ⟨by simp [initial], by simp [initial], by simp [initial]⟩ }

private theorem routines_of_running (running : loop.running = some routine) :
    loop.routines = routine :: loop.suspended := by
  simp [routines, running]

private theorem routines_of_none (running : loop.running = none) :
    loop.routines = loop.suspended := by
  simp [routines, running]

/-- The running routine goes on, yields or ends; it still holds its descriptor,
or is done with it. -/
private theorem isolated_goOn (isolated : loop.Isolated) (running : loop.running = some routine)
    {point : Point}
    (holds : Holds loop.table loop.others routine.rawsock routine.connection) :
    (loop.goOn routine point).Isolated := by
  apply isolated.ofRoutines
  intro moved member
  rw [routines_of_running running]
  rcases List.mem_cons.mp member with rfl | suspended
  · exact Or.inr (Or.inr holds)
  · exact Or.inl (List.mem_cons_of_mem _ suspended)

private theorem isolated_yieldAt (isolated : loop.Isolated)
    (running : loop.running = some routine) {point : Point}
    (holds : point = .relay ∨
      Holds loop.table loop.others routine.rawsock routine.connection) :
    (loop.yieldAt routine point).Isolated := by
  apply isolated.ofRoutines
  intro moved member
  rw [routines_of_none rfl] at member
  rw [routines_of_running running]
  rcases List.mem_append.mp member with suspended | yielded
  · exact Or.inl (List.mem_cons_of_mem _ suspended)
  · rw [List.mem_singleton.mp yielded]
    exact Or.inr holds

private theorem isolated_finish (isolated : loop.Isolated)
    (running : loop.running = some routine) : loop.finish.Isolated := by
  apply isolated.ofRoutines
  intro moved member
  rw [routines_of_running running]
  exact Or.inl (List.mem_cons_of_mem _ member)

/-- A routine at any other point than the wait holds its descriptor. -/
private theorem holds_of_running (isolated : loop.Isolated)
    (running : loop.running = some routine) (uses : routine.point ≠ .relay) :
    Holds loop.table loop.others routine.rawsock routine.connection := by
  have member : routine ∈ loop.routines := by
    rw [routines_of_running running]
    exact List.mem_cons_self
  exact (isolated.routinesHold routine member).resolve_left uses

private theorem isolated_wait {events : List Event} (isolated : loop.Isolated)
    (stepped : loop.wait events = some after) : after.Isolated := by
  obtain ⟨⟨_, _, _, _, nodup, holds⟩, rfl⟩ := wait_cases stepped
  exact
    { routinesHold := isolated.routinesHold
      eventsHold := holds
      eventsNodup := nodup
      othersHeld := isolated.othersHeld
      othersNodup := isolated.othersNodup
      orderly := isolated.orderly }

private theorem isolated_handle (isolated : loop.Isolated) (alone : ClosesAlone loop .handle)
    (stepped : loop.handle listenSock = some after) : after.Isolated := by
  obtain ⟨event, rest, notRunning, main, handled⟩ := handle_cases stepped
  have core : Daemon.Isolated loop.table loop.suspended (event :: rest) loop.others loop.log := by
    have whole := isolated
    rw [EventLoop.Isolated, main, routines_of_none notRunning] at whole
    exact whole
  have holds := core.eventsHold event List.mem_cons_self
  rcases handled with ⟨failed, rfl⟩ | ⟨_, _, rfl⟩ | ⟨_, _, rfl⟩
  · simp only [ClosesAlone, main] at alone
    have onlyOnce := (List.nodup_cons.mp core.eventsNodup).1
    have closed := core.tail.close holds.1 .eventLoop (alone failed)
      (fun later member here => onlyOnce (List.mem_map.mpr ⟨later, member, here⟩)) holds.2
    rw [EventLoop.Isolated, routines_of_none (by exact notRunning)]
    exact closed
  · rw [EventLoop.Isolated, routines_of_none (by exact notRunning)]
    exact core.tail
  · apply core.tail.ofRoutines
    intro started member
    rcases List.mem_cons.mp member with rfl | suspended
    · exact Or.inr (Or.inr holds)
    · exact Or.inl suspended

private theorem isolated_accept {infd : Option Nat} (isolated : loop.Isolated)
    (stepped : loop.accept listenSock infd = some after) : after.Isolated := by
  obtain ⟨rest, _, main, ⟨_, rfl⟩ | ⟨fd, _, free, _, rfl⟩⟩ := accept_cases stepped
  · have core := isolated
    rw [EventLoop.Isolated, main] at core
    exact core
  · exact isolated.assign free

private theorem isolated_dispatchPoint {parsed : Except Fault Connection}
    (isolated : loop.Isolated) (running : loop.running = some routine)
    (holds : Holds loop.table loop.others routine.rawsock routine.connection)
    (stepped : loop.dispatchPoint routine parsed = some after) : after.Isolated := by
  have finished := isolated_finish isolated running
  rcases dispatchPoint_cases stepped with (rfl | rfl) | rfl | ⟨point, rfl⟩
  · exact finished
  · exact finished
  · exact isolated_yieldAt isolated running (Or.inl rfl)
  · exact isolated_goOn isolated running holds

private theorem isolated_recv {outcome : RecvOutcome} {now : Tm} (isolated : loop.Isolated)
    (stepped : loop.recv outcome now = some after) : after.Isolated := by
  obtain ⟨routine, running, receives, outcomes⟩ := recv_cases stepped
  have uses : routine.point ≠ .relay := by
    rcases receives with header | ⟨len, buf, body⟩
    · simp [header]
    · simp [body]
  have holds := holds_of_running isolated running uses
  have received :
      (loop.access .recv .eventRoutine routine.rawsock routine.connection).Isolated :=
    isolated.access holds.1 (by simp) .eventRoutine
  rcases outcomes with ⟨point, rfl⟩ | ⟨point, rfl⟩ | ⟨parsed, dispatched⟩
  · exact isolated_goOn received running holds
  · exact isolated_yieldAt received running (Or.inr holds)
  · exact isolated_dispatchPoint received running holds dispatched

private theorem isolated_poll (isolated : loop.Isolated) (stepped : loop.poll = some after) :
    after.Isolated := by
  obtain ⟨routine, running, rfl⟩ := poll_cases stepped
  exact isolated_yieldAt isolated running (Or.inl rfl)

private theorem isolated_send {outcome : SendOutcome} (isolated : loop.Isolated)
    (stepped : loop.send outcome = some after) : after.Isolated := by
  obtain ⟨routine, running, reply, outcomes⟩ := send_cases stepped
  have holds := holds_of_running isolated running (by simp [reply])
  have sent : (loop.access .send .eventRoutine routine.rawsock routine.connection).Isolated :=
    isolated.access holds.1 (by simp) .eventRoutine
  rcases outcomes with rfl | rfl
  · exact isolated_yieldAt sent running (Or.inr holds)
  · exact isolated_finish sent running

private theorem isolated_refuse (isolated : loop.Isolated) (stepped : loop.refuse = some after) :
    after.Isolated := by
  obtain ⟨routine, running, rfl⟩ := refuse_cases stepped
  exact isolated_finish isolated running

private theorem isolated_close (isolated : loop.Isolated) (alone : ClosesAlone loop .close)
    (stepped : loop.close = some after) : after.Isolated := by
  obtain ⟨routine, running, closing, rfl⟩ := close_cases stepped
  have holds := holds_of_running isolated running (by simp [closing])
  obtain ⟨noRoutine, noEvent⟩ := alone routine running
  exact (isolated_finish isolated running).close holds.1 .eventRoutine noRoutine noEvent holds.2

private theorem isolated_resume {index : Nat} {expired : Bool} (isolated : loop.Isolated)
    (stepped : loop.resume index expired = some after) : after.Isolated := by
  obtain ⟨routine, notRunning, found, outcomes⟩ := resume_cases stepped
  have kept : ∀ later ∈ loop.suspended.eraseIdx index, later ∈ loop.routines := by
    intro later inRest
    rw [routines_of_none notRunning]
    exact List.mem_of_mem_eraseIdx inRest
  rcases outcomes with rfl | rfl
  · apply isolated.ofRoutines
    rw [routines_of_none (by exact notRunning)]
    exact fun later inRest => Or.inl (kept later inRest)
  · apply isolated.ofRoutines
    intro later inAfter
    rcases List.mem_cons.mp inAfter with rfl | inRest
    · left
      rw [routines_of_none notRunning]
      exact List.mem_of_getElem? found
    · exact Or.inl (kept later inRest)

private theorem isolated_openOther {fd : Nat} (isolated : loop.Isolated)
    (stepped : loop.openOther fd = some after) : after.Isolated := by
  obtain ⟨free, rfl⟩ := openOther_cases stepped
  exact Daemon.Isolated.openOther isolated free

private theorem isolated_closeOther {index : Nat} (isolated : loop.Isolated)
    (stepped : loop.closeOther index = some after) : after.Isolated := by
  obtain ⟨fd, connection, found, rfl⟩ := closeOther_cases stepped
  exact Daemon.Isolated.closeOther isolated found

/-- One step keeps the invariant, if it closes nothing that is still in use. -/
theorem isolated_step {action : Action} (isolated : loop.Isolated)
    (alone : ClosesAlone loop action) (stepped : loop.step listenSock action = some after) :
    after.Isolated := by
  cases action with
  | wait events => exact isolated_wait isolated stepped
  | handle => exact isolated_handle isolated alone stepped
  | accept infd => exact isolated_accept isolated stepped
  | resume index expired => exact isolated_resume isolated stepped
  | recv outcome now => exact isolated_recv isolated stepped
  | poll => exact isolated_poll isolated stepped
  | send outcome => exact isolated_send isolated stepped
  | refuse => exact isolated_refuse isolated stepped
  | close => exact isolated_close isolated alone stepped
  | interrupt =>
      cases stepped
      exact isolated
  | openOther fd => exact isolated_openOther isolated stepped
  | closeOther index => exact isolated_closeOther isolated stepped

end EventLoop

/-- In every run that closes a descriptor only while nothing else uses it, the
calls of the routines act on their own connections and no connection is closed
twice. -/
theorem unmixed_of_closesAlone (listenSock : Nat) (actions : List Action) (loop : EventLoop)
    (alone : EachStep (EventLoop.step listenSock) ClosesAlone (EventLoop.initial listenSock)
      actions)
    (ran : runActions (EventLoop.step listenSock) (EventLoop.initial listenSock) actions =
      some loop) :
    Unmixed loop.log := by
  have isolated : loop.Isolated :=
    invariant_of_run (fun _ _ _ before closesAlone stepped =>
      EventLoop.isolated_step before closesAlone stepped)
      (EventLoop.isolated_initial listenSock) alone ran
  exact isolated.orderly.unmixed

/-- A client connects and leaves again. -/
def sampleVisit : List Action :=
  [.wait [⟨3, false, 0⟩], .handle, .accept (some 5), .accept none, .wait [⟨5, false, 1⟩], .handle,
    .recv .eof sampleTime, .close]

theorem unmixed_of_closesAlone_visit :
    ∃ loop, runActions (EventLoop.step 3) (EventLoop.initial 3) sampleVisit = some loop ∧
      Unmixed loop.log := by
  refine ⟨_, rfl, unmixed_of_closesAlone 3 sampleVisit _ ?_ rfl⟩
  refine ⟨trivial, ?_, trivial, trivial, trivial, ?_, trivial, ?_, trivial⟩
  · intro failed
    contradiction
  · intro failed
    contradiction
  · intro routine running
    cases running
    exact ⟨fun _ suspended => absurd suspended List.not_mem_nil,
      fun _ pending => absurd pending List.not_mem_nil⟩

/-- The receiving loop of the first client's routine waits for the rest of a body. The
client sends a part of it and resets the connection, while another one connects: behind
`epoll_wait` the routine reads the part and yields again, the loop closes the descriptor
for its error, and `accept` gives it to the next client. The routine reads what that one
sends. Every step is the next one in the order in which coroutines become ready. -/
def sampleMixup : List Action :=
  [.wait [⟨3, false, 0⟩], .handle, .accept (some 5), .accept none,
    .wait [⟨5, false, 1⟩], .handle,
    .recv (.data (ascii "0005")) sampleTime, .recv .again sampleTime,
    .wait [⟨5, true, 1⟩, ⟨3, false, 0⟩],
    .resume 0 false, .recv (.data (ascii "he")) sampleTime,
    .handle, .handle, .accept (some 5), .accept none,
    .wait [⟨5, false, 2⟩],
    .resume 0 false, .recv (.data (ascii "0002")) sampleTime]

theorem reused_descriptor_is_read :
    ∃ loop, runActions (EventLoop.step 3) (EventLoop.initial 3) sampleMixup = some loop ∧
      { call := .recv, caller := .eventRoutine, connection := 1, target := some 2 } ∈ loop.log ∧
      ¬ Unmixed loop.log := by
  have logged : (runActions (EventLoop.step 3) (EventLoop.initial 3) sampleMixup).map
      EventLoop.log = some
        [⟨.recv, .eventRoutine, 1, some 1⟩, ⟨.recv, .eventRoutine, 1, some 1⟩,
          ⟨.recv, .eventRoutine, 1, some 1⟩, ⟨.close, .eventLoop, 1, some 1⟩,
          ⟨.recv, .eventRoutine, 1, some 2⟩] := by
    decide +kernel
  obtain ⟨loop, ran, log⟩ := Option.map_eq_some_iff.mp logged
  have mixed : { call := .recv, caller := .eventRoutine, connection := 1, target := some 2 } ∈
      loop.log := by
    rw [log]
    decide
  refine ⟨loop, ran, mixed, fun unmixed => ?_⟩
  have met := unmixed.same _ mixed rfl
  contradiction

end Torchat.Daemon
