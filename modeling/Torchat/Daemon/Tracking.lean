import Torchat.Daemon.Isolation

/-!
Contract: the indices that `event_loop` uses into `trackFd`.

The array has a slot for each of `MAXCONN` connections and is indexed by
descriptors, by what a failing `accept` returns, and at exit by the number of
connections. Owns those indices over whole runs and when they stay inside.

Does not own the loop; see `EventLoop`.
-/

set_option autoImplicit false

namespace Torchat.Daemon

open Torchat.Foundation

/-- `MAXCONN`. -/
def maxConn : Int := 16

def InBounds (index : Int) : Prop := 0 ≤ index ∧ index < maxConn

namespace EventLoop

/-! ## Indices -/

/-- The indices that a step uses: the result of `accept`, also of the failing
one, and the descriptor of a failed event. -/
def indices (loop : EventLoop) : Action → List Int
  | .accept none => [-1]
  | .accept (some infd) => [(infd : Int)]
  | .handle =>
      match loop.main with
      | .handling (event :: _) => if event.failed then [(event.fd : Int)] else []
      | _ => []
  | _ => []

/-- The condition of the loop is false. -/
def Exits (loop : EventLoop) : Prop :=
  loop.running = none ∧ loop.main = .handling [] ∧ loop.exitFlag = true

instance (loop : EventLoop) : Decidable loop.Exits :=
  inferInstanceAs (Decidable (_ ∧ _ ∧ _))

/-- The closing loop for a number of connections: it begins below it and counts
down to 0. -/
def closingIndices : Nat → List Int
  | 0 => []
  | nConn + 1 => (nConn : Int) :: closingIndices nConn

/-- The indices that a run uses, with those of the closing loop behind it. -/
def trackIndices (listenSock : Nat) : EventLoop → List Action → List Int
  | loop, [] => if loop.Exits then closingIndices loop.nConn.toNat else []
  | loop, action :: rest =>
      loop.indices action ++
        match loop.step listenSock action with
        | some after => trackIndices listenSock after rest
        | none => []

/-- What a step has to meet: an `accept` succeeds with a descriptor below
`MAXCONN`, and if the listening socket fails, it is below as well. -/
def TracksInside (listenSock : Nat) (loop : EventLoop) : Action → Prop
  | .accept infd => ∃ fd : Nat, infd = some fd ∧ (fd : Int) < maxConn
  | .handle =>
      match loop.main with
      | .handling (event :: _) =>
          event.failed = true → event.fd = listenSock → (listenSock : Int) < maxConn
      | _ => True
  | _ => True

theorem mem_closingIndices (nConn : Nat) (index : Int) :
    index ∈ closingIndices nConn ↔ 0 ≤ index ∧ index < nConn := by
  induction nConn with
  | zero =>
      simp only [closingIndices, List.not_mem_nil, false_iff]
      omega
  | succ nConn inductionHypothesis =>
      rw [closingIndices, List.mem_cons, inductionHypothesis]
      omega

/-- The closing loop stays inside exactly for at most `MAXCONN` connections. -/
theorem closingIndices_inBounds_iff (nConn : Int) :
    (∀ index ∈ closingIndices nConn.toNat, InBounds index) ↔ nConn ≤ maxConn := by
  simp only [mem_closingIndices, InBounds, maxConn]
  constructor
  · intro inside
    by_contra many
    have sixteen := inside 16
    omega
  · intro few index range
    omega

end EventLoop

/-! ## The invariant -/

/-- The descriptors of the process are below `MAXCONN`, but for those of the
listening socket and of the connecting threads. -/
structure Within (listenSock : Nat) (table : DescriptorTable Nat) (events : List Event)
    (others : List (Nat × Nat)) : Prop where
  opened : ∀ fd connection, table.lookup fd = some connection →
    connection ∈ others.map Prod.snd ∨ fd = listenSock ∨ (fd : Int) < maxConn
  reported : ∀ event ∈ events, event.fd = listenSock ∨ (event.fd : Int) < maxConn
  othersBelow : ∀ other ∈ others, other.2 < table.next
  othersAt : ∀ other ∈ others, ∀ fd, table.lookup fd = some other.2 → fd = other.1

def EventLoop.Within (listenSock : Nat) (loop : EventLoop) : Prop :=
  Daemon.Within listenSock loop.table loop.main.events loop.others

namespace Within

variable {listenSock : Nat} {table : DescriptorTable Nat} {events : List Event}
  {others : List (Nat × Nat)}

theorem tail {event : Event} (within : Within listenSock table (event :: events) others) :
    Within listenSock table events others where
  opened := within.opened
  reported := fun later member => within.reported later (List.mem_cons_of_mem _ member)
  othersBelow := within.othersBelow
  othersAt := within.othersAt

theorem release (within : Within listenSock table events others) (closed : Nat) :
    Within listenSock (table.release closed) events others where
  opened := by
    intro fd connection found
    exact within.opened fd connection (DescriptorTable.lookup_of_release found)
  reported := within.reported
  othersBelow := within.othersBelow
  othersAt := by
    intro other member fd found
    exact within.othersAt other member fd (DescriptorTable.lookup_of_release found)

/-- A descriptor below the bound is given away. -/
theorem assign (within : Within listenSock table events others) {free : Nat}
    (inside : (free : Int) < maxConn) : Within listenSock (table.assign free) events others where
  opened := by
    intro fd connection found
    rcases DescriptorTable.lookup_of_assign found with ⟨rfl, _⟩ | before
    · exact Or.inr (Or.inr inside)
    · exact within.opened fd connection before
  reported := within.reported
  othersBelow := fun other member => Nat.lt_succ_of_lt (within.othersBelow other member)
  othersAt := by
    intro other member fd found
    rcases DescriptorTable.lookup_of_assign found with ⟨_, same⟩ | before
    · exact absurd same (Nat.ne_of_lt (within.othersBelow other member))
    · exact within.othersAt other member fd before

/-- A connecting thread takes any descriptor. -/
theorem openOther (within : Within listenSock table events others) (free : Nat) :
    Within listenSock (table.assign free) events (others ++ [(free, table.next)]) where
  opened := by
    intro fd connection found
    rw [List.map_append]
    rcases DescriptorTable.lookup_of_assign found with ⟨_, rfl⟩ | before
    · exact Or.inl (List.mem_append_right _ List.mem_cons_self)
    · exact (within.opened fd connection before).imp_left (List.mem_append_left _)
  reported := within.reported
  othersBelow := by
    intro other member
    rcases List.mem_append.mp member with old | new
    · exact Nat.lt_succ_of_lt (within.othersBelow other old)
    · rw [List.mem_singleton.mp new]
      exact Nat.lt_succ_self _
  othersAt := by
    intro other member fd found
    rcases List.mem_append.mp member with old | new
    · rcases DescriptorTable.lookup_of_assign found with ⟨_, same⟩ | before
      · exact absurd same (Nat.ne_of_lt (within.othersBelow other old))
      · exact within.othersAt other old fd before
    · rw [List.mem_singleton.mp new] at found ⊢
      rcases DescriptorTable.lookup_of_assign found with ⟨here, _⟩ | before
      · exact here
      · exact absurd (table.below before) (Nat.lt_irrefl _)

/-- A connecting thread closes its socket. -/
theorem closeOther (within : Within listenSock table events others) {index : Nat}
    {closed gone : Nat} (present : others[index]? = some (closed, gone)) :
    Within listenSock (table.release closed) events (others.eraseIdx index) where
  opened := by
    intro fd connection found
    have before := DescriptorTable.lookup_of_release found
    rcases within.opened fd connection before with other | bounded
    · left
      obtain ⟨⟨user, _⟩, member, rfl⟩ := List.mem_map.mp other
      obtain ⟨position, here⟩ := List.mem_iff_getElem?.mp member
      have elsewhere : position ≠ index := by
        rintro rfl
        rw [present] at here
        cases here
        have same := within.othersAt _ member fd before
        subst same
        rw [DescriptorTable.lookup_release_self] at found
        contradiction
      exact List.mem_map.mpr
        ⟨_, List.mem_eraseIdx_iff_getElem?.mpr ⟨position, elsewhere, here⟩, rfl⟩
    · exact Or.inr bounded
  reported := within.reported
  othersBelow := fun other member => within.othersBelow other (List.mem_of_mem_eraseIdx member)
  othersAt := by
    intro other member fd found
    exact within.othersAt other (List.mem_of_mem_eraseIdx member) fd
      (DescriptorTable.lookup_of_release found)

end Within

/-! ## Steps -/

namespace EventLoop

/-- Nothing changes but the routines, the exit flag and the log. -/
structure SameTracking (loop after : EventLoop) : Prop where
  table : after.table = loop.table
  main : after.main = loop.main
  others : after.others = loop.others
  trackFd : after.trackFd = loop.trackFd
  nConn : after.nConn = loop.nConn

variable {loop after : EventLoop} {listenSock : Nat} {routine : Routine}

private theorem sameTracking_recv {outcome : RecvOutcome} {now : Tm}
    (stepped : loop.recv outcome now = some after) : SameTracking loop after := by
  obtain ⟨routine, _, _, ⟨point, rfl⟩ | ⟨point, rfl⟩ | ⟨parsed, dispatched⟩⟩ := recv_cases stepped
  · exact ⟨rfl, rfl, rfl, rfl, rfl⟩
  · exact ⟨rfl, rfl, rfl, rfl, rfl⟩
  · rcases dispatchPoint_cases dispatched with (rfl | rfl) | rfl | ⟨point, rfl⟩ <;>
      exact ⟨rfl, rfl, rfl, rfl, rfl⟩

private theorem sameTracking_resume {index : Nat} {expired : Bool}
    (stepped : loop.resume index expired = some after) : SameTracking loop after := by
  obtain ⟨routine, _, _, rfl | rfl⟩ := resume_cases stepped <;> exact ⟨rfl, rfl, rfl, rfl, rfl⟩

private theorem sameTracking_send {outcome : SendOutcome}
    (stepped : loop.send outcome = some after) : SameTracking loop after := by
  obtain ⟨routine, _, _, rfl | rfl⟩ := send_cases stepped <;> exact ⟨rfl, rfl, rfl, rfl, rfl⟩

/-- The routines do not touch what the loop tracks until they close their socket. -/
theorem sameTracking_of_step {action : Action} (stepped : loop.step listenSock action = some after)
    (ofRoutine : match action with
      | .resume _ _ | .recv _ _ | .poll | .send _ | .refuse => True
      | _ => False) : SameTracking loop after := by
  cases action with
  | resume index expired => exact sameTracking_resume stepped
  | recv outcome now => exact sameTracking_recv stepped
  | poll =>
      obtain ⟨routine, _, rfl⟩ := poll_cases stepped
      exact ⟨rfl, rfl, rfl, rfl, rfl⟩
  | send outcome => exact sameTracking_send stepped
  | refuse =>
      obtain ⟨routine, _, rfl⟩ := refuse_cases stepped
      exact ⟨rfl, rfl, rfl, rfl, rfl⟩
  | _ => contradiction

theorem within_of_same (within : loop.Within listenSock) (same : SameTracking loop after) :
    after.Within listenSock := by
  unfold EventLoop.Within
  rw [same.table, same.main, same.others]
  exact within

private theorem within_wait {events : List Event} (within : loop.Within listenSock)
    (stepped : loop.wait events = some after) : after.Within listenSock := by
  obtain ⟨⟨_, _, _, _, _, current⟩, rfl⟩ := wait_cases stepped
  refine ⟨within.opened, fun event member => ?_, within.othersBelow, within.othersAt⟩
  obtain ⟨found, notOther⟩ := current event member
  exact (within.opened event.fd event.connection found).resolve_left notOther

private theorem within_handle (within : loop.Within listenSock)
    (stepped : loop.handle listenSock = some after) : after.Within listenSock := by
  obtain ⟨event, rest, _, main, handled⟩ := handle_cases stepped
  unfold EventLoop.Within at within
  rw [main] at within
  rcases handled with ⟨_, rfl⟩ | ⟨_, _, rfl⟩ | ⟨_, _, rfl⟩
  · exact within.tail.release event.fd
  · exact within.tail
  · exact within.tail

private theorem within_accept {infd : Option Nat} (within : loop.Within listenSock)
    (inside : TracksInside listenSock loop (.accept infd))
    (stepped : loop.accept listenSock infd = some after) : after.Within listenSock := by
  obtain ⟨fd, rfl, below⟩ := inside
  obtain ⟨rest, _, _, ⟨none_, _⟩ | ⟨free, same, _, _, rfl⟩⟩ := accept_cases stepped
  · contradiction
  · cases same
    exact Daemon.Within.assign within below

private theorem within_close (within : loop.Within listenSock)
    (stepped : loop.close = some after) : after.Within listenSock := by
  obtain ⟨routine, _, _, rfl⟩ := close_cases stepped
  exact within.release routine.rawsock

private theorem within_openOther {fd : Nat} (within : loop.Within listenSock)
    (stepped : loop.openOther fd = some after) : after.Within listenSock := by
  obtain ⟨_, rfl⟩ := openOther_cases stepped
  exact Daemon.Within.openOther within fd

private theorem within_closeOther {index : Nat} (within : loop.Within listenSock)
    (stepped : loop.closeOther index = some after) : after.Within listenSock := by
  obtain ⟨fd, connection, present, rfl⟩ := closeOther_cases stepped
  exact Daemon.Within.closeOther within present

/-- One step keeps the descriptors below the bound, if it accepts none above. -/
theorem within_step {action : Action} (within : loop.Within listenSock)
    (inside : TracksInside listenSock loop action)
    (stepped : loop.step listenSock action = some after) : after.Within listenSock := by
  cases action with
  | wait events => exact within_wait within stepped
  | handle => exact within_handle within stepped
  | accept infd => exact within_accept within inside stepped
  | close => exact within_close within stepped
  | interrupt =>
      cases stepped
      exact within
  | openOther fd => exact within_openOther within stepped
  | closeOther index => exact within_closeOther within stepped
  | _ => exact within_of_same within (sameTracking_of_step stepped trivial)

theorem within_initial (listenSock : Nat) : (initial listenSock).Within listenSock where
  opened := by
    intro fd connection found
    rcases DescriptorTable.lookup_of_assign found with ⟨here, _⟩ | before
    · exact Or.inr (Or.inl here)
    · contradiction
  reported := by
    intro event member
    contradiction
  othersBelow := by
    intro other member
    contradiction
  othersAt := by
    intro other member
    contradiction

/-- Connections are counted while the loop is in a drain, and not before the first. -/
def CountsInDrain (loop : EventLoop) : Prop :=
  loop.nConn ≤ 0 ∨ ∃ rest, loop.main = .accepting rest

private theorem nConn_nonpos (counts : loop.CountsInDrain) {events : List Event}
    (main : loop.main = .handling events) : loop.nConn ≤ 0 := by
  refine counts.resolve_right fun drains => ?_
  obtain ⟨rest, accepting⟩ := drains
  rw [main] at accepting
  contradiction

private theorem countsInDrain_handle (counts : loop.CountsInDrain)
    (stepped : loop.handle listenSock = some after) : after.CountsInDrain := by
  obtain ⟨event, rest, _, main, handled⟩ := handle_cases stepped
  have none_ := nConn_nonpos counts main
  rcases handled with ⟨_, rfl⟩ | ⟨_, _, rfl⟩ | ⟨_, _, rfl⟩
  · exact Or.inl (Int.le_trans (Int.sub_le_self loop.nConn (by decide)) none_)
  · exact Or.inr ⟨rest, rfl⟩
  · exact Or.inl none_

private theorem countsInDrain_accept {infd : Option Nat}
    (inside : TracksInside listenSock loop (.accept infd))
    (stepped : loop.accept listenSock infd = some after) : after.CountsInDrain := by
  obtain ⟨fd, rfl, _⟩ := inside
  obtain ⟨rest, _, main, ⟨none_, _⟩ | ⟨free, _, _, _, rfl⟩⟩ := accept_cases stepped
  · contradiction
  · exact Or.inr ⟨rest, main⟩

/-- Only a failing `accept` ends a drain. -/
theorem countsInDrain_step {action : Action} (counts : loop.CountsInDrain)
    (inside : TracksInside listenSock loop action)
    (stepped : loop.step listenSock action = some after) : after.CountsInDrain := by
  cases action with
  | wait events =>
      obtain ⟨⟨_, main, _⟩, rfl⟩ := wait_cases stepped
      have none_ := nConn_nonpos counts main
      exact Or.inl none_
  | handle => exact countsInDrain_handle counts stepped
  | accept infd => exact countsInDrain_accept inside stepped
  | close =>
      obtain ⟨routine, _, _, rfl⟩ := close_cases stepped
      exact counts
  | interrupt =>
      cases stepped
      exact counts
  | openOther fd =>
      obtain ⟨_, rfl⟩ := openOther_cases stepped
      exact counts
  | closeOther index =>
      obtain ⟨fd, connection, _, rfl⟩ := closeOther_cases stepped
      exact counts
  | _ =>
      have same := sameTracking_of_step stepped trivial
      unfold CountsInDrain
      rw [same.nConn, same.main]
      exact counts

/-- So where the loop is left, its closing loop uses no index. -/
private theorem few_of_exits (counts : loop.CountsInDrain) (exits : loop.Exits) :
    loop.nConn ≤ maxConn :=
  (nConn_nonpos counts exits.2.1).trans (by decide)

/-- A step changes `trackFd` at its indices only. -/
theorem trackFd_of_step {action : Action} (stepped : loop.step listenSock action = some after)
    {index : Int} (unused : index ∉ loop.indices action) :
    after.trackFd index = loop.trackFd index := by
  cases action with
  | wait events => rw [(wait_cases stepped).2]
  | handle =>
      obtain ⟨event, rest, _, main, handled⟩ := handle_cases stepped
      rcases handled with ⟨failed, rfl⟩ | ⟨_, _, rfl⟩ | ⟨_, _, rfl⟩
      · simp only [indices, main, failed, if_true, List.mem_singleton] at unused
        exact if_neg unused
      · rfl
      · rfl
  | accept infd =>
      obtain ⟨rest, _, _, ⟨rfl, rfl⟩ | ⟨fd, rfl, _, _, rfl⟩⟩ := accept_cases stepped
      · rw [indices, List.mem_singleton] at unused
        exact if_neg unused
      · rw [indices, List.mem_singleton] at unused
        exact if_neg unused
  | close =>
      obtain ⟨routine, _, _, rfl⟩ := close_cases stepped
      rfl
  | interrupt =>
      cases stepped
      rfl
  | openOther fd => rw [(openOther_cases stepped).2]
  | closeOther index =>
      obtain ⟨fd, connection, _, rfl⟩ := closeOther_cases stepped
      rfl
  | _ => rw [(sameTracking_of_step stepped trivial).trackFd]

private theorem inBounds_natCast_iff (fd : Nat) : InBounds fd ↔ (fd : Int) < maxConn :=
  and_iff_right (Int.natCast_nonneg fd)

/-- The indices of a step stay inside exactly under its condition. -/
theorem indices_inBounds_iff (within : loop.Within listenSock) (action : Action) :
    (∀ index ∈ loop.indices action, InBounds index) ↔ TracksInside listenSock loop action := by
  cases action with
  | accept infd =>
      cases infd with
      | none =>
          have outside : ¬ InBounds (-1) := fun inside => absurd inside.1 (by decide)
          simp [indices, TracksInside, outside]
      | some fd => simp [indices, TracksInside, inBounds_natCast_iff]
  | handle =>
      cases main : loop.main with
      | accepting events => simp [indices, TracksInside, main]
      | handling events =>
          cases events with
          | nil => simp [indices, TracksInside, main]
          | cons event rest =>
              have reported := within.reported event
              rw [main] at reported
              cases failed : event.failed with
              | false => simp [indices, TracksInside, main, failed]
              | true =>
                  simp only [indices, TracksInside, main, failed, if_true, List.mem_singleton,
                    forall_eq, inBounds_natCast_iff, forall_true_left]
                  constructor
                  · rintro inside rfl
                    exact inside
                  · intro inside
                    rcases reported List.mem_cons_self with here | below
                    · rw [here]
                      exact inside here
                    · exact below
  | _ => simp [indices, TracksInside]

/-- So do those of a run that begins with the descriptors below the bound. -/
private theorem trackIndices_inBounds {actions : List Action} (within : loop.Within listenSock)
    (counts : loop.CountsInDrain)
    (ran : runActions (step listenSock) loop actions = some after) :
    (∀ index ∈ trackIndices listenSock loop actions, InBounds index) ↔
      EachStep (step listenSock) (TracksInside listenSock) loop actions := by
  induction actions generalizing loop with
  | nil =>
      cases ran
      unfold trackIndices
      refine iff_of_true ?_ trivial
      by_cases exits : after.Exits
      · rw [if_pos exits]
        exact (closingIndices_inBounds_iff after.nConn).mpr (few_of_exits counts exits)
      · simp [exits]
  | cons action rest inductionHypothesis =>
      obtain ⟨between, stepped, ranRest⟩ := Option.bind_eq_some_iff.mp ran
      have first := indices_inBounds_iff within action
      rw [trackIndices, EachStep, stepped, List.forall_mem_append, first]
      apply and_congr_right
      intro inside
      exact inductionHypothesis (within_step within inside stepped)
        (countsInDrain_step counts inside stepped) ranRest

/-- The `accept` that ends a drain uses the index -1. -/
theorem minus_one_mem_trackIndices {actions : List Action}
    (drained : .accept none ∈ actions)
    (ran : runActions (step listenSock) loop actions = some after) :
    -1 ∈ trackIndices listenSock loop actions := by
  induction actions generalizing loop with
  | nil => contradiction
  | cons action rest inductionHypothesis =>
      obtain ⟨between, stepped, ranRest⟩ := Option.bind_eq_some_iff.mp ran
      rw [trackIndices, stepped]
      rcases List.mem_cons.mp drained with rfl | later
      · exact List.mem_append_left _ List.mem_cons_self
      · exact List.mem_append_right _ (inductionHypothesis later ranRest)

end EventLoop

/-- In every run, the indices into `trackFd` are inside the array exactly where
every `accept` succeeds with a descriptor below `MAXCONN` and no failure of the
listening socket is reported above it. The closing loop needs no condition: without
a failing `accept` a drain never ends, so a loop that is left has counted nobody. -/
theorem trackIndices_inBounds_iff (listenSock : Nat) (actions : List Action) (loop : EventLoop)
    (ran : runActions (EventLoop.step listenSock) (EventLoop.initial listenSock) actions =
      some loop) :
    (∀ index ∈ EventLoop.trackIndices listenSock (EventLoop.initial listenSock) actions,
        InBounds index) ↔
      EachStep (EventLoop.step listenSock) (EventLoop.TracksInside listenSock)
        (EventLoop.initial listenSock) actions :=
  EventLoop.trackIndices_inBounds (EventLoop.within_initial listenSock)
    (Or.inl (Int.le_refl 0)) ran

/-- A client connects, and the drain of the listening socket is not over. -/
def sampleConnect : List Action := [.wait [⟨3, false, 0⟩], .handle, .accept (some 5)]

theorem trackIndices_inBounds_iff_connect :
    ∃ loop, runActions (EventLoop.step 3) (EventLoop.initial 3) sampleConnect = some loop ∧
      ∀ index ∈ EventLoop.trackIndices 3 (EventLoop.initial 3) sampleConnect, InBounds index := by
  refine ⟨_, rfl, (trackIndices_inBounds_iff 3 sampleConnect _ rfl).mpr
    ⟨trivial, ?_, ⟨5, rfl, by decide⟩, trivial⟩⟩
  intro failed
  contradiction

theorem visit_leaves_the_array :
    ∃ loop, runActions (EventLoop.step 3) (EventLoop.initial 3) sampleVisit = some loop ∧
      loop.trackFd (-1) = true ∧
      ¬ ∀ index ∈ EventLoop.trackIndices 3 (EventLoop.initial 3) sampleVisit,
        InBounds index := by
  refine ⟨_, rfl, rfl, ?_⟩
  intro inside
  have drained : Action.accept none ∈ sampleVisit := by simp [sampleVisit]
  have index := inside (-1) (EventLoop.minus_one_mem_trackIndices drained rfl)
  exact absurd index.1 (by decide)

end Torchat.Daemon
