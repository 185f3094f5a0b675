import Torchat.Daemon.Tracking

/-!
Contract: the connections that `event_loop` counts and tracks.

`nConn` and `trackFd` change with `accept`, the failing one included, and with an
error event, while `event_routine` closes its socket without telling the loop.
Owns what the two are to stand for at the head of the loop, and what the closing
loop behind it closes.

Does not own the bounds of `trackFd`; see `Tracking`.
-/

set_option autoImplicit false

namespace Torchat.Daemon

open Torchat.Foundation

namespace EventLoop

/-! ## What the count stands for -/

/-- A descriptor with an accepted connection behind it: neither the listening
socket nor one of a connecting thread. -/
def OpenAccepted (loop : EventLoop) (fd : Nat) : Prop :=
  ∃ connection, loop.table.lookup fd = some connection ∧ connection ≠ listening ∧
    connection ∉ loop.others.map Prod.snd

/-- `event_loop` is about to evaluate its condition. -/
def AtHead (loop : EventLoop) : Prop := loop.running = none ∧ loop.main = .handling []

/-- The descriptors that the closing loop shuts down and closes: it passes what
`trackFd` holds, which is 0 or 1, and not where it holds it. -/
def closedAtExit (loop : EventLoop) : List Nat :=
  (closingIndices loop.nConn.toNat).map fun index => if loop.trackFd index then 1 else 0

/-- The count is the number of accepted connections that are open, the table marks
their descriptors, and the closing loop closes each of them once and no other. -/
def Accounted (loop : EventLoop) : Prop :=
  ∃ opened : List Nat, opened.Nodup ∧ (∀ fd, fd ∈ opened ↔ loop.OpenAccepted fd) ∧
    loop.nConn = opened.length ∧ (∀ fd : Nat, loop.trackFd fd = true ↔ fd ∈ opened) ∧
      (loop.Exits → loop.closedAtExit.Perm opened)

/-- What a step has to meet: it does not end a drain of the listening socket, which
is what a failing `accept` does, and it does not handle an error of that socket. -/
def DrainsOn (listenSock : Nat) (loop : EventLoop) : Action → Prop
  | .accept infd => infd ≠ none
  | .handle =>
      match loop.main with
      | .handling (event :: _) => event.fd = listenSock → event.failed = false
      | _ => True
  | _ => True

/-! ## The invariant -/

/-- The sockets of the connecting threads are behind their descriptors, and none of
them is another one or the listening socket. -/
structure OthersHeld (table : DescriptorTable Nat) (others : List (Nat × Nat)) : Prop where
  held : ∀ other ∈ others, table.lookup other.1 = some other.2
  distinct : (others.map Prod.snd).Nodup
  later : ∀ other ∈ others, other.2 ≠ listening

namespace OthersHeld

variable {table : DescriptorTable Nat} {others : List (Nat × Nat)}

theorem assign (kept : OthersHeld table others) {free : Nat} (isFree : table.lookup free = none) :
    OthersHeld (table.assign free) others where
  held := fun other member =>
    DescriptorTable.lookup_assign_of_free isFree (kept.held other member)
  distinct := kept.distinct
  later := kept.later

/-- No connecting thread has the next connection. -/
theorem next_notMem (kept : OthersHeld table others) : table.next ∉ others.map Prod.snd := by
  intro member
  obtain ⟨other, present, same⟩ := List.mem_map.mp member
  have below := table.below (kept.held other present)
  omega

theorem openOther (kept : OthersHeld table others) {free : Nat}
    (isFree : table.lookup free = none) (begun : listening < table.next) :
    OthersHeld (table.assign free) (others ++ [(free, table.next)]) where
  held := by
    intro other member
    rcases List.mem_append.mp member with old | new
    · exact (kept.assign isFree).held other old
    · rw [List.mem_singleton.mp new]
      exact DescriptorTable.lookup_assign_self
  distinct := by
    rw [List.map_append, List.nodup_append]
    refine ⟨kept.distinct, List.nodup_singleton _, fun resource member new isNew => ?_⟩
    rw [List.mem_singleton.mp isNew]
    rintro rfl
    exact kept.next_notMem member
  later := by
    intro other member
    rcases List.mem_append.mp member with old | new
    · exact kept.later other old
    · rw [List.mem_singleton.mp new]
      exact Nat.ne_of_gt begun

/-- The socket of another thread is behind another descriptor. -/
theorem ne_of_mem_eraseIdx (kept : OthersHeld table others) {index : Nat} {other gone : Nat × Nat}
    (present : others[index]? = some gone) (member : other ∈ others.eraseIdx index) :
    other.1 ≠ gone.1 := by
  intro same
  obtain ⟨position, elsewhere, here⟩ := List.mem_eraseIdx_iff_getElem?.mp member
  have otherHeld := kept.held other (List.mem_of_mem_eraseIdx member)
  rw [same, kept.held gone (List.mem_of_getElem? present)] at otherHeld
  have first : (others.map Prod.snd)[index]? = some gone.2 := by
    rw [List.getElem?_map, present, Option.map_some]
  have second : (others.map Prod.snd)[position]? = some gone.2 := by
    rw [List.getElem?_map, here, Option.map_some, Option.some.inj otherHeld]
  have inside := (List.getElem?_eq_some_iff.mp first).1
  exact elsewhere ((List.getElem?_inj inside kept.distinct).mp (first.trans second.symm)).symm

theorem closeOther (kept : OthersHeld table others) {index : Nat} {gone : Nat × Nat}
    (present : others[index]? = some gone) :
    OthersHeld (table.release gone.1) (others.eraseIdx index) where
  held := by
    intro other member
    rw [DescriptorTable.lookup_release_of_ne (kept.ne_of_mem_eraseIdx present member)]
    exact kept.held other (List.mem_of_mem_eraseIdx member)
  distinct := kept.distinct.sublist ((List.eraseIdx_sublist others index).map Prod.snd)
  later := fun other member => kept.later other (List.mem_of_mem_eraseIdx member)

end OthersHeld

/-- Before the first drain is over: nothing has been started for a connection, and
connections are open only while the loop accepts. -/
structure Counted (listenSock : Nat) (loop : EventLoop) (opened : List Nat) : Prop where
  running : loop.running = none
  suspended : loop.suspended = []
  listens : loop.table.lookup listenSock = some listening
  others : OthersHeld loop.table loop.others
  handles : ∀ events, loop.main = .handling events →
    opened = [] ∧ (events = [] ∨ ∃ event, events = [event] ∧ event.fd = listenSock)
  drains : ∀ events, loop.main = .accepting events → events = []
  nodup : opened.Nodup
  mem : ∀ fd, fd ∈ opened ↔ loop.OpenAccepted fd
  counted : loop.nConn = opened.length
  tracked : ∀ fd : Nat, loop.trackFd fd = true ↔ fd ∈ opened

section Steps

variable {listenSock : Nat} {loop after : EventLoop} {opened : List Nat}

/-- At the head of the loop nothing is open, so there is nothing to close. -/
theorem Counted.accounted (counts : Counted listenSock loop opened) (head : loop.AtHead) :
    loop.Accounted := by
  refine ⟨opened, counts.nodup, counts.mem, counts.counted, counts.tracked, fun _ => ?_⟩
  have nothing := (counts.handles [] head.2).1
  rw [closedAtExit, counts.counted, nothing]
  exact List.Perm.refl []

/-- What does not change the table and the sockets of the threads leaves the accepted
connections as they are. -/
theorem openAccepted_congr (table : after.table = loop.table) (others : after.others = loop.others)
    (fd : Nat) : after.OpenAccepted fd ↔ loop.OpenAccepted fd := by
  rw [OpenAccepted, OpenAccepted, table, others]

private theorem counted_wait {events : List Event} (counts : Counted listenSock loop opened)
    (stepped : loop.wait events = some after) : Counted listenSock after opened := by
  obtain ⟨⟨_, main, _, _, once, current⟩, rfl⟩ := wait_cases stepped
  have nothing := (counts.handles [] main).1
  have onlyListening : ∀ event ∈ events, event.fd = listenSock := by
    intro event member
    obtain ⟨found, notOther⟩ := current event member
    have isListening : event.connection = listening := by
      by_contra accepted
      have isOpen := (counts.mem event.fd).mpr ⟨event.connection, found, accepted, notOther⟩
      rw [nothing] at isOpen
      contradiction
    rw [isListening] at found
    exact loop.table.injective found counts.listens
  refine { counts with handles := fun batch same => ⟨nothing, ?_⟩, drains := ?_ }
  · cases same
    match events, once, onlyListening with
    | [], _, _ => exact Or.inl rfl
    | [event], _, only => exact Or.inr ⟨event, rfl, only event List.mem_cons_self⟩
    | first :: second :: rest, once, only =>
        rw [List.map_cons, List.map_cons, only first (by simp), only second (by simp)] at once
        exact absurd List.mem_cons_self (List.nodup_cons.mp once).1
  · intro batch same
    contradiction

/-- The only event is that the listening socket has clients. -/
private theorem handled_listening (counts : Counted listenSock loop opened) {event : Event}
    {rest : List Event} (main : loop.main = .handling (event :: rest)) :
    opened = [] ∧ rest = [] ∧ event.fd = listenSock := by
  obtain ⟨nothing, none_ | ⟨only, same, isListening⟩⟩ := counts.handles _ main
  · contradiction
  · cases same
    exact ⟨nothing, rfl, isListening⟩

private theorem counted_handle (counts : Counted listenSock loop opened)
    (drainsOn : DrainsOn listenSock loop .handle)
    (stepped : loop.handle listenSock = some after) : Counted listenSock after opened := by
  obtain ⟨event, rest, _, main, handled⟩ := handle_cases stepped
  have ⟨_, noRest, isListening⟩ := handled_listening counts main
  rw [DrainsOn, main] at drainsOn
  have works := drainsOn isListening
  rcases handled with ⟨failed, _⟩ | ⟨_, _, rfl⟩ | ⟨_, other, _⟩
  · rw [works] at failed
    contradiction
  · refine { counts with handles := ?_, drains := ?_ }
    · intro batch same
      contradiction
    · intro batch same
      cases same
      exact noRest
  · contradiction

/-- The next connection is open, with those that were. -/
private theorem openAccepted_assign (counts : Counted listenSock loop opened) {fd : Nat}
    (isFree : loop.table.lookup fd = none) (assigned : after.table = loop.table.assign fd)
    (others : after.others = loop.others) (other : Nat) :
    after.OpenAccepted other ↔ other = fd ∨ loop.OpenAccepted other := by
  have begun : listening < loop.table.next := loop.table.below counts.listens
  rw [OpenAccepted, OpenAccepted, assigned, others]
  constructor
  · rintro ⟨connection, found, accepted⟩
    rcases DescriptorTable.lookup_of_assign found with ⟨here, _⟩ | before
    · exact Or.inl here
    · exact Or.inr ⟨connection, before, accepted⟩
  · rintro (rfl | ⟨connection, found, accepted⟩)
    · exact ⟨_, DescriptorTable.lookup_assign_self, Nat.ne_of_gt begun, counts.others.next_notMem⟩
    · exact ⟨connection, DescriptorTable.lookup_assign_of_free isFree found, accepted⟩

/-- The next connection is accepted. -/
private theorem counted_accept {infd : Option Nat} (counts : Counted listenSock loop opened)
    (drainsOn : DrainsOn listenSock loop (.accept infd))
    (stepped : loop.accept listenSock infd = some after) :
    ∃ more, Counted listenSock after more := by
  obtain ⟨rest, _, main, ⟨ended, _⟩ | ⟨fd, _, isFree, _, rfl⟩⟩ := accept_cases stepped
  · exact absurd ended drainsOn
  have isNew : fd ∉ opened := by
    intro member
    obtain ⟨connection, found, _⟩ := (counts.mem fd).mp member
    rw [isFree] at found
    contradiction
  refine ⟨fd :: opened, ?_⟩
  constructor
  case running => exact counts.running
  case suspended => exact counts.suspended
  case listens => exact DescriptorTable.lookup_assign_of_free isFree counts.listens
  case others => exact counts.others.assign isFree
  case handles =>
    intro events same
    rw [main] at same
    contradiction
  case drains => exact counts.drains
  case nodup => exact List.nodup_cons.mpr ⟨isNew, counts.nodup⟩
  case mem =>
    intro other
    rw [List.mem_cons, counts.mem]
    exact (openAccepted_assign counts isFree (by rfl) (by rfl) other).symm
  case counted => rw [List.length_cons, Nat.cast_succ, ← counts.counted]
  case tracked =>
    intro other
    show (if (other : Int) = fd then true else loop.trackFd other) = true ↔ _
    rw [List.mem_cons, ← counts.tracked]
    by_cases here : other = fd
    · simp [here]
    · rw [if_neg (mt Int.natCast_inj.mp here), or_iff_right here]

private theorem counted_openOther {fd : Nat} (counts : Counted listenSock loop opened)
    (stepped : loop.openOther fd = some after) : Counted listenSock after opened := by
  obtain ⟨isFree, rfl⟩ := openOther_cases stepped
  have begun : listening < loop.table.next := loop.table.below counts.listens
  refine { counts with
    listens := DescriptorTable.lookup_assign_of_free isFree counts.listens
    others := counts.others.openOther isFree begun
    mem := fun other => ?_ }
  rw [counts.mem, OpenAccepted, OpenAccepted]
  show (∃ _, _) ↔ ∃ connection, (loop.table.assign fd).lookup other = some connection ∧
    connection ≠ listening ∧ connection ∉ (loop.others ++ [(fd, loop.table.next)]).map Prod.snd
  simp only [List.map_append, List.map_cons, List.map_nil, List.mem_append, List.mem_singleton,
    not_or]
  constructor
  · rintro ⟨connection, found, accepted, notOther⟩
    exact ⟨connection, DescriptorTable.lookup_assign_of_free isFree found, accepted, notOther,
      Nat.ne_of_lt (loop.table.below found)⟩
  · rintro ⟨connection, found, accepted, notOther, notNew⟩
    rcases DescriptorTable.lookup_of_assign found with ⟨_, new⟩ | before
    · exact absurd new notNew
    · exact ⟨connection, before, accepted, notOther⟩

/-- The socket that a thread closes is no accepted connection, and it is the only one
that its descriptor leads to. -/
private theorem openAccepted_closeOther (counts : Counted listenSock loop opened) {index : Nat}
    {fd gone : Nat} (present : loop.others[index]? = some (fd, gone))
    (released : after.table = loop.table.release fd)
    (others : after.others = loop.others.eraseIdx index) (other : Nat) :
    after.OpenAccepted other ↔ loop.OpenAccepted other := by
  have held := counts.others.held _ (List.mem_of_getElem? present)
  rw [OpenAccepted, OpenAccepted, released, others]
  constructor
  · rintro ⟨connection, found, accepted, notOther⟩
    have before := DescriptorTable.lookup_of_release found
    refine ⟨connection, before, accepted, fun member => ?_⟩
    obtain ⟨user, inOthers, rfl⟩ := List.mem_map.mp member
    obtain ⟨position, here⟩ := List.mem_iff_getElem?.mp inOthers
    by_cases same : position = index
    · rw [same, present] at here
      cases here
      have isReleased : other = fd := loop.table.injective before held
      rw [isReleased, DescriptorTable.lookup_release_self] at found
      contradiction
    · have stays : user ∈ loop.others.eraseIdx index :=
        List.mem_eraseIdx_iff_getElem?.mpr ⟨position, same, here⟩
      exact notOther (List.mem_map_of_mem stays)
  · rintro ⟨connection, found, accepted, notOther⟩
    have elsewhere : other ≠ fd := by
      rintro rfl
      rw [held] at found
      cases found
      exact notOther (List.mem_map_of_mem (List.mem_of_getElem? present))
    refine ⟨connection, (DescriptorTable.lookup_release_of_ne elsewhere).trans found, accepted,
      fun member => notOther ?_⟩
    exact ((List.eraseIdx_sublist loop.others index).map Prod.snd).subset member

private theorem counted_closeOther {index : Nat} (counts : Counted listenSock loop opened)
    (stepped : loop.closeOther index = some after) : Counted listenSock after opened := by
  obtain ⟨fd, gone, present, rfl⟩ := closeOther_cases stepped
  have notListening : listenSock ≠ fd := by
    rintro rfl
    have held := counts.others.held _ (List.mem_of_getElem? present)
    rw [counts.listens] at held
    exact counts.others.later _ (List.mem_of_getElem? present) (Option.some.inj held).symm
  exact { counts with
    listens := (DescriptorTable.lookup_release_of_ne notListening).trans counts.listens
    others := counts.others.closeOther present
    mem := fun other =>
      (counts.mem other).trans (openAccepted_closeOther counts present rfl rfl other).symm }

/-- No routine runs and none waits, so only the loop and the threads take steps. -/
private theorem counted_step {action : Action} (counts : Counted listenSock loop opened)
    (drainsOn : DrainsOn listenSock loop action)
    (stepped : loop.step listenSock action = some after) :
    ∃ more, Counted listenSock after more := by
  cases action with
  | wait events => exact ⟨opened, counted_wait counts stepped⟩
  | handle => exact ⟨opened, counted_handle counts drainsOn stepped⟩
  | accept infd => exact counted_accept counts drainsOn stepped
  | resume index expired =>
      simp [step, resume, counts.suspended] at stepped
  | recv outcome now =>
      simp [step, recv, counts.running] at stepped
  | poll => simp [step, poll, counts.running] at stepped
  | send outcome => simp [step, send, counts.running] at stepped
  | refuse => simp [step, refuse, counts.running] at stepped
  | close => simp [step, close, counts.running] at stepped
  | interrupt =>
      cases stepped
      exact ⟨opened, { counts with mem := counts.mem }⟩
  | openOther fd => exact ⟨opened, counted_openOther counts stepped⟩
  | closeOther index => exact ⟨opened, counted_closeOther counts stepped⟩

/-- The failing `accept` brings the loop to its head with one connection too many. -/
private theorem not_accounted_drained (counts : Counted listenSock loop opened)
    (stepped : loop.accept listenSock none = some after) :
    ¬ (after.AtHead → after.Accounted) := by
  obtain ⟨rest, _, main, ⟨_, rfl⟩ | ⟨fd, some_, _⟩⟩ := accept_cases stepped
  · have nothing := counts.drains rest main
    subst nothing
    intro accounted
    obtain ⟨listed, nodup, mem, counted, _⟩ := accounted ⟨counts.running, rfl⟩
    have same : listed.Perm opened := by
      apply (List.perm_ext_iff_of_nodup nodup counts.nodup).mpr
      intro fd
      rw [mem, counts.mem]
      exact openAccepted_congr rfl rfl fd
    have before := counts.counted
    dsimp only at counted
    rw [same.length_eq] at counted
    omega
  · contradiction

/-- An error of the listening socket is counted as the end of a connection. -/
private theorem not_accounted_failed (counts : Counted listenSock loop opened)
    (failing : ¬ DrainsOn listenSock loop .handle)
    (stepped : loop.handle listenSock = some after) : ¬ (after.AtHead → after.Accounted) := by
  obtain ⟨event, rest, _, main, handled⟩ := handle_cases stepped
  have ⟨nothing, noRest, _⟩ := handled_listening counts main
  rw [DrainsOn, main, Classical.not_imp, Bool.not_eq_false] at failing
  rcases handled with ⟨_, rfl⟩ | ⟨works, _⟩ | ⟨works, _⟩
  · subst noRest
    intro accounted
    obtain ⟨listed, _, _, counted, _⟩ := accounted ⟨counts.running, rfl⟩
    have before := counts.counted
    rw [nothing, List.length_nil] at before
    dsimp only at counted
    omega
  · rw [failing.2] at works
    contradiction
  · rw [failing.2] at works
    contradiction

private theorem not_accounted_step {action : Action} (counts : Counted listenSock loop opened)
    (failing : ¬ DrainsOn listenSock loop action)
    (stepped : loop.step listenSock action = some after) :
    ¬ (after.AtHead → after.Accounted) := by
  cases action with
  | accept infd =>
      have ended : infd = none := not_not.mp failing
      subst ended
      exact not_accounted_drained counts stepped
  | handle => exact not_accounted_failed counts failing stepped
  | _ => exact absurd trivial failing

private theorem counted_initial (listenSock : Nat) : Counted listenSock (initial listenSock) [] where
  running := rfl
  suspended := rfl
  listens := DescriptorTable.lookup_assign_self
  others := ⟨by simp [initial], List.nodup_nil, by simp [initial]⟩
  handles := by
    intro events same
    cases same
    exact ⟨rfl, Or.inl rfl⟩
  drains := by
    intro events same
    contradiction
  nodup := List.nodup_nil
  mem := by
    intro fd
    apply iff_of_false List.not_mem_nil
    rintro ⟨connection, found, accepted, _⟩
    rcases DescriptorTable.lookup_of_assign found with ⟨_, first⟩ | before
    · exact accepted first
    · contradiction
  counted := rfl
  tracked := fun fd => iff_of_false Bool.false_ne_true List.not_mem_nil

end Steps

end EventLoop

/-- In every run, the connections are accounted for whenever the loop is at its head
exactly where no step ends a drain of the listening socket or handles an error of it. -/
theorem accounted_iff (listenSock : Nat) (actions : List Action) (loop : EventLoop)
    (ran : runActions (EventLoop.step listenSock) (EventLoop.initial listenSock) actions =
      some loop) :
    EachState (EventLoop.step listenSock) (fun state => state.AtHead → state.Accounted)
        (EventLoop.initial listenSock) actions ↔
      EachStep (EventLoop.step listenSock) (EventLoop.DrainsOn listenSock)
        (EventLoop.initial listenSock) actions := by
  let invariant := fun state : EventLoop => ∃ opened, EventLoop.Counted listenSock state opened
  have initially : invariant (EventLoop.initial listenSock) :=
    ⟨[], EventLoop.counted_initial listenSock⟩
  refine @eachState_iff_eachStep _ _ _ _ invariant _ ?_ ?_ ?_ _ _ _ initially ran
  · rintro state action after ⟨opened, counts⟩ drainsOn stepped
    exact EventLoop.counted_step counts drainsOn stepped
  · rintro state ⟨opened, counts⟩ head
    exact counts.accounted head
  · rintro state action after ⟨opened, counts⟩ failing stepped
    exact EventLoop.not_accounted_step counts failing stepped

theorem accounted_iff_connect :
    ∃ loop, runActions (EventLoop.step 3) (EventLoop.initial 3) sampleConnect = some loop ∧
      EachState (EventLoop.step 3) (fun state => state.AtHead → state.Accounted)
        (EventLoop.initial 3) sampleConnect := by
  refine ⟨_, rfl, (accounted_iff 3 sampleConnect _ rfl).mpr ⟨trivial, fun _ => rfl, ?_, trivial⟩⟩
  exact Option.some_ne_none 5

/-- A client connects, and the drain of the listening socket is over. -/
def sampleDrain : List Action := sampleConnect ++ [.accept none]

private theorem openAccepted_drain {loop : EventLoop}
    (ran : runActions (EventLoop.step 3) (EventLoop.initial 3) sampleDrain = some loop) (fd : Nat) :
    loop.OpenAccepted fd ↔ fd = 5 := by
  cases ran
  constructor
  · rintro ⟨connection, found, accepted, _⟩
    rcases DescriptorTable.lookup_of_assign found with ⟨here, _⟩ | before
    · exact here
    · rcases DescriptorTable.lookup_of_assign before with ⟨_, first⟩ | nothing
      · exact absurd first accepted
      · contradiction
  · rintro rfl
    exact ⟨1, rfl, by decide, List.not_mem_nil⟩

/-- Back at the head of the loop, two connections are counted where one is open. -/
theorem drain_miscounted :
    ∃ loop, runActions (EventLoop.step 3) (EventLoop.initial 3) sampleDrain = some loop ∧
      loop.AtHead ∧ loop.nConn = 2 ∧ (∀ fd, loop.OpenAccepted fd ↔ fd = 5) ∧
      ¬ EachState (EventLoop.step 3) (fun state => state.AtHead → state.Accounted)
        (EventLoop.initial 3) sampleDrain := by
  refine ⟨_, rfl, ⟨rfl, rfl⟩, rfl, openAccepted_drain rfl, fun each => ?_⟩
  obtain ⟨opened, nodup, mem, counted, _⟩ := each.2.2.2.2 ⟨rfl, rfl⟩
  have few : opened.length ≤ [5].length := by
    apply (nodup.subperm fun fd member => ?_).length_le
    exact List.mem_singleton.mpr ((openAccepted_drain rfl fd).mp ((mem fd).mp member))
  have two : (2 : Int) = opened.length := counted
  rw [List.length_singleton] at few
  omega

end Torchat.Daemon
