import Torchat.Foundation.DescriptorTable
import Torchat.Foundation.Transition
import Torchat.Daemon.Actions
import Torchat.Daemon.Reception

/-!
Contract: the event loop of `main.c` with the coroutines that it starts, as one
transition system.

One of them runs at a time, from where it went on to where it yields. Owns the
descriptors, the batch of events, the accept loop and the calls that every
`event_routine` makes on its socket.

Does not own the store and the replies: a handler counts here for the calls on
the socket of its client only. Does not own what follows the loop.
-/

set_option autoImplicit false

namespace Torchat.Daemon

open Torchat.Foundation

/-! ## Events and routines -/

/-- `MAXEVENTS`. -/
def maxEvents : Nat := 64

/-- The listening socket is the first connection behind a descriptor. -/
def listening : Nat := 0

/-- An event of a batch. `failed` stands for an error, a hang-up or the absence
of input; `connection` is what the event is about, which only the kernel knows. -/
structure Event where
  fd : Nat
  failed : Bool
  connection : Nat
deriving DecidableEq

/-- What an `event_routine` does next: receive the header, receive the body,
wait for the connecting thread, send its reply, close its socket. -/
inductive Point where
  | header
  | body (len : Nat) (buf : Bytes)
  | relay
  | reply
  | close
deriving DecidableEq

/-- An `event_routine`, started for a connection of which it knows the descriptor. -/
structure Routine where
  rawsock : Nat
  connection : Nat
  point : Point
deriving DecidableEq

/-- Where `event_loop` is: in front of the rest of a batch, which may be empty,
or accepting connections. -/
inductive Main where
  | handling (events : List Event)
  | accepting (events : List Event)
deriving DecidableEq

def Main.events : Main → List Event
  | .handling events | .accepting events => events

/-! ## Calls on sockets -/

inductive Call where
  | recv
  | send
  | close
deriving DecidableEq

inductive Caller where
  | eventRoutine
  | eventLoop
  | connectingThread
deriving DecidableEq

/-- A call: the connection that it is meant for, and the one that was behind the
descriptor. -/
structure Access where
  call : Call
  caller : Caller
  connection : Nat
  target : Option Nat
deriving DecidableEq

/-- The process. A parked loop has yielded, in `yield` or in `go`. `others` are
the sockets of the connecting threads. -/
structure EventLoop where
  table : DescriptorTable Nat
  main : Main
  parked : Bool
  running : Option Routine
  suspended : List Routine
  others : List (Nat × Nat)
  trackFd : Int → Bool
  nConn : Int
  exitFlag : Bool
  log : List Access

namespace EventLoop

def initial (listenSock : Nat) : EventLoop where
  table := DescriptorTable.empty.assign listenSock
  main := .handling []
  parked := false
  running := none
  suspended := []
  others := []
  trackFd _ := false
  nConn := 0
  exitFlag := false
  log := []

def track (loop : EventLoop) (fd : Int) (value : Bool) : Int → Bool := fun other =>
  if other = fd then value else loop.trackFd other

def access (loop : EventLoop) (call : Call) (caller : Caller) (fd connection : Nat) : EventLoop :=
  { loop with
    log := loop.log ++
      [{ call := call, caller := caller, connection := connection,
         target := loop.table.lookup fd }] }

def closeFd (loop : EventLoop) (caller : Caller) (fd connection : Nat) : EventLoop :=
  { loop.access .close caller fd connection with table := loop.table.release fd }

def goOn (loop : EventLoop) (routine : Routine) (point : Point) : EventLoop :=
  { loop with running := some { routine with point := point } }

def yieldAt (loop : EventLoop) (routine : Routine) (point : Point) : EventLoop :=
  { loop with
    running := none
    suspended := loop.suspended ++ [{ routine with point := point }] }

def finish (loop : EventLoop) : EventLoop := { loop with running := none }

/-! ## The loop -/

/-- `epoll_wait` and the `yield` behind it. A descriptor is reported at most once,
for the connection behind it. -/
def wait (loop : EventLoop) (events : List Event) : Option EventLoop :=
  if loop.running = none ∧ loop.main = .handling [] ∧ loop.exitFlag = false ∧
      events.length ≤ maxEvents ∧ (events.map Event.fd).Nodup ∧
      ∀ event ∈ events, loop.table.lookup event.fd = some event.connection ∧
        event.connection ∉ loop.others.map Prod.snd then
    some { loop with main := .handling events, parked := true }
  else none

/-- One iteration over the batch: a failed descriptor is closed, the listening
one starts the accept loop, and any other gets an `event_routine`, which runs at
once. -/
def handle (listenSock : Nat) (loop : EventLoop) : Option EventLoop :=
  match loop.running, loop.main with
  | none, .handling (event :: rest) =>
      if event.failed then
        some
          { loop.closeFd .eventLoop event.fd event.connection with
            main := .handling rest
            parked := false
            trackFd := loop.track event.fd false
            nConn := loop.nConn - 1 }
      else if event.fd = listenSock then
        some { loop with main := .accepting rest, parked := false }
      else
        some
          { loop with
            main := .handling rest
            parked := true
            running :=
              some { rawsock := event.fd, connection := event.connection, point := .header } }
  | _, _ => none

/-- One call of `accept`; the failing one is counted and tracked as well. -/
def accept (listenSock : Nat) (loop : EventLoop) (infd : Option Nat) : Option EventLoop :=
  match loop.running, loop.main with
  | none, .accepting rest =>
      match infd with
      | none =>
          some
            { loop with
              main := .handling rest
              trackFd := loop.track (-1) true
              nConn := loop.nConn + 1 }
      | some fd =>
          if loop.table.lookup fd = none ∧ loop.table.lookup listenSock = some listening then
            some
              { loop with
                table := loop.table.assign fd
                trackFd := loop.track fd true
                nConn := loop.nConn + 1 }
          else none
  | _, _ => none

/-! ## The routines -/

/-- What the outcome of the first `recv` leads to. -/
def headerPoint (outcome : RecvOutcome) : Point :=
  let len :=
    if outcome = .eof ∨ outcome = .error then -1
    else parseDimension (outcome.fill (List.replicate 4 0))
  if len ≤ 0 then .close
  else if inbufSize < len.toNat then .close
  else .body len.toNat (List.replicate inbufSize 0)

/-- What the outcome of a later one leads to. -/
inductive BodyResult where
  | refused
  | whole (rc : Int) (buf : Bytes)
  | waits (buf : Bytes)

def bodyResult (len : Nat) (buf : Bytes) (outcome : RecvOutcome) : BodyResult :=
  if outcome = .error then .refused
  else if (len : Int) ≤ outcome.rc then .whole outcome.rc (outcome.fill buf)
  else .waits (outcome.fill buf)

/-- Behind `parse_connection`. A fault ends the process. The wait for the
connecting thread begins with a `yield`. -/
def dispatchPoint (loop : EventLoop) (routine : Routine) :
    Except Fault Connection → Option EventLoop
  | .error _ => none
  | .ok (.message rc _ data) =>
      if 0 < rc then
        match data.cmd with
        | .exit => some { loop.finish with exitFlag := true }
        | .send => some (loop.yieldAt routine .relay)
        | .update | .getPeers | .host => some (loop.goOn routine .reply)
        | .recv | .end_ | .err => some loop.finish
      else some (loop.goOn routine .close)
  | .ok _ => some (loop.goOn routine .close)

/-- A call of `recv` on the socket of the routine; a descriptor with nothing
behind it gives an error. -/
def recv (loop : EventLoop) (outcome : RecvOutcome) (now : Tm) : Option EventLoop :=
  match loop.running with
  | none => none
  | some routine =>
      if loop.table.lookup routine.rawsock = none ∧ outcome ≠ .error then none
      else
        let after := loop.access .recv .eventRoutine routine.rawsock routine.connection
        match routine.point with
        | .header =>
            if outcome.clip 4 = outcome then some (after.goOn routine (headerPoint outcome))
            else none
        | .body len buf =>
            if outcome.clip len = outcome then
              match bodyResult len buf outcome with
              | .refused => some (after.goOn routine .close)
              | .whole rc buf => after.dispatchPoint routine (parseInbuf rc buf now)
              | .waits buf => some (after.yieldAt routine (.body len buf))
            else none
        | _ => none

/-- The loop that waits for the connecting thread. It looks at its own variable,
to which nothing assigns, and yields again. -/
def poll (loop : EventLoop) : Option EventLoop :=
  match loop.running with
  | some routine => if routine.point = .relay then some (loop.yieldAt routine .relay) else none
  | none => none

/-- What a call of `sendmsg` comes to: the rest of the frame is written, or some
of it and `fdout` waits, or it fails. -/
inductive SendOutcome where
  | done
  | again
  | error
deriving DecidableEq

/-- A call of `sendmsg` on the socket of the routine. Its failure is not looked
at, and the socket stays open. -/
def send (loop : EventLoop) (outcome : SendOutcome) : Option EventLoop :=
  match loop.running with
  | none => none
  | some routine =>
      if loop.table.lookup routine.rawsock = none ∧ outcome ≠ .error then none
      else if routine.point = .reply then
        let after := loop.access .send .eventRoutine routine.rawsock routine.connection
        match outcome with
        | .again => some (after.yieldAt routine .reply)
        | .done | .error => some after.finish
      else none

/-- A reply larger than a frame is not sent. -/
def refuse (loop : EventLoop) : Option EventLoop :=
  match loop.running with
  | some routine => if routine.point = .reply then some loop.finish else none
  | none => none

/-- `close (rawsock)`. -/
def close (loop : EventLoop) : Option EventLoop :=
  match loop.running with
  | some routine =>
      if routine.point = .close then
        some (loop.closeFd .eventRoutine routine.rawsock routine.connection).finish
      else none
  | none => none

/-- The scheduler goes on with a routine. Behind the deadline the assertion of
the receiving loop fails, which ends the process, and `fdout` gives up. -/
def resume (loop : EventLoop) (index : Nat) (expired : Bool) : Option EventLoop :=
  match loop.running, loop.suspended[index]? with
  | none, some routine =>
      if loop.parked then
        let after := { loop with suspended := loop.suspended.eraseIdx index }
        match routine.point, expired with
        | .body _ _, true => none
        | .reply, true => some after
        | point, _ => some (after.goOn routine point)
      else none
  | _, _ => none

/-! ## The connecting threads -/

/-- A thread of its own opens a socket on any free descriptor. -/
def openOther (loop : EventLoop) (fd : Nat) : Option EventLoop :=
  if loop.table.lookup fd = none then
    some
      { loop with
        table := loop.table.assign fd
        others := loop.others ++ [(fd, loop.table.next)] }
  else none

/-- An attempt to connect fails, and its thread closes the socket. -/
def closeOther (loop : EventLoop) (index : Nat) : Option EventLoop :=
  match loop.others[index]? with
  | some (fd, connection) =>
      some
        { loop.closeFd .connectingThread fd connection with
          others := loop.others.eraseIdx index }
  | none => none

end EventLoop

/-! ## The system -/

inductive Action where
  | wait (events : List Event)
  | handle
  | accept (infd : Option Nat)
  | resume (index : Nat) (expired : Bool)
  | recv (outcome : RecvOutcome) (now : Tm)
  | poll
  | send (outcome : EventLoop.SendOutcome)
  | refuse
  | close
  | interrupt
  | openOther (fd : Nat)
  | closeOther (index : Nat)

/-- One step of the process. -/
def EventLoop.step (listenSock : Nat) (loop : EventLoop) : Action → Option EventLoop
  | .wait events => loop.wait events
  | .handle => loop.handle listenSock
  | .accept infd => loop.accept listenSock infd
  | .resume index expired => loop.resume index expired
  | .recv outcome now => loop.recv outcome now
  | .poll => loop.poll
  | .send outcome => loop.send outcome
  | .refuse => loop.refuse
  | .close => loop.close
  | .interrupt => some { loop with exitFlag := true }
  | .openOther fd => loop.openOther fd
  | .closeOther index => loop.closeOther index

/-! ## What a step can do -/

namespace EventLoop

variable {loop after : EventLoop} {listenSock : Nat}

theorem wait_cases {events : List Event} (stepped : loop.wait events = some after) :
    (loop.running = none ∧ loop.main = .handling [] ∧ loop.exitFlag = false ∧
      events.length ≤ maxEvents ∧ (events.map Event.fd).Nodup ∧
      ∀ event ∈ events, loop.table.lookup event.fd = some event.connection ∧
        event.connection ∉ loop.others.map Prod.snd) ∧
      after = { loop with main := .handling events, parked := true } := by
  unfold wait at stepped
  split at stepped
  next guard => exact ⟨guard, (Option.some.inj stepped).symm⟩
  next => contradiction

/-- The first event of a batch has failed, is about the listening socket, or starts a
routine. -/
theorem handle_cases (stepped : loop.handle listenSock = some after) :
    ∃ event rest, loop.running = none ∧ loop.main = .handling (event :: rest) ∧
      ((event.failed = true ∧
          after = { loop.closeFd .eventLoop event.fd event.connection with
            main := .handling rest
            parked := false
            trackFd := loop.track event.fd false
            nConn := loop.nConn - 1 }) ∨
        (event.failed = false ∧ event.fd = listenSock ∧
          after = { loop with main := .accepting rest, parked := false }) ∨
        (event.failed = false ∧ event.fd ≠ listenSock ∧
          after = { loop with
            main := .handling rest
            parked := true
            running := some
              { rawsock := event.fd, connection := event.connection, point := .header } })) := by
  unfold handle at stepped
  split at stepped
  next event rest running main =>
    refine ⟨event, rest, running, main, ?_⟩
    split at stepped
    next failed => exact Or.inl ⟨failed, (Option.some.inj stepped).symm⟩
    next works =>
      rw [Bool.not_eq_true] at works
      split at stepped
      next here => exact Or.inr (Or.inl ⟨works, here, (Option.some.inj stepped).symm⟩)
      next other => exact Or.inr (Or.inr ⟨works, other, (Option.some.inj stepped).symm⟩)
  next => contradiction

theorem accept_cases {infd : Option Nat} (stepped : loop.accept listenSock infd = some after) :
    ∃ rest, loop.running = none ∧ loop.main = .accepting rest ∧
      ((infd = none ∧
          after = { loop with
            main := .handling rest
            trackFd := loop.track (-1) true
            nConn := loop.nConn + 1 }) ∨
        ∃ fd, infd = some fd ∧ loop.table.lookup fd = none ∧
          loop.table.lookup listenSock = some listening ∧
          after = { loop with
            table := loop.table.assign fd
            trackFd := loop.track fd true
            nConn := loop.nConn + 1 }) := by
  unfold accept at stepped
  split at stepped
  next rest running main =>
    refine ⟨rest, running, main, ?_⟩
    split at stepped
    next => exact Or.inl ⟨rfl, (Option.some.inj stepped).symm⟩
    next fd =>
      split at stepped
      next guard => exact Or.inr ⟨fd, rfl, guard.1, guard.2, (Option.some.inj stepped).symm⟩
      next => contradiction
  next => contradiction

/-- Behind `parse_connection` the routine ends, waits for the connecting thread, or goes
on. -/
theorem dispatchPoint_cases {routine : Routine} {parsed : Except Fault Connection}
    (stepped : loop.dispatchPoint routine parsed = some after) :
    (after = { loop.finish with exitFlag := true } ∨ after = loop.finish) ∨
      after = loop.yieldAt routine .relay ∨ ∃ point, after = loop.goOn routine point := by
  unfold dispatchPoint at stepped
  split at stepped
  next => contradiction
  next =>
    split at stepped
    next =>
      split at stepped <;> have same := (Option.some.inj stepped).symm
      next => exact Or.inl (Or.inl same)
      next => exact Or.inr (Or.inl same)
      next => exact Or.inr (Or.inr ⟨_, same⟩)
      next => exact Or.inr (Or.inr ⟨_, same⟩)
      next => exact Or.inr (Or.inr ⟨_, same⟩)
      next => exact Or.inl (Or.inr same)
      next => exact Or.inl (Or.inr same)
      next => exact Or.inl (Or.inr same)
    next => exact Or.inr (Or.inr ⟨_, (Option.some.inj stepped).symm⟩)
  next => exact Or.inr (Or.inr ⟨_, (Option.some.inj stepped).symm⟩)

/-- A routine that receives goes on, yields, or dispatches what it has received. -/
theorem recv_cases {outcome : RecvOutcome} {now : Tm}
    (stepped : loop.recv outcome now = some after) :
    ∃ routine, loop.running = some routine ∧
      (routine.point = .header ∨ ∃ len buf, routine.point = .body len buf) ∧
      let received := loop.access .recv .eventRoutine routine.rawsock routine.connection
      (∃ point, after = received.goOn routine point) ∨
        (∃ point, after = received.yieldAt routine point) ∨
        ∃ parsed, received.dispatchPoint routine parsed = some after := by
  unfold recv at stepped
  split at stepped
  next => contradiction
  next routine running =>
    split at stepped
    next => contradiction
    dsimp only at stepped
    refine ⟨routine, running, ?_⟩
    split at stepped
    next header =>
      split at stepped
      next => exact ⟨Or.inl header, Or.inl ⟨_, (Option.some.inj stepped).symm⟩⟩
      next => contradiction
    next len buf body =>
      split at stepped
      next =>
        refine ⟨Or.inr ⟨len, buf, body⟩, ?_⟩
        split at stepped
        next => exact Or.inl ⟨_, (Option.some.inj stepped).symm⟩
        next => exact Or.inr (Or.inr ⟨_, stepped⟩)
        next => exact Or.inr (Or.inl ⟨_, (Option.some.inj stepped).symm⟩)
      next => contradiction
    next => contradiction

theorem poll_cases (stepped : loop.poll = some after) :
    ∃ routine, loop.running = some routine ∧ after = loop.yieldAt routine .relay := by
  unfold poll at stepped
  split at stepped
  next routine running =>
    split at stepped
    next => exact ⟨routine, running, (Option.some.inj stepped).symm⟩
    next => contradiction
  next => contradiction

theorem send_cases {outcome : SendOutcome} (stepped : loop.send outcome = some after) :
    ∃ routine, loop.running = some routine ∧ routine.point = .reply ∧
      let sent := loop.access .send .eventRoutine routine.rawsock routine.connection
      after = sent.yieldAt routine .reply ∨ after = sent.finish := by
  unfold send at stepped
  split at stepped
  next => contradiction
  next routine running =>
    split at stepped
    next => contradiction
    split at stepped
    next reply =>
      refine ⟨routine, running, reply, ?_⟩
      dsimp only at stepped
      split at stepped <;> have same := (Option.some.inj stepped).symm
      next => exact Or.inl same
      next => exact Or.inr same
      next => exact Or.inr same
    next => contradiction

theorem refuse_cases (stepped : loop.refuse = some after) :
    ∃ routine, loop.running = some routine ∧ after = loop.finish := by
  unfold refuse at stepped
  split at stepped
  next routine running =>
    split at stepped
    next => exact ⟨routine, running, (Option.some.inj stepped).symm⟩
    next => contradiction
  next => contradiction

theorem close_cases (stepped : loop.close = some after) :
    ∃ routine, loop.running = some routine ∧ routine.point = .close ∧
      after = (loop.closeFd .eventRoutine routine.rawsock routine.connection).finish := by
  unfold close at stepped
  split at stepped
  next routine running =>
    split at stepped
    next closes => exact ⟨routine, running, closes, (Option.some.inj stepped).symm⟩
    next => contradiction
  next => contradiction

/-- A routine that goes on is at the point where it yielded, or it has given up. -/
theorem resume_cases {index : Nat} {expired : Bool}
    (stepped : loop.resume index expired = some after) :
    ∃ routine, loop.running = none ∧ loop.suspended[index]? = some routine ∧
      let others := { loop with suspended := loop.suspended.eraseIdx index }
      after = others ∨ after = others.goOn routine routine.point := by
  unfold resume at stepped
  split at stepped
  next routine running present =>
    split at stepped
    next =>
      refine ⟨routine, running, present, ?_⟩
      dsimp only at stepped
      split at stepped
      next => contradiction
      next => exact Or.inl (Option.some.inj stepped).symm
      next => exact Or.inr (Option.some.inj stepped).symm
    next => contradiction
  next => contradiction

theorem openOther_cases {fd : Nat} (stepped : loop.openOther fd = some after) :
    loop.table.lookup fd = none ∧
      after = { loop with
        table := loop.table.assign fd
        others := loop.others ++ [(fd, loop.table.next)] } := by
  unfold openOther at stepped
  split at stepped
  next free => exact ⟨free, (Option.some.inj stepped).symm⟩
  next => contradiction

theorem closeOther_cases {index : Nat} (stepped : loop.closeOther index = some after) :
    ∃ fd connection, loop.others[index]? = some (fd, connection) ∧
      after = { loop.closeFd .connectingThread fd connection with
        others := loop.others.eraseIdx index } := by
  unfold closeOther at stepped
  split at stepped
  next fd connection present =>
    exact ⟨fd, connection, present, (Option.some.inj stepped).symm⟩
  next => contradiction

end EventLoop

/-! ## The routines receive as `torchatproto_mrecv` does -/

section Receiving

variable {σ : Type} (kernel : Kernel σ) (deadline : Int)

/-- The first call of `recv` decides over the body. -/
theorem torchatprotoMrecv_headerPoint (fuel : Nat) (buf : Bytes) (state : σ) :
    torchatprotoMrecv kernel inbufSize deadline fuel buf state =
      match EventLoop.headerPoint (kernel.recv state 4).1 with
      | .body len _ => receiveBody kernel len deadline fuel buf (kernel.recv state 4).2
      | _ => .returned (-1) buf (kernel.recv state 4).2 := by
  unfold torchatprotoMrecv fdRecvDimensionhead EventLoop.headerPoint
  obtain ⟨outcome, after⟩ := kernel.recv state 4
  by_cases failed : outcome = .eof ∨ outcome = .error
  · simp [failed]
  · simp only [if_neg failed]
    by_cases noLength : parseDimension (outcome.fill (List.replicate 4 0)) ≤ 0
    · simp only [if_pos noLength]
    · simp only [if_neg noLength]
      split <;> rfl

/-- Each further call ends the loop or leads to a `yield`. -/
theorem receiveBody_bodyResult (len fuel : Nat) (buf : Bytes) (state : σ) :
    receiveBody kernel len deadline (fuel + 1) buf state =
      match EventLoop.bodyResult len buf (kernel.recv state len).1 with
      | .refused =>
          .returned (-1) ((kernel.recv state len).1.fill buf) (kernel.recv state len).2
      | .whole rc buf => .returned rc buf (kernel.recv state len).2
      | .waits buf =>
          if deadline < kernel.now (kernel.yield (kernel.recv state len).2) then
            .assertFailed (kernel.yield (kernel.recv state len).2)
          else receiveBody kernel len deadline fuel buf (kernel.yield (kernel.recv state len).2) := by
  unfold EventLoop.bodyResult
  rw [receiveBody]
  obtain ⟨outcome, after⟩ := kernel.recv state len
  by_cases failed : outcome = .error
  · simp only [if_pos failed]
  · simp only [if_neg failed]
    by_cases whole : (len : Int) ≤ outcome.rc
    · simp only [if_pos whole]
    · simp only [if_neg whole]

end Receiving

end Torchat.Daemon
