import Torchat.Foundation.Heap
import Torchat.Foundation.Transition
import Torchat.Daemon.Relay

/-!
Contract: `send_over_tor` and the thread that connects for it.

The coroutine and the thread have a variable `domainData` each, with a pointer to
one block. Owns the steps of both in any order, the wait for the end of the
thread, and the reply that a client of `send_routine` gets.

Does not own the proxy: what `proxysocket_connect` returns is part of a step.
-/

set_option autoImplicit false

namespace Torchat.Daemon

open Torchat.Foundation

/-- `struct domainData`. -/
structure DomainData where
  domain : CString
  portno : Int32
deriving DecidableEq

/-- What `open_socket_to_domain_thread` does next: read its argument, connect,
release its argument, exit; or it has finished. -/
inductive ThreadPoint where
  | start
  | connect (domain : CString) (portno : Int32)
  | release (sock : Int)
  | exit (sock : Int)
  | finished (sock : Int)
deriving DecidableEq

/-- What `send_over_tor` does next: test its variable, go on behind `yield`,
join, send; or it has returned. -/
inductive SendPoint where
  | test
  | yielded
  | join
  | send (rawsock : Int)
  | returned (rc : Int)
deriving DecidableEq

/-- A call of `send_over_tor`. `domainData` and `threadData` are the variables
`domainData` of the two functions. -/
structure SendOverTor where
  heap : Heap DomainData
  domainData : Option Address
  point : SendPoint
  threadData : Option Address
  thread : ThreadPoint

namespace SendOverTor

/-- One of the two goes on. A step of the thread carries what
`proxysocket_connect` returns, a step of the coroutine what `torchatproto_attach`
and `fd_send` return. -/
inductive Action where
  | thread (connected : Int)
  | coroutine (attached : Int) (fdSend : Bytes → Int)

/-- `send_over_tor` behind `pthread_create`. -/
def start (domain : CString) (portno : Int32) : SendOverTor :=
  let (block, heap) := Heap.empty.alloc { domain := domain, portno := portno }
  { heap := heap
    domainData := some block
    point := .test
    threadData := some block
    thread := .start }

/-- `FREE (domainData)` in the thread: the block is released, and the thread's
variable is NULL. -/
def freeThreadData (state : SendOverTor) : Option SendOverTor :=
  state.threadData.bind fun block =>
    (state.heap.free block).map fun heap => { state with heap := heap, threadData := none }

/-- A step of `open_socket_to_domain_thread`. -/
def stepThread (state : SendOverTor) (connected : Int) : Option SendOverTor :=
  match state.thread with
  | .start =>
      (state.threadData.bind state.heap.load).map fun domainData =>
        { state with thread := .connect domainData.domain domainData.portno }
  | .connect _ _ => some { state with thread := .release connected }
  | .release sock => state.freeThreadData.map fun freed => { freed with thread := .exit sock }
  | .exit sock => some { state with threadData := none, thread := .finished sock }
  | .finished _ => none

/-- What `send_over_tor` returns behind `pthread_join`. -/
def sendResult (buf : CString) (rawsock attached : Int) (fdSend : Bytes → Int) : Int :=
  if rawsock < 0 then -1
  else if attached = -1 then -1
  else (torchatprotoMsend (fun _ message => (fdSend message, ())) () buf.bytes).1

/-- A step of `send_over_tor`; `pthread_join` blocks until the thread has
finished. -/
def stepCoroutine (buf : CString) (state : SendOverTor) (attached : Int)
    (fdSend : Bytes → Int) : Option SendOverTor :=
  match state.point with
  | .test =>
      if state.domainData = none then some { state with point := .join }
      else some { state with point := .yielded }
  | .yielded => some { state with point := .test }
  | .join =>
      match state.thread with
      | .finished sock => some { state with point := .send sock }
      | _ => none
  | .send rawsock =>
      some { state with point := .returned (sendResult buf rawsock attached fdSend) }
  | .returned _ => none

def step (buf : CString) (state : SendOverTor) : Action → Option SendOverTor
  | .thread connected => state.stepThread connected
  | .coroutine attached fdSend => state.stepCoroutine buf attached fdSend

/-- What `send_routine` has of `send_over_tor`. -/
def result (state : SendOverTor) : Option Int :=
  match state.point with
  | .returned rc => some rc
  | _ => none

/-! ## The wait -/

/-- How far the thread has come with the block. -/
def ThreadHolds (block : Address) (state : SendOverTor) : Prop :=
  match state.thread with
  | .start | .connect _ _ | .release _ =>
      state.threadData = some block ∧ ∃ domainData, state.heap.load block = some domainData
  | .exit _ | .finished _ => state.heap.load block = none

/-- The coroutine's variable has the pointer from `MALLOC`, and the coroutine is
in its loop. -/
structure Waits (block : Address) (state : SendOverTor) : Prop where
  domainData : state.domainData = some block
  inLoop : state.point = .test ∨ state.point = .yielded
  threadHolds : ThreadHolds block state

theorem waits_start (domain : CString) (portno : Int32) :
    Waits 0 (start domain portno) where
  domainData := rfl
  inLoop := Or.inl rfl
  threadHolds := ⟨rfl, { domain := domain, portno := portno }, rfl⟩

variable {block : Address} {buf : CString} {state after : SendOverTor}

/-- The release in the thread leaves the coroutine's variable as it is. -/
private theorem freeThreadData_of_load {domainData : DomainData}
    (pointer : state.threadData = some block)
    (loaded : state.heap.load block = some domainData) :
    ∃ heap, state.freeThreadData = some { state with heap := heap, threadData := none } ∧
      heap.load block = none := by
  obtain ⟨heap, freed, _, gone, _⟩ := Heap.free_of_load loaded
  refine ⟨heap, ?_, gone⟩
  rw [freeThreadData, pointer, Option.bind_some, freed, Option.map_some]

private theorem waits_of_stepThread {connected : Int} (waits : Waits block state)
    (stepped : state.stepThread connected = some after) : Waits block after := by
  obtain ⟨domainData, inLoop, threadHolds⟩ := waits
  unfold ThreadHolds at threadHolds
  unfold stepThread at stepped
  cases point : state.thread with
  | start =>
      rw [point] at threadHolds
      simp only [point] at stepped
      obtain ⟨loaded, _, rfl⟩ := Option.map_eq_some_iff.mp stepped
      exact ⟨domainData, inLoop, threadHolds⟩
  | connect domain portno =>
      rw [point] at threadHolds
      simp only [point] at stepped
      cases stepped
      exact ⟨domainData, inLoop, threadHolds⟩
  | release sock =>
      rw [point] at threadHolds
      obtain ⟨pointer, _, loaded⟩ := threadHolds
      obtain ⟨heap, freed, gone⟩ := freeThreadData_of_load pointer loaded
      simp only [point, freed, Option.map_some] at stepped
      cases stepped
      exact ⟨domainData, inLoop, gone⟩
  | exit sock =>
      rw [point] at threadHolds
      simp only [point] at stepped
      cases stepped
      exact ⟨domainData, inLoop, threadHolds⟩
  | finished sock =>
      simp only [point] at stepped
      contradiction

private theorem waits_of_stepCoroutine {attached : Int} {fdSend : Bytes → Int}
    (waits : Waits block state)
    (stepped : state.stepCoroutine buf attached fdSend = some after) : Waits block after := by
  obtain ⟨domainData, inLoop, threadHolds⟩ := waits
  have pointer : state.domainData ≠ none := by
    rw [domainData]
    exact Option.some_ne_none block
  rcases inLoop with test | yielded
  · simp only [stepCoroutine, test, if_neg pointer] at stepped
    cases stepped
    exact ⟨domainData, Or.inr rfl, threadHolds⟩
  · simp only [stepCoroutine, yielded] at stepped
    cases stepped
    exact ⟨domainData, Or.inl rfl, threadHolds⟩

/-- No step of either ends the wait. -/
theorem waits_of_step (state : SendOverTor) (action : Action) (after : SendOverTor)
    (waits : Waits block state) (stepped : step buf state action = some after) :
    Waits block after := by
  cases action with
  | thread connected => exact waits_of_stepThread waits stepped
  | coroutine attached fdSend => exact waits_of_stepCoroutine waits stepped

theorem waits_of_run {actions : List Action} (waits : Waits block state)
    (ran : runActions (step buf) state actions = some after) : Waits block after :=
  invariant_of_steps (fun state action after => waits_of_step state action after) waits ran

theorem result_of_waits (waits : Waits block state) : state.result = none := by
  unfold result
  rcases waits.inLoop with test | yielded
  · rw [test]
  · rw [yielded]

/-! ## The thread -/

/-- Some run from here on ends the thread. -/
def ThreadEnds (buf : CString) (state : SendOverTor) : Prop :=
  ∃ later after sock, runActions (step buf) state later = some after ∧
    after.thread = .finished sock

private theorem threadEnds_of_step {action : Action} (stepped : step buf state action = some after)
    (ends : ThreadEnds buf after) : ThreadEnds buf state := by
  obtain ⟨later, last, sock, ran, finished⟩ := ends
  refine ⟨action :: later, last, sock, ?_, finished⟩
  rw [runActions, stepped]
  exact ran

private theorem threadEnds_of_exit {sock : Int} (exit : state.thread = .exit sock) :
    ThreadEnds buf state := by
  have stepped : step buf state (.thread 0) =
      some { state with threadData := none, thread := .finished sock } := by
    simp only [step, stepThread, exit]
  exact threadEnds_of_step stepped ⟨[], _, sock, rfl, rfl⟩

private theorem threadEnds_of_release {sock : Int} {domainData : DomainData}
    (release : state.thread = .release sock) (pointer : state.threadData = some block)
    (loaded : state.heap.load block = some domainData) : ThreadEnds buf state := by
  obtain ⟨heap, freed, _⟩ := freeThreadData_of_load pointer loaded
  have stepped : step buf state (.thread 0) =
      some { state with heap := heap, threadData := none, thread := .exit sock } := by
    simp only [step, stepThread, release, freed, Option.map_some]
  exact threadEnds_of_step stepped (threadEnds_of_exit rfl)

private theorem threadEnds_of_connect {domain : CString} {portno : Int32}
    {domainData : DomainData} (connect : state.thread = .connect domain portno)
    (pointer : state.threadData = some block)
    (loaded : state.heap.load block = some domainData) : ThreadEnds buf state := by
  have stepped : step buf state (.thread 0) = some { state with thread := .release 0 } := by
    simp only [step, stepThread, connect]
  exact threadEnds_of_step stepped (threadEnds_of_release rfl pointer loaded)

private theorem threadEnds_of_start {domainData : DomainData} (start : state.thread = .start)
    (pointer : state.threadData = some block)
    (loaded : state.heap.load block = some domainData) : ThreadEnds buf state := by
  have stepped : step buf state (.thread 0) =
      some { state with thread := .connect domainData.domain domainData.portno } := by
    simp only [step, stepThread, start, pointer, Option.bind_some, loaded, Option.map_some]
  exact threadEnds_of_step stepped (threadEnds_of_connect rfl pointer loaded)

/-- Nothing holds the thread up. -/
theorem threadEnds_of_waits (waits : Waits block state) : ThreadEnds buf state := by
  have threadHolds := waits.threadHolds
  unfold ThreadHolds at threadHolds
  cases point : state.thread with
  | start =>
      rw [point] at threadHolds
      obtain ⟨pointer, _, loaded⟩ := threadHolds
      exact threadEnds_of_start point pointer loaded
  | connect domain portno =>
      rw [point] at threadHolds
      obtain ⟨pointer, _, loaded⟩ := threadHolds
      exact threadEnds_of_connect point pointer loaded
  | release sock =>
      rw [point] at threadHolds
      obtain ⟨pointer, _, loaded⟩ := threadHolds
      exact threadEnds_of_release point pointer loaded
  | exit sock => exact threadEnds_of_exit point
  | finished sock => exact ⟨[], state, sock, rfl, point⟩

end SendOverTor

/-! ## The reply -/

def Effect.reply : Effect → Option DataWrapper
  | .msend reply _ => some reply
  | _ => none

/-- The replies of `send_routine` to its client, with what `send_over_tor` has
come to. -/
def repliesOf (environment : Environment) (data : DataWrapper) (state : SendOverTor) :
    List DataWrapper :=
  (sendRoutine { environment with sendOverTor := state.result } data).filterMap Effect.reply

/-- The wait is left, and what comes of it is one reply to the client: END where
the frame was sent, ERR otherwise. -/
structure Answered (environment : Environment) (data : DataWrapper) (state : SendOverTor) :
    Prop where
  exits : state.domainData = none
  returns : ∃ later after rc,
    runActions (SendOverTor.step (convertDatastructToChar (relayed environment.hostname data)))
      state later = some after ∧ after.point = .returned rc
  replies : ∀ later after rc,
    runActions (SendOverTor.step (convertDatastructToChar (relayed environment.hostname data)))
      state later = some after → after.point = .returned rc →
    (repliesOf environment data after).map DataWrapper.cmd = [if 0 ≤ rc then .end_ else .err]

/-- In every run, a request whose thread has finished is answered. -/
def EveryRunAnswers (environment : Environment) (data : DataWrapper) : Prop :=
  ∀ actions state sock,
    runActions (SendOverTor.step (convertDatastructToChar (relayed environment.hostname data)))
      (SendOverTor.start data.id data.portno) actions = some state →
    state.thread = .finished sock → Answered environment data state

section Replies

variable {environment : Environment} {data : DataWrapper} {state : SendOverTor}

/-- Of `send_over_tor` in its loop, `send_routine` has nothing to reply. -/
theorem repliesOf_of_pending (pending : state.result = none) :
    repliesOf environment data state = [] := by
  rw [repliesOf, pending]
  rfl

theorem repliesOf_of_returned {rc : Int} (returned : state.point = .returned rc) :
    (repliesOf environment data state).map DataWrapper.cmd =
      [if 0 ≤ rc then .end_ else .err] := by
  have result : state.result = some rc := by
    rw [SendOverTor.result, returned]
  rw [repliesOf, result, sendRoutine]
  by_cases sent : 0 ≤ rc
  · simp only [sent, if_true]
    rfl
  · simp only [sent, if_false]
    rfl

end Replies

/-- No request to send is ever answered: in every state that is reached the wait
goes on, and the thread can still come to its end. -/
theorem no_run_answers (environment : Environment) (data : DataWrapper) :
    ¬ EveryRunAnswers environment data ∧
      ∀ actions state,
        runActions (SendOverTor.step (convertDatastructToChar (relayed environment.hostname data)))
          (SendOverTor.start data.id data.portno) actions = some state →
        state.domainData ≠ none ∧ state.result = none ∧ repliesOf environment data state = [] ∧
          SendOverTor.ThreadEnds (convertDatastructToChar (relayed environment.hostname data))
            state := by
  have waiting := SendOverTor.waits_start data.id data.portno
  constructor
  · intro answers
    obtain ⟨actions, state, sock, ran, finished⟩ :=
      SendOverTor.threadEnds_of_waits waiting
    have exits := (answers actions state sock ran finished).exits
    rw [(SendOverTor.waits_of_run waiting ran).domainData] at exits
    contradiction
  · intro actions state ran
    have waits := SendOverTor.waits_of_run waiting ran
    have pending := SendOverTor.result_of_waits waits
    refine ⟨?_, pending, repliesOf_of_pending pending, SendOverTor.threadEnds_of_waits waits⟩
    rw [waits.domainData]
    exact Option.some_ne_none 0

/-- The thread connects at once and finishes; the coroutine has tested its
variable before and tests it again. -/
def sampleSchedule : List SendOverTor.Action :=
  [.coroutine 6 (fun _ => 0), .thread 5, .thread 5, .thread 5, .thread 5,
    .coroutine 6 (fun _ => 0), .coroutine 6 (fun _ => 0)]

theorem connected_request_is_not_answered :
    ∃ state,
      runActions (SendOverTor.step (convertDatastructToChar
          (relayed sampleEnvironment.hostname (sampleSend 5))))
        (SendOverTor.start (sampleSend 5).id (sampleSend 5).portno) sampleSchedule = some state ∧
      state.thread = .finished 5 ∧ state.point = .yielded ∧
      ¬ EveryRunAnswers sampleEnvironment (sampleSend 5) := by
  refine ⟨_, rfl, rfl, rfl, ?_⟩
  intro answers
  have answered := answers sampleSchedule _ 5 rfl rfl
  exact Option.some_ne_none 0 answered.exits

end Torchat.Daemon
