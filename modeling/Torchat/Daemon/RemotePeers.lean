import Torchat.Daemon.Handling
import Torchat.Daemon.Unread

/-!
Contract: what a frame from another host can bring about.

The daemon sees no difference between its clients and its peers: the address that
`accept` reports is not looked at, and every frame reaches the same switch. Owns
what a peer should be able to do at most, and the frames that keep to it.

Does not own the switch; see `Actions`.
-/

set_option autoImplicit false

namespace Torchat.Daemon

open Torchat.Foundation
open Torchat.Json

def Effect.IsLog : Effect → Prop
  | .logInfo _ | .logErr _ => True
  | _ => False

/-- The daemon goes on, says nothing and connects to nothing, and its store is as
it was or has one more message in one queue. -/
structure OnlyAppends (store : Store) (outcome : Outcome) : Prop where
  running : outcome.exitFlag = false
  quiet : ∀ effect ∈ outcome.effects, effect.IsLog
  appended : outcome.store = store ∨ ∃ id content, ∀ other, queued outcome.store other =
    if other = id then (queued store other).map (· ++ [content]) else queued store other

/-- The frame is handled to its end, and does no more than that. -/
def HandledAsPeer (store : Store) (result : Except Fault Outcome) : Prop :=
  ∃ outcome, result = .ok outcome ∧ OnlyAppends store outcome

/-- A message to store, with an id that fits, or a command that is ignored. -/
def PeerCommand (data : DataWrapper) : Prop :=
  data.cmd = .recv ∧ data.id.length ≤ 29 ∨ data.cmd = .end_ ∨ data.cmd = .err

/-- The text in the buffer ends there, and the decoder answers NULL or one of
those commands. -/
def PeerText (inbuf : Bytes) (now : Tm) : Prop :=
  0 ∈ inbuf ∧
    (convertStringToDatastruct (CString.ofBytes inbuf) now = .ok none ∨
      ∃ data, convertStringToDatastruct (CString.ofBytes inbuf) now = .ok (some data) ∧
        PeerCommand data)

section Commands

variable {store : Store} {table : UnreadTable}

private theorem onlyAppends_unchanged {effects : List Effect}
    (quiet : ∀ effect ∈ effects, effect.IsLog) :
    OnlyAppends store { store := store, effects := effects, exitFlag := false } where
  running := rfl
  quiet := quiet
  appended := Or.inl rfl

/-- A command with an effect that is more than a log record. -/
private theorem not_handledAsPeer_of_effect {outcome : Outcome} {effect : Effect}
    (member : effect ∈ outcome.effects) (loud : ¬ effect.IsLog) :
    ¬ HandledAsPeer store (.ok outcome) := by
  rintro ⟨same, handled, onlyAppends⟩
  cases handled
  exact loud (onlyAppends.quiet effect member)

private theorem not_handledAsPeer_of_answer {outcome : Outcome} {environment : Environment}
    {reply : DataWrapper} (effects : outcome.effects = [environment.answer reply]) :
    ¬ HandledAsPeer store (.ok outcome) := by
  have member : environment.answer reply ∈ outcome.effects := by
    rw [effects]
    exact List.mem_singleton_self _
  exact not_handledAsPeer_of_effect member fun log => log

/-- A stored message keeps to what a peer may do exactly where its id fits. -/
private theorem recv_handledAsPeer_iff (refines : Refines store table)
    (environment : Environment) (json : CString) {data : DataWrapper} (recv : data.cmd = .recv) :
    HandledAsPeer store (dispatch environment store json data) ↔ data.id.length ≤ 29 := by
  rw [dispatch, recv]
  constructor
  · intro handled
    by_contra long
    simp only [storeMsg_of_long refines (Nat.lt_of_not_le long), bind, Except.bind] at handled
    obtain ⟨outcome, failed, _⟩ := handled
    contradiction
  · intro fits
    obtain ⟨after, stored, _⟩ := storeMsg_refines refines fits environment.now
    simp only [stored, bind, Except.bind]
    refine ⟨_, rfl, rfl, ?_, ?_⟩
    · intro effect member
      rw [List.mem_singleton.mp member]
      trivial
    · exact Or.inr ⟨data.id, data.msg, queued_storeMsg refines stored fits⟩

/-- Of the commands, those two kinds keep to what a peer may do, and every other
one does not, whatever the store holds. -/
theorem dispatch_handledAsPeer_iff (refines : Refines store table) (environment : Environment)
    (json : CString) (data : DataWrapper) :
    HandledAsPeer store (dispatch environment store json data) ↔ PeerCommand data := by
  let request : Request := { environment := environment, json := json, data := data }
  unfold PeerCommand
  cases cmd : data.cmd with
  | recv =>
      rw [recv_handledAsPeer_iff refines environment json cmd]
      simp
  | end_ =>
      refine iff_of_true ⟨{ store := store, effects := [], exitFlag := false }, ?_,
        onlyAppends_unchanged (by simp)⟩ (by simp)
      rw [dispatch, cmd]
  | err =>
      refine iff_of_true ⟨{ store := store, effects := [], exitFlag := false }, ?_,
        onlyAppends_unchanged (by simp)⟩ (by simp)
      rw [dispatch, cmd]
  | exit =>
      refine iff_of_false ?_ (by simp)
      rintro ⟨outcome, handled, onlyAppends⟩
      rw [dispatch, cmd] at handled
      cases handled
      have running := onlyAppends.running
      contradiction
  | send =>
      refine iff_of_false ?_ (by simp)
      rw [dispatch, cmd]
      have copies : Effect.strcpy (data.id.length + 1) (environment.hostname.length + 1) ∈
          Effect.logInfo json :: sendRoutine environment data :=
        List.mem_cons_of_mem _ List.mem_cons_self
      exact not_handledAsPeer_of_effect copies fun log => log
  | host =>
      refine iff_of_false ?_ (by simp)
      rw [dispatch, cmd]
      exact not_handledAsPeer_of_answer rfl
  | update =>
      refine iff_of_false ?_ (by simp)
      obtain ⟨outcome, dispatched, _, answered, _⟩ :=
        @dispatch_refines _ _ refines request (admissible_of_cmd cmd (by decide))
      have handled : dispatch environment store json data = .ok outcome := dispatched
      rw [handled]
      exact not_handledAsPeer_of_answer (answered cmd)
  | getPeers =>
      refine iff_of_false ?_ (by simp)
      obtain ⟨outcome, dispatched, _, _, listed⟩ :=
        @dispatch_refines _ _ refines request (admissible_of_cmd cmd (by decide))
      have handled : dispatch environment store json data = .ok outcome := dispatched
      rw [handled]
      exact not_handledAsPeer_of_answer (listed cmd)

/-- So it is for what arrives in the buffer. -/
private theorem handleConnection_handledAsPeer_iff (refines : Refines store table)
    (environment : Environment) {rc : Int} (arrived : rc = -1 ∨ 0 < rc) (inbuf : Bytes) :
    HandledAsPeer store (handleConnection environment store (parseInbuf rc inbuf environment.now)) ↔
      rc = -1 ∨ PeerText inbuf environment.now := by
  unfold PeerText parseInbuf
  rcases arrived with refused | positive
  · rw [if_pos refused]
    refine iff_of_true ⟨_, rfl, onlyAppends_unchanged (by simp)⟩ (Or.inl refused)
  · have delivered : ¬ rc = -1 := by omega
    rw [if_neg delivered]
    by_cases terminated : 0 ∈ inbuf
    · rw [if_neg (not_not.mpr terminated)]
      cases decoded : convertStringToDatastruct (CString.ofBytes inbuf) environment.now with
      | error exception =>
          refine iff_of_false ?_ (by simp [delivered])
          rintro ⟨outcome, handled, _⟩
          contradiction
      | ok answer =>
          cases answer with
          | none =>
              refine iff_of_true ⟨_, rfl, onlyAppends_unchanged ?_⟩ (by simp [terminated])
              intro effect member
              rw [List.mem_singleton.mp member]
              trivial
          | some data =>
              simp only [handleConnection, if_pos positive]
              rw [dispatch_handledAsPeer_iff refines]
              simp [delivered, terminated]
    · rw [if_pos terminated]
      refine iff_of_false ?_ (by simp [delivered, terminated])
      rintro ⟨outcome, handled, _⟩
      contradiction

end Commands

/-- What another host can bring about with a frame, in any reachable state: it is
held to what a peer may do exactly where the frame is refused or its text is one
of a peer. -/
theorem handledAsPeer_iff {σ : Type} (kernel : Kernel σ) (within : RecvWithin kernel)
    (deadline : Int) (fuel : Nat) (environment : Environment) (store : Store)
    (reachable : Reachable store) (state after : σ) (rc : Int) (inbuf : Bytes)
    (received : torchatprotoMrecv kernel inbufSize deadline fuel (List.replicate inbufSize 0)
      state = .returned rc inbuf after) :
    ∃ result, eventRoutine kernel deadline fuel environment store state = some result ∧
      (HandledAsPeer store result ↔ rc = -1 ∨ PeerText inbuf environment.now) := by
  obtain ⟨table, refines, _⟩ := reachable.refines
  have arrived : rc = -1 ∨ 0 < rc := by
    rcases torchatprotoMrecv_inbuf within received with refused | ⟨body, nonempty, _, same, _⟩
    · exact Or.inl refused
    · right
      omega
  refine ⟨handleConnection environment store (parseInbuf rc inbuf environment.now), ?_, ?_⟩
  · rw [eventRoutine, parseConnection, received]
    rfl
  · exact handleConnection_handledAsPeer_iff refines environment arrived inbuf

/-- A command about the peer alice, as another host may send it. -/
def sampleCommand (cmd : Command) : DataWrapper where
  cmd := cmd
  id := CString.literal "mallory"
  portno := 80
  msg := CString.literal "alice"
  date := CString.literal "now"

private theorem validText_sampleCommand (cmd : Command) : ValidText (sampleCommand cmd) where
  id := by cases cmd <;> decide
  msg := by cases cmd <;> decide
  date := fun _ => by cases cmd <;> decide

private theorem short_sampleCommand (cmd : Command) :
    (convertDatastructToChar (sampleCommand cmd)).bytes.length ≤ 511 := by
  cases cmd <;> decide +kernel

theorem handledAsPeer_iff_recv :
    ∃ result, eventRoutine streamKernel 0 1 (sampleRecv "alice" "hi").environment Store.empty
        (frame (convertDatastructToChar (sampleCommand .recv)).bytes) = some result ∧
      HandledAsPeer Store.empty result := by
  obtain ⟨after, received⟩ := torchatprotoMrecv_of_text streamKernel_delivers (nonempty_text _)
    (short_sampleCommand .recv) (List.append_nil _).symm (Nat.le_refl 1) 0
  obtain ⟨result, handled, held⟩ := handledAsPeer_iff streamKernel streamKernel_recvWithin 0 1
    (sampleRecv "alice" "hi").environment Store.empty ⟨[], [], rfl⟩ _ after _ _ received
  refine ⟨result, handled, held.mpr (Or.inr ⟨by simp, Or.inr
    ⟨arrival (sampleCommand .recv) sampleTime, ?_, Or.inl ⟨rfl, ?_⟩⟩⟩)⟩
  · rw [CString.ofBytes_append_nul]
    exact decode_encode (validText_sampleCommand .recv) sampleTime
  · decide

private theorem eventRoutine_sampleCommand (cmd : Command) (store : Store) :
    eventRoutine streamKernel 0 1 (sampleRecv "alice" "hi").environment store
        (frame (convertDatastructToChar (sampleCommand cmd)).bytes) =
      some (dispatch (sampleRecv "alice" "hi").environment store
        (convertDatastructToChar (sampleCommand cmd)) (arrival (sampleCommand cmd) sampleTime)) := by
  exact eventRoutine_of_encoded streamKernel_delivers (validText_sampleCommand cmd)
    (short_sampleCommand cmd) (List.append_nil _).symm (Nat.le_refl 1) 0 _ store

/-- A frame with EXIT ends the daemon, and one with UPDATE takes a message out of
it, wherever they come from. -/
theorem remote_commands_are_obeyed :
    (∃ outcome, eventRoutine streamKernel 0 1 (sampleRecv "alice" "hi").environment Store.empty
        (frame (convertDatastructToChar (sampleCommand .exit)).bytes) = some (.ok outcome) ∧
      outcome.exitFlag = true ∧ ¬ HandledAsPeer Store.empty (.ok outcome)) ∧
    ∃ store trace outcome reply,
      run Store.empty [sampleRecv "alice" "hi"] = .ok (store, trace) ∧
      eventRoutine streamKernel 0 1 (sampleRecv "alice" "hi").environment store
        (frame (convertDatastructToChar (sampleCommand .update)).bytes) = some (.ok outcome) ∧
      outcome.effects = [.msend reply 0] ∧ reply.msg = CString.literal "hi" ∧
      queued store (CString.literal "alice") = some [CString.literal "hi"] ∧
      queued outcome.store (CString.literal "alice") = some [] ∧
      ¬ HandledAsPeer store (.ok outcome) := by
  constructor
  · rw [eventRoutine_sampleCommand]
    refine ⟨_, rfl, rfl, ?_⟩
    rintro ⟨outcome, handled, onlyAppends⟩
    cases handled
    have running := onlyAppends.running
    contradiction
  · refine ⟨_, _, _, _, rfl, (eventRoutine_sampleCommand _ _).trans rfl, rfl, rfl, rfl, rfl, ?_⟩
    exact not_handledAsPeer_of_effect List.mem_cons_self fun log => log

end Torchat.Daemon
