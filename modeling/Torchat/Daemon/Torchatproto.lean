import Torchat.Foundation.Decimal

/-!
Contract: the framing of `torchatproto.c` over a stream socket.

Owns the four-digit header, the sender with its size limit, the receiver with
its waiting loop, and that framing loses nothing on a stream whose bytes are
available.

Does not own the socket: `recv`, `fd_send`, the scheduler and the clock are
arguments.
-/

set_option autoImplicit false

namespace Torchat.Daemon

open Torchat.Foundation

/-! ## The socket -/

/-- What one call of `recv` does. -/
inductive RecvOutcome where
  | data (bytes : Bytes)
  | eof
  | again
  | error
deriving DecidableEq

/-- The return value of the call. -/
def RecvOutcome.rc : RecvOutcome → Int
  | .data bytes => bytes.length
  | .eof => 0
  | .again | .error => -1

/-- What the call leaves in its buffer: every call writes from the front on. -/
def RecvOutcome.fill : RecvOutcome → Bytes → Bytes
  | .data bytes, buf => bytes ++ buf.drop bytes.length
  | _, buf => buf

/-- The receiver's side of the system. `recv` is told how many bytes may be
delivered; `yield` lets everything else run; `now` reads the clock. -/
structure Kernel (σ : Type) where
  recv : σ → Nat → RecvOutcome × σ
  yield : σ → σ
  now : σ → Int

/-- How a call of `torchatproto_mrecv` stands after a number of iterations. -/
inductive Received (σ : Type) where
  | returned (rc : Int) (buf : Bytes) (state : σ)
  | assertFailed (state : σ)
  | pending (buf : Bytes) (state : σ)

section Receiver

variable {σ : Type}

/-- The four bytes of a header as a number; -1 where one of them is no digit. -/
def parseDimension (buf : Bytes) : Int := if buf.all isDigit then decimalValue buf else -1

/-- `fd_recv_dimensionhead`. Where nothing is available the zeroed buffer is
parsed. -/
def fdRecvDimensionhead (kernel : Kernel σ) (state : σ) : Int × σ :=
  let (outcome, state) := kernel.recv state 4
  if outcome = .eof ∨ outcome = .error then (-1, state)
  else (parseDimension (outcome.fill (List.replicate 4 0)), state)

/-- The loop of `torchatproto_mrecv`. It does not return for a clock that stands
still, so its model takes one of `fuel` for each iteration. -/
def receiveBody (kernel : Kernel σ) (len : Nat) (deadline : Int) : Nat → Bytes → σ → Received σ
  | 0, buf, state => .pending buf state
  | fuel + 1, buf, state =>
      let (outcome, state) := kernel.recv state len
      let buf := outcome.fill buf
      if outcome = .error then .returned (-1) buf state
      else if (len : Int) ≤ outcome.rc then .returned outcome.rc buf state
      else
        let state := kernel.yield state
        if deadline < kernel.now state then .assertFailed state
        else receiveBody kernel len deadline fuel buf state

/-- `torchatproto_mrecv`. -/
def torchatprotoMrecv (kernel : Kernel σ) (maxLen : Nat) (deadline : Int) (fuel : Nat)
    (buf : Bytes) (state : σ) : Received σ :=
  let (len, state) := fdRecvDimensionhead kernel state
  if len ≤ 0 then .returned (-1) buf state
  else if maxLen < len.toNat then .returned (-1) buf state
  else receiveBody kernel len.toNat deadline fuel buf state

/-- Messages that calls of `torchatproto_mrecv` on one socket return, each into
a fresh buffer and within one iteration. -/
def receiveAll (kernel : Kernel σ) (maxLen : Nat) (deadline : Int) :
    Nat → σ → Option (List Bytes × σ)
  | 0, state => some ([], state)
  | count + 1, state =>
      match torchatprotoMrecv kernel maxLen deadline 1 (List.replicate maxLen 0) state with
      | .returned rc buf state =>
          if rc < 0 then none
          else (receiveAll kernel maxLen deadline count state).map fun received =>
            (buf.take rc.toNat :: received.1, received.2)
      | _ => none

end Receiver

section Sender

variable {σ : Type}

/-- `generate_dimension_head`: the last four digits of a length. -/
def generateDimensionHead (len : Nat) : Bytes := fixedDigits 4 len

def frame (payload : Bytes) : Bytes := generateDimensionHead payload.length ++ payload

/-- `torchatproto_msendl`: the limit is on header and payload together. -/
def torchatprotoMsendl (fdSend : σ → Bytes → Int × σ) (socket : σ) (message : Bytes) :
    Int × σ :=
  if 8192 < message.length then (-1, socket) else fdSend socket message

/-- `torchatproto_msend`. -/
def torchatprotoMsend (fdSend : σ → Bytes → Int × σ) (socket : σ) (payload : Bytes) : Int × σ :=
  torchatprotoMsendl fdSend socket (frame payload)

/-- Send payloads one after the other. -/
def sendAll (fdSend : σ → Bytes → Int × σ) : σ → List Bytes → List Int × σ
  | socket, [] => ([], socket)
  | socket, payload :: rest =>
      let (rc, socket) := torchatprotoMsend fdSend socket payload
      let (rcs, socket) := sendAll fdSend socket rest
      (rc :: rcs, socket)

end Sender

/-! ## The header -/

@[simp] theorem length_generateDimensionHead (len : Nat) :
    (generateDimensionHead len).length = 4 := length_fixedDigits 4 len

theorem length_frame (payload : Bytes) : (frame payload).length = 4 + payload.length := by
  simp [frame]

/-- The header of a length below 10000 denotes that length. -/
theorem parseDimension_generateDimensionHead {len : Nat} (small : len < 10000) :
    parseDimension (generateDimensionHead len) = len := by
  have digits : (generateDimensionHead len).all isDigit = true := by
    rw [List.all_eq_true]
    exact fun _ member => isDigit_of_mem_fixedDigits member
  have value : decimalValue (generateDimensionHead len) = len := by
    rw [generateDimensionHead, decimalValue_fixedDigits]
    exact Nat.mod_eq_of_lt small
  rw [parseDimension, if_pos digits, value]

/-! ## Framing on a stream -/

/-- `recv` delivers as many bytes as are asked for, when they are available. -/
def DeliversAvailable {σ : Type} (kernel : Kernel σ) (available : σ → Bytes) : Prop :=
  ∀ state count, 0 < count → count ≤ (available state).length →
    ∃ after, kernel.recv state count = (.data ((available state).take count), after) ∧
      available after = (available state).drop count

/-- `fd_send` writes all bytes or fails. -/
def WritesAllOrFails {τ : Type} (fdSend : τ → Bytes → Int × τ) (written : τ → Bytes) : Prop :=
  ∀ socket message,
    ((fdSend socket message).1 = 0 ∧
      written (fdSend socket message).2 = written socket ++ message) ∨
    (fdSend socket message).1 = -1

/-- The payloads that fit a frame. -/
def accepted (payloads : List Bytes) : List Bytes :=
  payloads.filter fun payload => payload.length ≤ 8188

/-- The return codes of a run in which no call of `fd_send` fails. -/
def sizeVerdicts (payloads : List Bytes) : List Int :=
  payloads.map fun payload => if payload.length ≤ 8188 then 0 else -1

/-- `fd_send` takes every frame that a run gives it. -/
def TakesFrames {τ : Type} (fdSend : τ → Bytes → Int × τ) (socket : τ) (payloads : List Bytes) :
    Prop :=
  ∀ front payload back, payloads = front ++ payload :: back → payload.length ≤ 8188 →
    (fdSend (sendAll fdSend socket front).2 (frame payload)).1 ≠ -1

section Stream

variable {σ τ : Type} {kernel : Kernel σ} {available : σ → Bytes}
variable {fdSend : τ → Bytes → Int × τ} {written : τ → Bytes}

theorem torchatprotoMsend_of_long (socket : τ) {payload : Bytes} (long : 8188 < payload.length) :
    torchatprotoMsend fdSend socket payload = (-1, socket) := by
  rw [torchatprotoMsend, torchatprotoMsendl, length_frame, if_pos (by omega)]

theorem torchatprotoMsend_of_fits (socket : τ) {payload : Bytes} (fits : payload.length ≤ 8188) :
    torchatprotoMsend fdSend socket payload = fdSend socket (frame payload) := by
  rw [torchatprotoMsend, torchatprotoMsendl, length_frame, if_neg (by omega)]

/-- A payload is sent exactly where it fits a frame and `fd_send` takes the frame. -/
theorem torchatprotoMsend_nonneg_iff (socket : τ) (payload : Bytes) :
    0 ≤ (torchatprotoMsend fdSend socket payload).1 ↔
      payload.length ≤ 8188 ∧ 0 ≤ (fdSend socket (frame payload)).1 := by
  by_cases fits : payload.length ≤ 8188
  · rw [torchatprotoMsend_of_fits socket fits]
    exact (and_iff_right fits).symm
  · rw [torchatprotoMsend_of_long socket (Nat.lt_of_not_le fits)]
    have refused : ¬ (0 : Int) ≤ -1 := by decide
    exact iff_of_false refused fun sent => fits sent.1

private theorem takesFrames_cons (socket : τ) (payload : Bytes) (rest : List Bytes) :
    TakesFrames fdSend socket (payload :: rest) ↔
      (payload.length ≤ 8188 → (fdSend socket (frame payload)).1 ≠ -1) ∧
        TakesFrames fdSend (torchatprotoMsend fdSend socket payload).2 rest := by
  constructor
  · intro takes
    refine ⟨takes [] payload rest rfl, fun front later back split => ?_⟩
    exact takes (payload :: front) later back (by rw [split, List.cons_append])
  · rintro ⟨first, others⟩ front later back split
    cases front with
    | nil =>
        obtain ⟨rfl, rfl⟩ := List.cons.inj split
        exact first
    | cons head front =>
        obtain ⟨rfl, behind⟩ := List.cons.inj split
        exact others front later back behind

/-- The return codes tell exactly the payloads that are too long where no `fd_send` fails. -/
theorem sendAll_sizeVerdicts_iff (writes : WritesAllOrFails fdSend written) (socket : τ)
    (payloads : List Bytes) :
    (sendAll fdSend socket payloads).1 = sizeVerdicts payloads ↔
      TakesFrames fdSend socket payloads := by
  induction payloads generalizing socket with
  | nil => simp [sendAll, sizeVerdicts, TakesFrames]
  | cons payload rest inductionHypothesis =>
      have verdict : ((torchatprotoMsend fdSend socket payload).1 =
          if payload.length ≤ 8188 then 0 else -1) ↔
          (payload.length ≤ 8188 → (fdSend socket (frame payload)).1 ≠ -1) := by
        by_cases fits : payload.length ≤ 8188
        · rw [torchatprotoMsend_of_fits socket fits]
          rcases writes socket (frame payload) with ⟨taken, _⟩ | failed
          · simp [taken, fits]
          · simp [failed, fits]
        · simp [torchatprotoMsend_of_long socket (Nat.lt_of_not_le fits), fits]
      rw [takesFrames_cons, ← inductionHypothesis, ← verdict]
      exact List.cons_eq_cons

private theorem written_sendAll (writes : WritesAllOrFails fdSend written) (socket : τ)
    (payloads : List Bytes) (sent : (sendAll fdSend socket payloads).1 = sizeVerdicts payloads) :
    written (sendAll fdSend socket payloads).2 =
      written socket ++ (accepted payloads).flatMap frame := by
  induction payloads generalizing socket with
  | nil => simp [sendAll, accepted]
  | cons payload rest inductionHypothesis =>
      have heads : (torchatprotoMsend fdSend socket payload).1 =
          if payload.length ≤ 8188 then 0 else -1 := (List.cons.inj sent).1
      have tails := inductionHypothesis (torchatprotoMsend fdSend socket payload).2
        (List.cons.inj sent).2
      show written (sendAll fdSend (torchatprotoMsend fdSend socket payload).2 rest).2 = _
      rw [tails]
      by_cases fits : payload.length ≤ 8188
      · rw [torchatprotoMsend_of_fits socket fits] at heads ⊢
        rcases writes socket (frame payload) with ⟨_, all⟩ | failed
        · simp [all, accepted, fits]
        · rw [failed, if_pos fits] at heads
          contradiction
      · rw [torchatprotoMsend_of_long socket (by omega)]
        simp [accepted, fits]

/-- The header of the next frame is read off the stream. -/
private theorem fdRecvDimensionhead_frame (delivers : DeliversAvailable kernel available)
    {payload rest : Bytes} {state : σ} (small : payload.length < 10000)
    (stream : available state = frame payload ++ rest) :
    ∃ behindHead, fdRecvDimensionhead kernel state = ((payload.length : Int), behindHead) ∧
      available behindHead = payload ++ rest := by
  have headLength := length_generateDimensionHead payload.length
  have split : available state = generateDimensionHead payload.length ++ (payload ++ rest) := by
    rw [stream, frame, List.append_assoc]
  obtain ⟨behindHead, headRecv, headAvailable⟩ := delivers state 4 (by omega)
    (by rw [split, List.length_append]; omega)
  rw [split, List.take_left' headLength] at headRecv
  rw [split, List.drop_left' headLength] at headAvailable
  have head : (RecvOutcome.data (generateDimensionHead payload.length)).fill
      (List.replicate 4 0) = generateDimensionHead payload.length := by
    simp [RecvOutcome.fill]
  refine ⟨behindHead, ?_, headAvailable⟩
  simp only [fdRecvDimensionhead, headRecv, reduceCtorEq, or_self, if_false, head,
    parseDimension_generateDimensionHead small]

/-- One call takes one frame off the stream. -/
theorem torchatprotoMrecv_frame (delivers : DeliversAvailable kernel available)
    {maxLen fuel : Nat} {payload rest : Bytes} {state : σ} (nonempty : 1 ≤ payload.length)
    (fits : payload.length ≤ 8188) (room : payload.length ≤ maxLen) (enough : 1 ≤ fuel)
    (stream : available state = frame payload ++ rest) (deadline : Int) (buf : Bytes) :
    ∃ after, torchatprotoMrecv kernel maxLen deadline fuel buf state =
        .returned payload.length (payload ++ buf.drop payload.length) after ∧
      available after = rest := by
  obtain ⟨behindHead, length, headAvailable⟩ :=
    fdRecvDimensionhead_frame delivers (show payload.length < 10000 by omega) stream
  obtain ⟨after, bodyRecv, bodyAvailable⟩ := delivers behindHead payload.length (by omega)
    (by rw [headAvailable, List.length_append]; omega)
  rw [headAvailable, List.take_left' rfl] at bodyRecv
  rw [headAvailable, List.drop_left' rfl] at bodyAvailable
  refine ⟨after, ?_, bodyAvailable⟩
  obtain ⟨others, rfl⟩ := Nat.exists_eq_add_of_le' enough
  have positive : ¬ (payload.length : Int) ≤ 0 := by omega
  have notLarger : ¬ maxLen < payload.length := by omega
  simp only [torchatprotoMrecv, length, if_neg positive, Int.toNat_natCast, if_neg notLarger,
    receiveBody, bodyRecv, reduceCtorEq, if_false, RecvOutcome.rc, RecvOutcome.fill,
    Int.le_refl, if_true]

/-- A frame without a payload, or with one larger than the buffer, is refused. -/
theorem torchatprotoMrecv_of_refused (delivers : DeliversAvailable kernel available)
    {maxLen : Nat} {payload rest : Bytes} {state : σ}
    (refused : ¬ (1 ≤ payload.length ∧ payload.length ≤ maxLen)) (fits : payload.length ≤ 8188)
    (stream : available state = frame payload ++ rest) (deadline : Int) (fuel : Nat)
    (buf : Bytes) :
    ∃ after, torchatprotoMrecv kernel maxLen deadline fuel buf state =
      .returned (-1) buf after := by
  obtain ⟨behindHead, length, _⟩ :=
    fdRecvDimensionhead_frame delivers (show payload.length < 10000 by omega) stream
  refine ⟨behindHead, ?_⟩
  by_cases nonempty : 1 ≤ payload.length
  · have positive : ¬ (payload.length : Int) ≤ 0 := by omega
    have large : maxLen < payload.length := by omega
    simp only [torchatprotoMrecv, length, if_neg positive, Int.toNat_natCast, if_pos large]
  · have empty : (payload.length : Int) ≤ 0 := by omega
    simp only [torchatprotoMrecv, length, if_pos empty]

theorem receiveAll_frames (delivers : DeliversAvailable kernel available)
    {maxLen : Nat} {payloads : List Bytes}
    (sizes : ∀ payload ∈ payloads,
      1 ≤ payload.length ∧ payload.length ≤ 8188 ∧ payload.length ≤ maxLen)
    {rest : Bytes} {state : σ} (stream : available state = payloads.flatMap frame ++ rest)
    (deadline : Int) :
    ∃ after, receiveAll kernel maxLen deadline payloads.length state = some (payloads, after) ∧
      available after = rest := by
  induction payloads generalizing state with
  | nil => exact ⟨state, rfl, stream⟩
  | cons payload others inductionHypothesis =>
      obtain ⟨nonempty, fits, room⟩ := sizes payload List.mem_cons_self
      rw [List.flatMap_cons, List.append_assoc] at stream
      obtain ⟨behind, returned, available_⟩ := torchatprotoMrecv_frame delivers nonempty fits
        room (Nat.le_refl 1) stream deadline (List.replicate maxLen 0)
      obtain ⟨after, received, left⟩ := inductionHypothesis
        (fun later member => sizes later (List.mem_cons_of_mem _ member)) available_
      refine ⟨after, ?_, left⟩
      have notNegative : ¬ (payload.length : Int) < 0 := by omega
      simp [receiveAll, returned, notNegative, received]

/-- What is received from the frames of payloads are payloads that may be received. -/
theorem sizes_of_receiveAll (delivers : DeliversAvailable kernel available) {maxLen : Nat}
    {payloads : List Bytes} (fits : ∀ payload ∈ payloads, payload.length ≤ 8188) {rest : Bytes}
    {state : σ} (stream : available state = payloads.flatMap frame ++ rest) {deadline : Int}
    {received : List Bytes × σ}
    (all : receiveAll kernel maxLen deadline payloads.length state = some received) :
    ∀ payload ∈ payloads, 1 ≤ payload.length ∧ payload.length ≤ maxLen := by
  induction payloads generalizing state received with
  | nil => simp
  | cons payload others inductionHypothesis =>
      have fitsHead := fits payload List.mem_cons_self
      rw [List.flatMap_cons, List.append_assoc] at stream
      by_cases sizes : 1 ≤ payload.length ∧ payload.length ≤ maxLen
      · obtain ⟨behind, returned, available_⟩ := torchatprotoMrecv_frame delivers sizes.1 fitsHead
          sizes.2 (Nat.le_refl 1) stream deadline (List.replicate maxLen 0)
        have notNegative : ¬ (payload.length : Int) < 0 := by omega
        simp only [List.length_cons, receiveAll, returned, if_neg notNegative,
          Option.map_eq_some_iff] at all
        obtain ⟨later, received_, _⟩ := all
        exact List.forall_mem_cons.mpr ⟨sizes, inductionHypothesis
          (fun other member => fits other (List.mem_cons_of_mem _ member)) available_ received_⟩
      · obtain ⟨behind, refused⟩ := torchatprotoMrecv_of_refused delivers sizes fitsHead stream
          deadline 1 (List.replicate maxLen 0)
        simp [receiveAll, refused] at all

end Stream

/-- Framing loses nothing: an oversized payload is refused with nothing written
and every other one is written as one frame; from a stream of frames whose bytes
are available the payloads come back in order, each call taking its own frame;
and no header of an accepted payload denotes another length. -/
theorem framing_lossless {σ τ : Type} (kernel : Kernel σ) (available : σ → Bytes)
    (delivers : DeliversAvailable kernel available) (fdSend : τ → Bytes → Int × τ)
    (written : τ → Bytes) (writes : WritesAllOrFails fdSend written) :
    (∀ socket payload, 8188 < payload.length →
      torchatprotoMsend fdSend socket payload = (-1, socket)) ∧
    (∀ socket payload, payload.length ≤ 8188 →
      ((torchatprotoMsend fdSend socket payload).1 = 0 ∧
        written (torchatprotoMsend fdSend socket payload).2 =
          written socket ++ frame payload) ∨
      (fdSend socket (frame payload)).1 = -1) ∧
    (∀ socket payloads, ((sendAll fdSend socket payloads).1 = sizeVerdicts payloads ↔
        TakesFrames fdSend socket payloads) ∧
      ((sendAll fdSend socket payloads).1 = sizeVerdicts payloads →
        written (sendAll fdSend socket payloads).2 =
          written socket ++ (accepted payloads).flatMap frame)) ∧
    (∀ payloads maxLen deadline rest state,
      (∀ payload ∈ payloads,
        1 ≤ payload.length ∧ payload.length ≤ 8188 ∧ payload.length ≤ maxLen) →
      available state = payloads.flatMap frame ++ rest →
      ∃ after, receiveAll kernel maxLen deadline payloads.length state = some (payloads, after) ∧
        available after = rest) ∧
    (∀ payload : Bytes, payload.length ≤ 8188 →
      parseDimension (generateDimensionHead payload.length) = payload.length) := by
  refine ⟨fun socket payload long => torchatprotoMsend_of_long socket long, ?_,
    fun socket payloads => ⟨sendAll_sizeVerdicts_iff writes socket payloads,
      written_sendAll writes socket payloads⟩,
    fun payloads maxLen deadline rest state sizes stream =>
      receiveAll_frames delivers sizes stream deadline,
    fun payload fits => parseDimension_generateDimensionHead (by omega)⟩
  intro socket payload fits
  rw [torchatprotoMsend_of_fits socket fits]
  exact writes socket (frame payload)

/-- A socket whose bytes have all arrived. -/
def streamKernel : Kernel Bytes where
  recv stream count :=
    if stream = [] then (.again, []) else (.data (stream.take count), stream.drop count)
  yield stream := stream
  now _ := 0

theorem streamKernel_delivers : DeliversAvailable streamKernel id := by
  intro stream count positive inside
  refine ⟨stream.drop count, ?_, rfl⟩
  have nonempty : stream ≠ [] := by
    rintro rfl
    exact absurd inside (Nat.not_le_of_lt positive)
  exact if_neg nonempty

theorem framing_lossless_hello :
    ∃ after, receiveAll streamKernel 512 0 2 (frame (ascii "hello") ++ frame (ascii "again")) =
      some ([ascii "hello", ascii "again"], after) ∧ after = [] :=
  (framing_lossless streamKernel id streamKernel_delivers
    (fun stream message => (0, stream ++ message)) id (fun _ _ => Or.inl ⟨rfl, rfl⟩)).2.2.2.1
    [ascii "hello", ascii "again"] 512 0 [] _ (by decide) (by decide)

end Torchat.Daemon
