import Torchat.Daemon.Reachability
import Torchat.Daemon.Reception

/-!
Contract: from the frames of a connection to what the daemon does about them.

Owns what `torchatproto_mrecv` leaves in `inbuf`, the text that is read from it,
the composition of `parse_connection` and the dispatch in `event_routine`, and
what a peer that may send any frame can bring about.

Does not own the commands; see `Actions`.
-/

set_option autoImplicit false

namespace Torchat.Daemon

open Torchat.Foundation
open Torchat.Json

/-! ## The buffer -/

/-- `recv` delivers at most what it is asked for. -/
def RecvWithin {σ : Type} (kernel : Kernel σ) : Prop :=
  ∀ state count, (kernel.recv state count).1.clip count = (kernel.recv state count).1

theorem scriptKernel_recvWithin (outcomes : Nat → RecvOutcome) (clock : Nat → Int) :
    RecvWithin (scriptKernel outcomes clock) := by
  intro calls count
  rw [scriptKernel_recv]
  cases outcomes calls with
  | data bytes => simp [RecvOutcome.clip]
  | _ => rfl

section Buffer

variable {σ : Type} {kernel : Kernel σ}

/-- A call of `recv` leaves alone what lies behind the bytes that it may write. -/
private theorem drop_fill {outcome : RecvOutcome} {count : Nat}
    (within : outcome.clip count = outcome) (buf : Bytes) :
    (outcome.fill buf).drop count = buf.drop count := by
  cases outcome with
  | data bytes =>
      have short : bytes.length ≤ count := by
        have same := congrArg List.length (RecvOutcome.data.inj within)
        rw [List.length_take] at same
        omega
      rw [RecvOutcome.fill, List.drop_append, List.drop_of_length_le short, List.nil_append,
        List.drop_drop]
      congr 1
      omega
  | _ => rfl

/-- A call that delivers all it was asked for has filled the front of the buffer. -/
private theorem fill_of_whole {outcome : RecvOutcome} {len : Nat} (positive : 1 ≤ len)
    (within : outcome.clip len = outcome) (whole : (len : Int) ≤ outcome.rc) (buf : Bytes) :
    ∃ body : Bytes, body.length = len ∧ outcome.rc = len ∧
      outcome.fill buf = body ++ buf.drop len := by
  cases outcome with
  | data bytes =>
      have same := congrArg List.length (RecvOutcome.data.inj within)
      rw [List.length_take] at same
      change (len : Int) ≤ bytes.length at whole
      have length : bytes.length = len := by omega
      refine ⟨bytes, length, ?_, ?_⟩
      · exact congrArg Int.ofNat length
      · rw [← length]
        rfl
  | _ =>
      simp only [RecvOutcome.rc] at whole
      omega

/-- The receiving loop returns with the whole body at the front of the buffer. -/
private theorem receiveBody_returned (within : RecvWithin kernel) {len : Nat}
    (positive : 1 ≤ len) {deadline rc : Int} {fuel : Nat} {buf inbuf : Bytes} {state after : σ}
    (returned : receiveBody kernel len deadline fuel buf state = .returned rc inbuf after) :
    rc = -1 ∨ ∃ body : Bytes, body.length = len ∧ rc = len ∧ inbuf = body ++ buf.drop len := by
  induction fuel generalizing buf state with
  | zero => simp [receiveBody] at returned
  | succ fuel inductionHypothesis =>
      have inside := within state len
      rw [receiveBody] at returned
      dsimp only at returned
      split at returned
      next =>
        cases returned
        exact Or.inl rfl
      split at returned
      next whole =>
        obtain ⟨body, length, same, filled⟩ := fill_of_whole positive inside whole buf
        rw [same, filled] at returned
        cases returned
        exact Or.inr ⟨body, length, rfl, rfl⟩
      split at returned
      next => contradiction
      next =>
        have later := inductionHypothesis returned
        rw [drop_fill inside] at later
        exact later

/-- `inbuf` behind a call that was not refused: the body, and zeros up to its end. -/
theorem torchatprotoMrecv_inbuf (within : RecvWithin kernel) {maxLen fuel : Nat}
    {deadline rc : Int} {inbuf : Bytes} {state after : σ}
    (returned : torchatprotoMrecv kernel maxLen deadline fuel (List.replicate maxLen 0) state =
      .returned rc inbuf after) :
    rc = -1 ∨ ∃ body : Bytes, 1 ≤ body.length ∧ body.length ≤ maxLen ∧ rc = body.length ∧
      inbuf = body ++ List.replicate (maxLen - body.length) 0 := by
  unfold torchatprotoMrecv at returned
  dsimp only at returned
  split at returned
  next =>
    cases returned
    exact Or.inl rfl
  next positive =>
    split at returned
    next =>
      cases returned
      exact Or.inl rfl
    next fits =>
      rcases receiveBody_returned within (by omega) returned with refused | whole
      · exact Or.inl refused
      · obtain ⟨body, length, same, filled⟩ := whole
        rw [List.drop_replicate, ← length] at filled
        refine Or.inr ⟨body, ?_, ?_, ?_, filled⟩
        · omega
        · omega
        · rw [same, length]

end Buffer

/-! ## The text -/

/-- What `parse_connection` makes of a text that it has given to the decoder. -/
def readText (rc : Int) (json : CString) (now : Tm) : Except Fault Connection :=
  match convertStringToDatastruct json now with
  | .error exception => .error (.uncaught exception)
  | .ok none => .ok (.invalid json)
  | .ok (some data) => .ok (.message rc json data)

/-- `parse_connection` finds the terminator inside `inbuf`, and what it gives to
the decoder is the body. -/
def ParsesBody (connection : Tm → Option (Except Fault Connection)) (rc : Int)
    (body : Bytes) : Prop :=
  ∃ json : CString, json.bytes = body ∧ ∀ now, connection now = some (readText rc json now)

theorem readText_ne_outOfBounds (rc : Int) (json : CString) (now : Tm) :
    readText rc json now ≠ .error .outOfBounds := by
  unfold readText
  split <;> simp

/-- A full buffer has no terminator. -/
theorem parseInbuf_of_full {inbuf : Bytes} {rc : Int} (delivered : rc ≠ -1)
    (noNul : 0 ∉ inbuf) (now : Tm) : parseInbuf rc inbuf now = .error .outOfBounds := by
  rw [parseInbuf, if_neg delivered, if_pos noNul]

/-- The text in front of the first zero is decoded. -/
theorem parseInbuf_of_terminated (json : CString) (rest : Bytes) {rc : Int}
    (delivered : rc ≠ -1) (now : Tm) :
    parseInbuf rc (json.bytes ++ 0 :: rest) now = readText rc json now := by
  have terminated : ¬ (0 : Byte) ∉ json.bytes ++ 0 :: rest := by simp
  rw [parseInbuf, if_neg delivered, if_neg terminated, CString.ofBytes_append_nul]
  rfl

private theorem not_parsesBody_of_outOfBounds {connection : Tm → Option (Except Fault Connection)}
    {now : Tm} (outside : connection now = some (.error .outOfBounds)) (rc : Int) (body : Bytes) :
    ¬ ParsesBody connection rc body := by
  rintro ⟨json, _, reads⟩
  have read := (reads now).symm.trans outside
  exact readText_ne_outOfBounds rc json now (Option.some.inj read)

/-- The body of a frame is what the decoder is given exactly where it leaves room
for a terminator in `inbuf`. -/
theorem parsesBody_iff {σ : Type} (kernel : Kernel σ) (within : RecvWithin kernel)
    (deadline : Int) (fuel : Nat) (state after : σ) (rc : Int) (inbuf body : Bytes)
    (received : torchatprotoMrecv kernel inbufSize deadline fuel (List.replicate inbufSize 0)
      state = .returned rc inbuf after)
    (delivered : rc ≠ -1) (isBody : inbuf.take rc.toNat = body) (noNul : 0 ∉ body) :
    ParsesBody (fun now => parseConnection kernel deadline fuel now state) rc body ↔
      body.length ≤ 511 := by
  have parsed (now : Tm) : parseConnection kernel deadline fuel now state =
      some (parseInbuf rc inbuf now) := by
    rw [parseConnection, received]
  rcases torchatprotoMrecv_inbuf within received with refused | ⟨whole, _, fits, same, filled⟩
  · exact absurd refused delivered
  obtain rfl : whole = body := by
    rw [← isBody, filled, same, Int.toNat_natCast, List.take_left' rfl]
  constructor
  · intro parses
    by_contra long
    have full : inbufSize - whole.length = 0 := by
      unfold inbufSize
      omega
    rw [full, List.replicate_zero, List.append_nil] at filled
    have outside := parsed sampleTime
    rw [filled, parseInbuf_of_full delivered noNul] at outside
    exact not_parsesBody_of_outOfBounds outside rc whole parses
  · intro short
    refine ⟨⟨whole, noNul⟩, rfl, fun now => ?_⟩
    have room : inbufSize - whole.length = 511 - whole.length + 1 := by
      unfold inbufSize
      omega
    rw [room, List.replicate_succ] at filled
    apply (parsed now).trans
    rw [filled]
    exact congrArg some (parseInbuf_of_terminated ⟨whole, noNul⟩ _ delivered now)

/-! ## Whole frames -/

section WholeFrames

variable {σ : Type} {kernel : Kernel σ} {available : σ → Bytes} {rest : Bytes} {state : σ}
  {fuel : Nat}

/-- A text that leaves room for its terminator stands in front of zeros. -/
theorem torchatprotoMrecv_of_text (delivers : DeliversAvailable kernel available) {text : CString}
    (nonempty : 1 ≤ text.bytes.length) (short : text.bytes.length ≤ 511)
    (stream : available state = frame text.bytes ++ rest) (enough : 1 ≤ fuel) (deadline : Int) :
    ∃ after, torchatprotoMrecv kernel inbufSize deadline fuel (List.replicate inbufSize 0) state =
      .returned text.bytes.length
        (text.bytes ++ 0 :: List.replicate (511 - text.bytes.length) 0) after := by
  have inBuffer : text.bytes.length ≤ inbufSize := by
    unfold inbufSize
    omega
  have inFrame : text.bytes.length ≤ 8188 := by omega
  obtain ⟨after, received, _⟩ := torchatprotoMrecv_frame delivers nonempty inFrame inBuffer enough
    stream deadline (List.replicate inbufSize 0)
  have room : inbufSize - text.bytes.length = 511 - text.bytes.length + 1 := by
    unfold inbufSize
    omega
  rw [List.drop_replicate, room, List.replicate_succ] at received
  exact ⟨after, received⟩

/-- It is read as it was sent. -/
theorem parseConnection_of_frame (delivers : DeliversAvailable kernel available) {text : CString}
    (nonempty : 1 ≤ text.bytes.length) (short : text.bytes.length ≤ 511)
    (stream : available state = frame text.bytes ++ rest) (enough : 1 ≤ fuel) (deadline : Int)
    (now : Tm) :
    parseConnection kernel deadline fuel now state =
      some (readText text.bytes.length text now) := by
  obtain ⟨after, received⟩ :=
    torchatprotoMrecv_of_text delivers nonempty short stream enough deadline
  have delivered : (text.bytes.length : Int) ≠ -1 := by omega
  rw [parseConnection, received]
  exact congrArg some (parseInbuf_of_terminated text _ delivered now)

/-- A message that was encoded comes out as it was meant. -/
theorem parseConnection_of_encoded (delivers : DeliversAvailable kernel available)
    {data : DataWrapper} (valid : ValidText data)
    (short : (convertDatastructToChar data).bytes.length ≤ 511)
    (stream : available state = frame (convertDatastructToChar data).bytes ++ rest)
    (enough : 1 ≤ fuel) (deadline : Int) (now : Tm) :
    parseConnection kernel deadline fuel now state =
      some (.ok (.message (convertDatastructToChar data).bytes.length
        (convertDatastructToChar data) (arrival data now))) := by
  rw [parseConnection_of_frame delivers (nonempty_text data) short stream enough, readText,
    decode_encode valid]

/-- The search for the end of a body that fills the buffer leaves it. -/
theorem parseConnection_of_full (delivers : DeliversAvailable kernel available) {body : Bytes}
    (full : body.length = inbufSize) (noNul : 0 ∉ body)
    (stream : available state = frame body ++ rest) (enough : 1 ≤ fuel) (deadline : Int)
    (now : Tm) :
    parseConnection kernel deadline fuel now state = some (.error .outOfBounds) := by
  unfold inbufSize at full
  obtain ⟨after, received, _⟩ := torchatprotoMrecv_frame delivers (by omega) (by omega)
    (Nat.le_of_eq full) enough stream deadline (List.replicate inbufSize 0)
  have nothingLeft : (List.replicate inbufSize (0 : Byte)).drop body.length = [] := by
    apply List.drop_of_length_le
    rw [List.length_replicate]
    exact Nat.le_of_eq full.symm
  rw [nothingLeft, List.append_nil] at received
  have delivered : (body.length : Int) ≠ -1 := by omega
  simp only [parseConnection, inbufSize] at received ⊢
  rw [received]
  exact congrArg some (parseInbuf_of_full delivered noNul now)

end WholeFrames

/-! ## The routine -/

/-- `event_routine` behind `parse_connection`. -/
def handleConnection (environment : Environment) (store : Store) :
    Except Fault Connection → Except Fault Outcome
  | .error fault => .error fault
  | .ok .refused => .ok { store := store, effects := [], exitFlag := false }
  | .ok (.invalid json) => .ok { store := store, effects := [.logErr json], exitFlag := false }
  | .ok (.message rc json data) =>
      if 0 < rc then dispatch environment store json data
      else .ok { store := store, effects := [], exitFlag := false }

/-- `event_routine`; `none` while the receiving loop goes on. -/
def eventRoutine {σ : Type} (kernel : Kernel σ) (deadline : Int) (fuel : Nat)
    (environment : Environment) (store : Store) (state : σ) : Option (Except Fault Outcome) :=
  (parseConnection kernel deadline fuel environment.now state).map
    (handleConnection environment store)

/-- A message that was encoded reaches the switch as it was meant. -/
theorem eventRoutine_of_encoded {σ : Type} {kernel : Kernel σ} {available : σ → Bytes}
    (delivers : DeliversAvailable kernel available) {data : DataWrapper} (valid : ValidText data)
    (short : (convertDatastructToChar data).bytes.length ≤ 511) {rest : Bytes} {state : σ}
    (stream : available state = frame (convertDatastructToChar data).bytes ++ rest) {fuel : Nat}
    (enough : 1 ≤ fuel) (deadline : Int) (environment : Environment) (store : Store) :
    eventRoutine kernel deadline fuel environment store state = some
      (dispatch environment store (convertDatastructToChar data)
        (arrival data environment.now)) := by
  have positive : 0 < ((convertDatastructToChar data).bytes.length : Int) := by
    have nonempty := nonempty_text data
    omega
  rw [eventRoutine, parseConnection_of_encoded delivers valid short stream enough]
  simp only [Option.map_some, handleConnection, if_pos positive]

/-- A request that `parse_connection` has accepted. -/
def Request.Accepted (request : Request) : Prop :=
  request.json.length ≤ 511 ∧
    convertStringToDatastruct request.json request.environment.now = .ok (some request.data)

theorem readText_eq_message {rc read : Int} {text json : CString} {now : Tm}
    {data : DataWrapper} (found : readText rc text now = .ok (.message read json data)) :
    read = rc ∧ json = text ∧ convertStringToDatastruct text now = .ok (some data) := by
  unfold readText at found
  split at found
  next => contradiction
  next => simp at found
  next decoded =>
    cases found
    exact ⟨rfl, rfl, decoded⟩

/-- A message that a connection brings was decoded from a text that fits `inbuf`
with its terminator. -/
theorem accepted_of_parseConnection {σ : Type} {kernel : Kernel σ} (within : RecvWithin kernel)
    {deadline rc : Int} {fuel : Nat} {environment : Environment} {state : σ} {json : CString}
    {data : DataWrapper}
    (parsed : parseConnection kernel deadline fuel environment.now state =
      some (.ok (.message rc json data))) :
    Request.Accepted { environment := environment, json := json, data := data } := by
  unfold parseConnection at parsed
  split at parsed
  next received =>
    have read := Option.some.inj parsed
    rcases torchatprotoMrecv_inbuf within received with refused | ⟨body, nonempty, fits, same, filled⟩
    · rw [parseInbuf, if_pos refused] at read
      simp at read
    · have delivered : ¬ (body.length : Int) = -1 := by omega
      rw [same, parseInbuf, if_neg delivered] at read
      split at read
      next => contradiction
      next terminated =>
        have readAs : readText body.length (CString.ofBytes _) environment.now = _ := read
        obtain ⟨_, isText, decoded⟩ := readText_eq_message readAs
        subst isText
        refine ⟨?_, decoded⟩
        have shorter := CString.length_ofBytes_lt (not_not.mp terminated)
        have length : (body ++ List.replicate (inbufSize - body.length) (0 : Byte)).length = 512 := by
          rw [List.length_append, List.length_replicate]
          exact Nat.add_sub_of_le fits
        rw [filled, length] at shorter
        rw [filled]
        exact Nat.le_of_lt_succ shorter
  next => simp at parsed
  next => simp at parsed

theorem streamKernel_recvWithin : RecvWithin streamKernel := by
  intro stream count
  unfold streamKernel
  dsimp only
  split
  · rfl
  · simp [RecvOutcome.clip]

theorem parsesBody_iff_hello :
    ParsesBody (fun now => parseConnection streamKernel 0 1 now (frame (ascii "hello"))) 5
      (ascii "hello") := by
  have nonempty : 1 ≤ (ascii "hello").length := by decide
  have inFrame : (ascii "hello").length ≤ 8188 := by decide
  have inBuffer : (ascii "hello").length ≤ inbufSize := by decide
  obtain ⟨after, received, _⟩ := torchatprotoMrecv_frame streamKernel_delivers nonempty inFrame
    inBuffer (Nat.le_refl 1) (List.append_nil _).symm 0 (List.replicate inbufSize 0)
  exact (parsesBody_iff streamKernel streamKernel_recvWithin 0 1 _ after 5 _ (ascii "hello")
    received (by decide) rfl (by decide)).mpr (by decide)

private theorem overread_of_full {body : Bytes} (full : body.length = inbufSize)
    (noNul : 0 ∉ body) :
    parseConnection streamKernel 0 1 sampleTime (frame body) = some (.error .outOfBounds) ∧
      ¬ ParsesBody (fun now => parseConnection streamKernel 0 1 now (frame body)) 512 body := by
  have stream : id (frame body) = frame body ++ [] := (List.append_nil _).symm
  have outside := parseConnection_of_full streamKernel_delivers full noNul stream
    (Nat.le_refl 1) 0 sampleTime
  exact ⟨outside, not_parsesBody_of_outOfBounds outside 512 body⟩

theorem full_buffer_is_overread :
    parseConnection streamKernel 0 1 sampleTime (frame (List.replicate 512 0x61)) =
        some (.error .outOfBounds) ∧
      ¬ ParsesBody
        (fun now => parseConnection streamKernel 0 1 now (frame (List.replicate 512 0x61))) 512
        (List.replicate 512 0x61) := by
  have noNul (count : Nat) : (0 : Byte) ∉ List.replicate count 0x61 := by
    intro zero
    have letter := List.eq_of_mem_replicate zero
    contradiction
  exact overread_of_full List.length_replicate (noNul 512)

end Torchat.Daemon
