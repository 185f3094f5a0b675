import Torchat.Daemon.Torchatproto

/-!
Contract: reception from a network that segments and delays.

Owns when the receiving loop ends, over every sequence of `recv` outcomes and
every clock, and for which segmentations of a frame it returns the payload. The
loop asks for the whole body on every iteration and forgets what it has read
before.

Does not own the sender.
-/

set_option autoImplicit false

namespace Torchat.Daemon

open Torchat.Foundation

/-! ## Any peer, any clock -/

/-- At most `count` bytes are delivered. -/
def RecvOutcome.clip (count : Nat) : RecvOutcome → RecvOutcome
  | .data bytes => .data (bytes.take count)
  | outcome => outcome

/-- A peer and a clock without any restraint: the outcome of every call of
`recv`, cut to the bytes asked for, and the reading of the clock behind it. -/
def scriptKernel (outcomes : Nat → RecvOutcome) (clock : Nat → Int) : Kernel Nat where
  recv calls count := ((outcomes calls).clip count, calls + 1)
  yield calls := calls
  now calls := clock calls

@[simp] theorem scriptKernel_recv (outcomes : Nat → RecvOutcome) (clock : Nat → Int)
    (calls count : Nat) :
    (scriptKernel outcomes clock).recv calls count = ((outcomes calls).clip count, calls + 1) :=
  rfl

@[simp] theorem scriptKernel_yield (outcomes : Nat → RecvOutcome) (clock : Nat → Int)
    (calls : Nat) : (scriptKernel outcomes clock).yield calls = calls := rfl

@[simp] theorem scriptKernel_now (outcomes : Nat → RecvOutcome) (clock : Nat → Int)
    (calls : Nat) : (scriptKernel outcomes clock).now calls = clock calls := rfl

/-- The number in the first four bytes. -/
def dimension (head : RecvOutcome) : Int :=
  parseDimension ((head.clip 4).fill (List.replicate 4 0))

/-- The call ends by returning -1 or the length in the header, and its assertion
does not fail. -/
def ReturnsOrRefuses (outcomes : Nat → RecvOutcome) (clock : Nat → Int) (maxLen : Nat)
    (deadline : Int) : Prop :=
  (∃ fuel rc buf calls,
      torchatprotoMrecv (scriptKernel outcomes clock) maxLen deadline fuel
          (List.replicate maxLen 0) 0 = .returned rc buf calls ∧
        (rc = -1 ∨ rc = dimension (outcomes 0))) ∧
    ∀ fuel calls,
      torchatprotoMrecv (scriptKernel outcomes clock) maxLen deadline fuel
        (List.replicate maxLen 0) 0 ≠ .assertFailed calls

/-- An outcome that ends the loop: a failure, or the whole body in one piece. -/
def EndsBody (len : Nat) : RecvOutcome → Prop
  | .error => True
  | .data bytes => len ≤ bytes.length
  | _ => False

/-- From some call on, the loop ends before a reading of the clock past the
deadline. -/
def EndsInTime (outcomes : Nat → RecvOutcome) (clock : Nat → Int) (len : Nat) (deadline : Int)
    (first : Nat) : Prop :=
  ∃ count, EndsBody len (outcomes (first + count)) ∧
    ∀ earlier, earlier < count → clock (first + earlier + 1) ≤ deadline

section Loop

variable {outcomes : Nat → RecvOutcome} {clock : Nat → Int} {len : Nat} {deadline : Int}

theorem EndsInTime.now {first : Nat} (ends : EndsBody len (outcomes first)) :
    EndsInTime outcomes clock len deadline first :=
  ⟨0, ends, fun _ before => absurd before (Nat.not_lt_zero _)⟩

theorem EndsInTime.later {first : Nat} (inTime : clock (first + 1) ≤ deadline)
    (ends : EndsInTime outcomes clock len deadline (first + 1)) :
    EndsInTime outcomes clock len deadline first := by
  obtain ⟨count, body, readings⟩ := ends
  refine ⟨count + 1, ?_, ?_⟩
  · have same : first + (count + 1) = first + 1 + count := by omega
    rw [same]
    exact body
  · intro earlier before
    cases earlier with
    | zero => exact inTime
    | succ earlier =>
        have same : first + (earlier + 1) + 1 = first + 1 + earlier + 1 := by omega
        rw [same]
        exact readings earlier (Nat.lt_of_succ_lt_succ before)

/-- Where the call at hand does not end the loop, a later one does. -/
theorem EndsInTime.next {first : Nat} (ends : EndsInTime outcomes clock len deadline first)
    (notYet : ¬ EndsBody len (outcomes first)) :
    clock (first + 1) ≤ deadline ∧ EndsInTime outcomes clock len deadline (first + 1) := by
  obtain ⟨count, body, readings⟩ := ends
  cases count with
  | zero => exact absurd body notYet
  | succ count =>
      refine ⟨readings 0 (Nat.succ_pos _), count, ?_, ?_⟩
      · have same : first + 1 + count = first + (count + 1) := by omega
        rw [same]
        exact body
      · intro earlier before
        have same : first + 1 + earlier + 1 = first + (earlier + 1) + 1 := by omega
        rw [same]
        exact readings (earlier + 1) (Nat.succ_lt_succ before)

/-- An iteration that ends the loop. -/
private theorem receiveBody_ends (clock : Nat → Int) (deadline : Int) {calls : Nat}
    (ends : EndsBody len (outcomes calls)) (fuel : Nat) (buf : Bytes) :
    ∃ rc after, receiveBody (scriptKernel outcomes clock) len deadline (fuel + 1) buf calls =
      .returned rc after (calls + 1) ∧ (rc = -1 ∨ rc = len) := by
  cases outcome : outcomes calls with
  | error =>
      refine ⟨-1, buf, ?_, Or.inl rfl⟩
      simp [receiveBody, outcome, RecvOutcome.clip, RecvOutcome.fill]
  | data bytes =>
      rw [outcome] at ends
      have whole : min len bytes.length = len := Nat.min_eq_left ends
      refine ⟨len, (RecvOutcome.data (bytes.take len)).fill buf, ?_, Or.inr rfl⟩
      simp [receiveBody, outcome, RecvOutcome.clip, RecvOutcome.rc, whole]
  | eof =>
      rw [outcome] at ends
      exact ends.elim
  | again =>
      rw [outcome] at ends
      exact ends.elim

/-- An iteration that does not. -/
private theorem receiveBody_waits {calls : Nat} (positive : 0 < len)
    (waits : ¬ EndsBody len (outcomes calls)) (fuel : Nat) (buf : Bytes) :
    receiveBody (scriptKernel outcomes clock) len deadline (fuel + 1) buf calls =
      if deadline < clock (calls + 1) then .assertFailed (calls + 1)
      else receiveBody (scriptKernel outcomes clock) len deadline fuel
        (((outcomes calls).clip len).fill buf) (calls + 1) := by
  have short : (outcomes calls).clip len ≠ .error ∧
      ¬ (len : Int) ≤ ((outcomes calls).clip len).rc := by
    cases outcome : outcomes calls with
    | error =>
        rw [outcome] at waits
        exact absurd trivial waits
    | data bytes =>
        rw [outcome] at waits
        have less : bytes.length < len := Nat.lt_of_not_le waits
        refine ⟨RecvOutcome.noConfusion, ?_⟩
        simp only [RecvOutcome.clip, RecvOutcome.rc, List.length_take]
        omega
    | eof =>
        refine ⟨RecvOutcome.noConfusion, ?_⟩
        simp only [RecvOutcome.clip, RecvOutcome.rc]
        omega
    | again =>
        refine ⟨RecvOutcome.noConfusion, ?_⟩
        simp only [RecvOutcome.clip, RecvOutcome.rc]
        omega
  show (if (outcomes calls).clip len = .error then _
    else if (len : Int) ≤ ((outcomes calls).clip len).rc then _ else _) = _
  rw [if_neg short.1, if_neg short.2]
  rfl

/-- A loop that ends in time returns. -/
private theorem receiveBody_returns (positive : 0 < len) {calls : Nat}
    (inTime : EndsInTime outcomes clock len deadline calls) (buf : Bytes) :
    ∃ fuel rc after last, receiveBody (scriptKernel outcomes clock) len deadline fuel buf calls =
      .returned rc after last ∧ (rc = -1 ∨ rc = len) := by
  obtain ⟨count, body, readings⟩ := inTime
  induction count generalizing calls buf with
  | zero =>
      obtain ⟨rc, after, returned, verdict⟩ := receiveBody_ends clock deadline body 0 buf
      exact ⟨1, rc, after, calls + 1, returned, verdict⟩
  | succ count inductionHypothesis =>
      by_cases ends : EndsBody len (outcomes calls)
      · obtain ⟨rc, after, returned, verdict⟩ := receiveBody_ends clock deadline ends 0 buf
        exact ⟨1, rc, after, calls + 1, returned, verdict⟩
      · have step : EndsInTime outcomes clock len deadline calls := ⟨count + 1, body, readings⟩
        obtain ⟨early, _⟩ := step.next ends
        have same : calls + 1 + count = calls + (count + 1) := by omega
        obtain ⟨fuel, rc, after, last, returned, verdict⟩ := inductionHypothesis
          (((outcomes calls).clip len).fill buf) (same ▸ body) (by
            intro earlier before
            have shifted : calls + 1 + earlier + 1 = calls + (earlier + 1) + 1 := by omega
            rw [shifted]
            exact readings (earlier + 1) (Nat.succ_lt_succ before))
        refine ⟨fuel + 1, rc, after, last, ?_, verdict⟩
        rw [receiveBody_waits positive ends, if_neg (by omega), returned]

/-- And it does not reach the assertion. -/
private theorem receiveBody_ne_assertFailed (positive : 0 < len) {calls : Nat}
    (inTime : EndsInTime outcomes clock len deadline calls) (fuel : Nat) (buf : Bytes)
    (last : Nat) :
    receiveBody (scriptKernel outcomes clock) len deadline fuel buf calls ≠
      .assertFailed last := by
  induction fuel generalizing calls buf with
  | zero => simp [receiveBody]
  | succ fuel inductionHypothesis =>
      by_cases ends : EndsBody len (outcomes calls)
      · obtain ⟨rc, after, returned, _⟩ := receiveBody_ends clock deadline ends fuel buf
        rw [returned]
        simp
      · obtain ⟨early, later⟩ := inTime.next ends
        rw [receiveBody_waits positive ends, if_neg (by omega)]
        exact inductionHypothesis later _

/-- Only a loop that ends in time returns. -/
private theorem endsInTime_of_returned (positive : 0 < len) {calls fuel : Nat} {buf : Bytes}
    {rc : Int} {after : Bytes} {last : Nat}
    (returned : receiveBody (scriptKernel outcomes clock) len deadline fuel buf calls =
      .returned rc after last) : EndsInTime outcomes clock len deadline calls := by
  induction fuel generalizing calls buf with
  | zero => simp [receiveBody] at returned
  | succ fuel inductionHypothesis =>
      by_cases ends : EndsBody len (outcomes calls)
      · exact EndsInTime.now ends
      · rw [receiveBody_waits positive ends] at returned
        split at returned
        · contradiction
        next early => exact EndsInTime.later (by omega) (inductionHypothesis returned)

/-- Once the clock passes the deadline, a loop that has not ended aborts. -/
private theorem receiveBody_aborts (positive : 0 < len) {calls : Nat}
    (late : ¬ EndsInTime outcomes clock len deadline calls) {more : Nat}
    (passed : deadline < clock (calls + more + 1)) (buf : Bytes) :
    ∃ fuel last, receiveBody (scriptKernel outcomes clock) len deadline fuel buf calls =
      .assertFailed last := by
  induction more generalizing calls buf with
  | zero =>
      have ends : ¬ EndsBody len (outcomes calls) := fun ends => late (EndsInTime.now ends)
      refine ⟨1, calls + 1, ?_⟩
      rw [receiveBody_waits positive ends]
      exact if_pos passed
  | succ more inductionHypothesis =>
      have ends : ¬ EndsBody len (outcomes calls) := fun ends => late (EndsInTime.now ends)
      by_cases now : deadline < clock (calls + 1)
      · refine ⟨1, calls + 1, ?_⟩
        rw [receiveBody_waits positive ends]
        exact if_pos now
      · have shifted : calls + (more + 1) + 1 = calls + 1 + more + 1 := by omega
        rw [shifted] at passed
        obtain ⟨fuel, last, aborted⟩ := inductionHypothesis
          (fun later => late (EndsInTime.later (by omega) later)) passed
          (((outcomes calls).clip len).fill buf)
        refine ⟨fuel + 1, last, ?_⟩
        rw [receiveBody_waits positive ends, if_neg now, aborted]

end Loop

/-! ## The whole call -/

section Call

variable (outcomes : Nat → RecvOutcome) (clock : Nat → Int) (maxLen : Nat) (deadline : Int)

/-- The header is no length that the buffer can take. -/
def HeadRefused : Prop := dimension (outcomes 0) ≤ 0 ∨ (maxLen : Int) < dimension (outcomes 0)

private theorem fdRecvDimensionhead_script :
    fdRecvDimensionhead (scriptKernel outcomes clock) 0 = (dimension (outcomes 0), 1) := by
  have zeroes : parseDimension (List.replicate 4 0) = -1 := by decide
  unfold dimension
  show (if (outcomes 0).clip 4 = .eof ∨ (outcomes 0).clip 4 = .error then _ else _) = _
  split
  next closed =>
    rcases closed with eof | error
    · rw [eof]
      exact Prod.ext zeroes.symm rfl
    · rw [error]
      exact Prod.ext zeroes.symm rfl
  next => rfl

private theorem torchatprotoMrecv_refused (refused : HeadRefused outcomes maxLen) (fuel : Nat)
    (buf : Bytes) :
    torchatprotoMrecv (scriptKernel outcomes clock) maxLen deadline fuel buf 0 =
      .returned (-1) buf 1 := by
  unfold torchatprotoMrecv
  rw [fdRecvDimensionhead_script]
  by_cases nonpositive : dimension (outcomes 0) ≤ 0
  · simp only [if_pos nonpositive]
  · have large : maxLen < (dimension (outcomes 0)).toNat := by
      rcases refused with small | large <;> omega
    simp only [if_neg nonpositive, if_pos large]

private theorem torchatprotoMrecv_body (passes : ¬ HeadRefused outcomes maxLen) (fuel : Nat)
    (buf : Bytes) :
    torchatprotoMrecv (scriptKernel outcomes clock) maxLen deadline fuel buf 0 =
      receiveBody (scriptKernel outcomes clock) (dimension (outcomes 0)).toNat deadline fuel
        buf 1 := by
  rw [HeadRefused, not_or] at passes
  have fits : ¬ maxLen < (dimension (outcomes 0)).toNat := by omega
  unfold torchatprotoMrecv
  rw [fdRecvDimensionhead_script]
  simp only [if_neg passes.1, if_neg fits]

/-- The call meets its promise exactly where the header is refused or the body
arrives whole, or the socket fails, before the deadline. In every other run the
assertion fails as soon as the clock passes the deadline. -/
theorem returnsOrRefuses_iff :
    (ReturnsOrRefuses outcomes clock maxLen deadline ↔
      HeadRefused outcomes maxLen ∨
        EndsInTime outcomes clock (dimension (outcomes 0)).toNat deadline 1) ∧
    (¬ (HeadRefused outcomes maxLen ∨
        EndsInTime outcomes clock (dimension (outcomes 0)).toNat deadline 1) →
      ∀ reading, deadline < clock (reading + 2) →
        ∃ fuel calls, torchatprotoMrecv (scriptKernel outcomes clock) maxLen deadline fuel
          (List.replicate maxLen 0) 0 = .assertFailed calls) := by
  by_cases refused : HeadRefused outcomes maxLen
  · have returned := torchatprotoMrecv_refused outcomes clock maxLen deadline refused
    refine ⟨⟨fun _ => Or.inl refused, fun _ => ⟨⟨0, -1, _, 1, returned 0 _, Or.inl rfl⟩, ?_⟩⟩,
      fun late => absurd (Or.inl refused) late⟩
    intro fuel calls
    rw [returned]
    simp
  · have body := torchatprotoMrecv_body outcomes clock maxLen deadline refused
    have positive : 0 < (dimension (outcomes 0)).toNat := by
      rw [HeadRefused, not_or] at refused
      omega
    have value : ((dimension (outcomes 0)).toNat : Int) = dimension (outcomes 0) := by omega
    refine ⟨⟨?_, ?_⟩, ?_⟩
    · rintro ⟨⟨fuel, rc, buf, calls, returned, _⟩, _⟩
      rw [body] at returned
      exact Or.inr (endsInTime_of_returned positive returned)
    · rintro (head | inTime)
      · exact absurd head refused
      · constructor
        · obtain ⟨fuel, rc, after, last, returned, verdict⟩ :=
            receiveBody_returns positive inTime (List.replicate maxLen 0)
          rw [value] at verdict
          exact ⟨fuel, rc, after, last, (body fuel _).trans returned, verdict⟩
        · intro fuel calls
          rw [body]
          exact receiveBody_ne_assertFailed positive inTime fuel _ calls
    · intro late reading passed
      have shifted : reading + 2 = 1 + reading + 1 := by omega
      rw [shifted] at passed
      obtain ⟨fuel, last, aborted⟩ := receiveBody_aborts positive
        (fun inTime => late (Or.inr inTime)) passed (List.replicate maxLen 0)
      exact ⟨fuel, last, (body fuel _).trans aborted⟩

end Call

/-- A peer that closes the connection behind its header, and one that is merely
slow, end the daemon. -/
theorem assertion_reached :
    ¬ ReturnsOrRefuses (fun call => if call = 0 then .data (ascii "0005") else .eof)
        (fun calls => 2000 * calls) 512 3000 ∧
      ¬ ReturnsOrRefuses (fun call => if call = 0 then .data (ascii "0005") else .again)
        (fun calls => 2000 * calls) 512 3000 := by
  constructor
  · rintro ⟨_, never⟩
    exact never 1 2 rfl
  · rintro ⟨_, never⟩
    exact never 1 2 rfl

/-! ## Segmentation -/

/-- A network that delivers its chunks one by one, each to one call of `recv` or
more where the call asks for less; `none` is a call that comes too early. The
deadline is never reached. -/
def chunkKernel : Kernel (List (Option Bytes)) where
  recv
    | [], _ => (.again, [])
    | none :: rest, _ => (.again, rest)
    | some chunk :: rest, count =>
        if chunk.length ≤ count then (.data chunk, rest)
        else (.data (chunk.take count), some (chunk.drop count) :: rest)
  yield schedule := schedule
  now _ := 0

def chunks (schedule : List (Option Bytes)) : List Bytes := schedule.filterMap id

/-- The chunks of a schedule are a way of splitting a frame. -/
structure SplitsFrame (schedule : List (Option Bytes)) (payload : Bytes) : Prop where
  whole : (chunks schedule).flatten = frame payload
  nonempty : ∀ chunk ∈ chunks schedule, chunk ≠ []

/-- The call returns the payload, as it does for a frame in one piece. -/
def ReceivesPayload (schedule : List (Option Bytes)) (payload : Bytes) (maxLen : Nat) : Prop :=
  ∃ fuel rest, torchatprotoMrecv chunkKernel maxLen 0 fuel (List.replicate maxLen 0) schedule =
    .returned payload.length (payload ++ List.replicate (maxLen - payload.length) 0) rest

/-- The header is there at the first call, and the frame comes in one piece or is
split once, between header and body. -/
def SplitAtBorder (schedule : List (Option Bytes)) (payload : Bytes) : Prop :=
  (∃ chunk rest, schedule = some chunk :: rest) ∧
    (chunks schedule = [frame payload] ∨
      chunks schedule = [generateDimensionHead payload.length, payload])

section Chunks

variable {len : Nat} {buf : Bytes}

private theorem receiveBody_chunk_none (rest : List (Option Bytes)) (fuel : Nat)
    (positive : 0 < len) :
    receiveBody chunkKernel len 0 (fuel + 1) buf (none :: rest) =
      receiveBody chunkKernel len 0 fuel buf rest := by
  have notEnough : ¬ (len : Int) ≤ -1 := by omega
  show (if (len : Int) ≤ -1 then _ else _) = _
  rw [if_neg notEnough]
  rfl

private theorem receiveBody_chunk_nil (fuel : Nat) (positive : 0 < len) :
    receiveBody chunkKernel len 0 (fuel + 1) buf [] =
      receiveBody chunkKernel len 0 fuel buf [] := by
  have notEnough : ¬ (len : Int) ≤ -1 := by omega
  show (if (len : Int) ≤ -1 then _ else _) = _
  rw [if_neg notEnough]
  rfl

private theorem receiveBody_chunk_short {chunk : Bytes} (short : chunk.length < len)
    (rest : List (Option Bytes)) (fuel : Nat) :
    receiveBody chunkKernel len 0 (fuel + 1) buf (some chunk :: rest) =
      receiveBody chunkKernel len 0 fuel (chunk ++ buf.drop chunk.length) rest := by
  have fits : chunk.length ≤ len := Nat.le_of_lt short
  have notEnough : ¬ (len : Int) ≤ chunk.length := by omega
  have recv : chunkKernel.recv (some chunk :: rest) len = (.data chunk, rest) := if_pos fits
  simp only [receiveBody, recv, reduceCtorEq, if_false, RecvOutcome.rc, if_neg notEnough]
  rfl

private theorem receiveBody_chunk_whole {chunk : Bytes} (whole : chunk.length = len)
    (rest : List (Option Bytes)) (fuel : Nat) :
    receiveBody chunkKernel len 0 (fuel + 1) buf (some chunk :: rest) =
      .returned len (chunk ++ buf.drop len) rest := by
  have recv : chunkKernel.recv (some chunk :: rest) len = (.data chunk, rest) :=
    if_pos (Nat.le_of_eq whole)
  simp [receiveBody, recv, RecvOutcome.rc, RecvOutcome.fill, whole]

/-- With less than the whole body left to come, the loop never returns. -/
private theorem receiveBody_starved {schedule : List (Option Bytes)}
    (less : (chunks schedule).flatten.length < len) (fuel : Nat) (buf : Bytes) :
    ∃ after rest, receiveBody chunkKernel len 0 fuel buf schedule = .pending after rest := by
  induction fuel generalizing buf schedule with
  | zero => exact ⟨buf, schedule, rfl⟩
  | succ fuel inductionHypothesis =>
      have positive : 0 < len := Nat.lt_of_le_of_lt (Nat.zero_le _) less
      match schedule with
      | [] =>
          rw [receiveBody_chunk_nil fuel positive]
          exact inductionHypothesis less buf
      | none :: rest =>
          rw [receiveBody_chunk_none rest fuel positive]
          have restLess : (chunks rest).flatten.length < len := less
          exact inductionHypothesis restLess buf
      | some chunk :: rest =>
          have split : (chunks (some chunk :: rest)).flatten = chunk ++ (chunks rest).flatten := rfl
          rw [split, List.length_append] at less
          rw [receiveBody_chunk_short (by omega) rest fuel]
          exact inductionHypothesis (by omega) _

/-- The first chunk decides: the whole body, or starvation. -/
private theorem receiveBody_first {schedule : List (Option Bytes)} {first : Bytes}
    {later : List Bytes} (split : chunks schedule = first :: later)
    (positive : 0 < len) (buf : Bytes) :
    (first.length = len → ∃ fuel rest,
      receiveBody chunkKernel len 0 fuel buf schedule = .returned len (first ++ buf.drop len) rest) ∧
    (first.length < len → later.flatten.length < len → ∀ fuel, ∃ after rest,
      receiveBody chunkKernel len 0 fuel buf schedule = .pending after rest) := by
  induction schedule with
  | nil => contradiction
  | cons event rest inductionHypothesis =>
      cases event with
      | none =>
          obtain ⟨whole, starved⟩ := inductionHypothesis split
          constructor
          · intro length
            obtain ⟨fuel, behind, returned⟩ := whole length
            exact ⟨fuel + 1, behind, (receiveBody_chunk_none rest fuel positive).trans returned⟩
          · intro short less fuel
            cases fuel with
            | zero => exact ⟨buf, _, rfl⟩
            | succ fuel =>
                rw [receiveBody_chunk_none rest fuel positive]
                exact starved short less fuel
      | some chunk =>
          have heads : chunk = first ∧ chunks rest = later := List.cons.inj split
          obtain ⟨rfl, tails⟩ := heads
          refine ⟨fun length => ⟨1, rest, receiveBody_chunk_whole length rest 0⟩, ?_⟩
          intro short less fuel
          cases fuel with
          | zero => exact ⟨buf, _, rfl⟩
          | succ fuel =>
              rw [receiveBody_chunk_short short rest fuel]
              exact receiveBody_starved (tails ▸ less) fuel _

/-- A header that is not there at once, or not whole, is refused. -/
private theorem fdRecvDimensionhead_early (rest : List (Option Bytes)) :
    fdRecvDimensionhead chunkKernel (none :: rest) = (-1, rest) := rfl

private theorem fdRecvDimensionhead_cut {chunk : Bytes} (cut : chunk.length < 4)
    (rest : List (Option Bytes)) :
    fdRecvDimensionhead chunkKernel (some chunk :: rest) = (-1, rest) := by
  have recv : chunkKernel.recv (some chunk :: rest) 4 = (.data chunk, rest) :=
    if_pos (Nat.le_of_lt cut)
  have zero : (0 : Byte) ∈ chunk ++ (List.replicate 4 0).drop chunk.length := by
    rw [List.drop_replicate]
    apply List.mem_append_right
    rw [List.mem_replicate]
    exact ⟨by omega, rfl⟩
  have noDigits : ¬ (chunk ++ (List.replicate 4 0).drop chunk.length).all isDigit = true := by
    rw [List.all_eq_true]
    intro digits
    have zeroDigit := digits 0 zero
    revert zeroDigit
    decide
  simp only [fdRecvDimensionhead, recv, reduceCtorEq, or_self, if_false, RecvOutcome.fill,
    parseDimension, if_neg noDigits]

/-- The schedule behind a header that is there. -/
private theorem fdRecvDimensionhead_there {chunk rest : Bytes} {payload : Bytes}
    (small : payload.length < 10000) (long : 4 ≤ chunk.length)
    (front : chunk ++ rest = frame payload) (later : List (Option Bytes)) :
    fdRecvDimensionhead chunkKernel (some chunk :: later) =
      ((payload.length : Int),
        if chunk.length = 4 then later else some (chunk.drop 4) :: later) ∧
      chunk.drop 4 ++ rest = payload := by
  have headLength := length_generateDimensionHead payload.length
  have head : chunk.take 4 = generateDimensionHead payload.length := by
    have taken := congrArg (List.take 4) front
    rw [List.take_append_of_le_length long, frame, List.take_left' headLength] at taken
    exact taken
  have tail : chunk.drop 4 ++ rest = payload := by
    have dropped := congrArg (List.drop 4) front
    rw [List.drop_append_of_le_length long, frame, List.drop_left' headLength] at dropped
    exact dropped
  have filled : (RecvOutcome.data (generateDimensionHead payload.length)).fill
      (List.replicate 4 0) = generateDimensionHead payload.length := by
    simp [RecvOutcome.fill]
  refine ⟨?_, tail⟩
  have recv : chunkKernel.recv (some chunk :: later) 4 =
      (.data (generateDimensionHead payload.length),
        if chunk.length = 4 then later else some (chunk.drop 4) :: later) := by
    by_cases exact_ : chunk.length = 4
    · have whole : chunk = generateDimensionHead payload.length := by
        rw [← head, List.take_of_length_le (Nat.le_of_eq exact_)]
      rw [if_pos exact_, ← whole]
      exact if_pos (Nat.le_of_eq exact_)
    · rw [if_neg exact_, ← head]
      exact if_neg (by omega)
  simp only [fdRecvDimensionhead, recv, reduceCtorEq, or_self, if_false, filled,
    parseDimension_generateDimensionHead small]

end Chunks

/-- Behind a header that is there, the first chunk has to be the body. -/
private theorem receivesPayload_behind_head {schedule state : List (Option Bytes)}
    {payload first : Bytes} {later : List Bytes} {maxLen : Nat}
    (nonempty : 1 ≤ payload.length) (room : payload.length ≤ maxLen)
    (head : fdRecvDimensionhead chunkKernel schedule = ((payload.length : Int), state))
    (split : chunks state = first :: later) (firstNonempty : first ≠ [])
    (whole : first ++ later.flatten = payload) :
    ReceivesPayload schedule payload maxLen ↔ first = payload := by
  have positive : ¬ (payload.length : Int) ≤ 0 := by omega
  have fits : ¬ maxLen < payload.length := by omega
  have call (fuel : Nat) :
      torchatprotoMrecv chunkKernel maxLen 0 fuel (List.replicate maxLen 0) schedule =
        receiveBody chunkKernel payload.length 0 fuel (List.replicate maxLen 0) state := by
    simp only [torchatprotoMrecv, head, if_neg positive, Int.toNat_natCast, if_neg fits]
  obtain ⟨arrives, starves⟩ :=
    receiveBody_first split (Nat.lt_of_lt_of_le Nat.zero_lt_one nonempty) (List.replicate maxLen 0)
  constructor
  · rintro ⟨fuel, rest, returned⟩
    by_contra different
    have lengths := congrArg List.length whole
    rw [List.length_append] at lengths
    have firstLength : 0 < first.length := List.length_pos_iff.mpr firstNonempty
    have short : first.length < payload.length := by
      by_contra long
      have laterNil : later.flatten = [] := List.eq_nil_of_length_eq_zero (by omega)
      rw [laterNil, List.append_nil] at whole
      exact different whole
    obtain ⟨after, last, pending⟩ := starves short (by omega) fuel
    rw [call, pending] at returned
    contradiction
  · rintro rfl
    obtain ⟨fuel, rest, returned⟩ := arrives rfl
    refine ⟨fuel, rest, ?_⟩
    rw [call, returned, List.drop_replicate]

private theorem flatten_eq_nil {later : List Bytes} (nonempty : ∀ chunk ∈ later, chunk ≠ [])
    (empty : later.flatten = []) : later = [] := by
  cases later with
  | nil => rfl
  | cons chunk others =>
      rw [List.flatten_cons, List.append_eq_nil_iff] at empty
      exact absurd empty.1 (nonempty chunk List.mem_cons_self)

/-- A header that is refused ends the call. -/
private theorem not_receivesPayload_of_refused {schedule state : List (Option Bytes)}
    {payload : Bytes} (maxLen : Nat)
    (head : fdRecvDimensionhead chunkKernel schedule = (-1, state)) :
    ¬ ReceivesPayload schedule payload maxLen := by
  rintro ⟨fuel, last, returned⟩
  have minusOne : (-1 : Int) ≤ 0 := by decide
  simp only [torchatprotoMrecv, head, if_pos minusOne, Received.returned.injEq] at returned
  have natural := returned.1
  omega

private theorem splitAtBorder_cons (chunk : Bytes) (rest : List (Option Bytes))
    (payload : Bytes) :
    SplitAtBorder (some chunk :: rest) payload ↔
      (chunk = frame payload ∧ chunks rest = []) ∨
        (chunk = generateDimensionHead payload.length ∧ chunks rest = [payload]) := by
  have all : chunks (some chunk :: rest) = chunk :: chunks rest := rfl
  have there : ∃ first later, (some chunk :: rest : List (Option Bytes)) = some first :: later :=
    ⟨chunk, rest, rfl⟩
  rw [SplitAtBorder, all, List.cons.injEq, List.cons.injEq]
  exact and_iff_right there

section FirstChunk

variable {chunk payload : Bytes} {rest : List (Option Bytes)} {maxLen : Nat}

/-- The first chunk is the header; the body is what follows. -/
private theorem receivesPayload_at_border (nonempty : 1 ≤ payload.length)
    (digits : payload.length ≤ 9999) (room : payload.length ≤ maxLen)
    (restNonempty : ∀ later ∈ chunks rest, later ≠ [])
    (front : chunk ++ (chunks rest).flatten = frame payload) (border : chunk.length = 4) :
    ReceivesPayload (some chunk :: rest) payload maxLen ↔
      SplitAtBorder (some chunk :: rest) payload := by
  obtain ⟨head, tail⟩ :=
    fdRecvDimensionhead_there (Nat.lt_succ_of_le digits) (Nat.le_of_eq border.symm) front rest
  rw [if_pos border] at head
  rw [List.drop_of_length_le (Nat.le_of_eq border), List.nil_append] at tail
  rw [splitAtBorder_cons]
  cases body : chunks rest with
  | nil =>
      rw [body] at tail
      rw [← tail] at nonempty
      exact absurd nonempty (by simp)
  | cons first later =>
      rw [body] at front tail restNonempty
      rw [List.flatten_cons] at tail
      rw [receivesPayload_behind_head nonempty room head body
        (restNonempty first List.mem_cons_self) tail]
      constructor
      · rintro rfl
        have none_ : later = [] := flatten_eq_nil
          (fun chunk member => restNonempty chunk (List.mem_cons_of_mem _ member))
          (List.self_eq_append_right.mp tail.symm)
        rw [none_] at front
        right
        exact ⟨List.append_cancel_right (front.trans (by simp [frame])), by rw [none_]⟩
      · rintro (⟨_, noBody⟩ | ⟨_, body⟩)
        · contradiction
        · exact (List.cons.inj body).1

/-- The first chunk goes beyond the header; the body begins with what is left
of it. -/
private theorem receivesPayload_behind_border (nonempty : 1 ≤ payload.length)
    (digits : payload.length ≤ 9999) (room : payload.length ≤ maxLen)
    (restNonempty : ∀ later ∈ chunks rest, later ≠ [])
    (front : chunk ++ (chunks rest).flatten = frame payload) (long : 4 < chunk.length) :
    ReceivesPayload (some chunk :: rest) payload maxLen ↔
      SplitAtBorder (some chunk :: rest) payload := by
  have headLength := length_generateDimensionHead payload.length
  obtain ⟨head, tail⟩ :=
    fdRecvDimensionhead_there (Nat.lt_succ_of_le digits) (Nat.le_of_lt long) front rest
  rw [if_neg (Nat.ne_of_gt long)] at head
  have split : chunks (some (chunk.drop 4) :: rest) = chunk.drop 4 :: chunks rest := rfl
  have dropNonempty : chunk.drop 4 ≠ [] := by
    intro empty
    have lengths := congrArg List.length empty
    rw [List.length_drop, List.length_nil] at lengths
    omega
  rw [receivesPayload_behind_head nonempty room head split dropNonempty tail, splitAtBorder_cons]
  constructor
  · intro body
    rw [body] at tail
    have empty : (chunks rest).flatten = [] := List.self_eq_append_right.mp tail.symm
    rw [empty, List.append_nil] at front
    left
    exact ⟨front, flatten_eq_nil restNonempty empty⟩
  · rintro (⟨same, _⟩ | ⟨same, _⟩)
    · rw [same, frame, List.drop_left' headLength]
    · rw [same] at long
      omega

/-- The first chunk is cut inside the header. -/
private theorem not_splitAtBorder_of_cut (cut : chunk.length < 4) :
    ¬ SplitAtBorder (some chunk :: rest) payload := by
  have headLength := length_generateDimensionHead payload.length
  rw [splitAtBorder_cons]
  rintro (⟨same, _⟩ | ⟨same, _⟩)
  · rw [same, length_frame] at cut
    omega
  · rw [same] at cut
    omega

end FirstChunk

/-- A frame is received exactly where it is not cut, or only between its header
and its body, and its header is there at the first call. -/
theorem receivesPayload_iff (schedule : List (Option Bytes)) (payload : Bytes) (maxLen : Nat)
    (nonempty : 1 ≤ payload.length) (digits : payload.length ≤ 9999)
    (room : payload.length ≤ maxLen) (splits : SplitsFrame schedule payload) :
    ReceivesPayload schedule payload maxLen ↔ SplitAtBorder schedule payload := by
  cases schedule with
  | nil =>
      have lengths := congrArg List.length splits.whole
      rw [length_frame] at lengths
      have none_ : (chunks []).flatten.length = 0 := rfl
      omega
  | cons event rest =>
      cases event with
      | none =>
          refine iff_of_false
            (not_receivesPayload_of_refused maxLen (fdRecvDimensionhead_early rest)) ?_
          rintro ⟨⟨chunk, later, same⟩, _⟩
          simp at same
      | some chunk =>
          have front : chunk ++ (chunks rest).flatten = frame payload := splits.whole
          have restNonempty : ∀ later ∈ chunks rest, later ≠ [] := fun later member =>
            splits.nonempty later (List.mem_cons_of_mem _ member)
          rcases Nat.lt_trichotomy chunk.length 4 with cut | border | long
          · exact iff_of_false
              (not_receivesPayload_of_refused maxLen (fdRecvDimensionhead_cut cut rest))
              (not_splitAtBorder_of_cut cut)
          · exact receivesPayload_at_border nonempty digits room restNonempty front border
          · exact receivesPayload_behind_border nonempty digits room restNonempty front long

theorem receivesPayload_iff_hello :
    ReceivesPayload [some (ascii "0005"), none, none, some (ascii "hello")] (ascii "hello") 512 :=
  (receivesPayload_iff _ _ _ (by decide) (by decide) (by decide) ⟨by decide, by decide⟩).mpr
    ⟨⟨_, _, rfl⟩, Or.inr (by decide)⟩

/-- A cut inside the body, and one inside the header. -/
theorem segmentation_matters :
    (SplitsFrame [some (ascii "0005he"), some (ascii "llo")] (ascii "hello") ∧
      ¬ ReceivesPayload [some (ascii "0005he"), some (ascii "llo")] (ascii "hello") 512) ∧
    (SplitsFrame [some (ascii "00"), some (ascii "05hello")] (ascii "hello") ∧
      ¬ ReceivesPayload [some (ascii "00"), some (ascii "05hello")] (ascii "hello") 512) := by
  refine ⟨⟨⟨by decide, by decide⟩, ?_⟩, ⟨⟨by decide, by decide⟩, ?_⟩⟩
  · have head : fdRecvDimensionhead chunkKernel [some (ascii "0005he"), some (ascii "llo")] =
        (((ascii "hello").length : Int), [some (ascii "he"), some (ascii "llo")]) := by decide
    have body : chunks [some (ascii "he"), some (ascii "llo")] = ascii "he" :: [ascii "llo"] := rfl
    rw [receivesPayload_behind_head (by decide) (by decide) head body (by decide) (by decide)]
    decide
  · exact not_receivesPayload_of_refused 512 (fdRecvDimensionhead_cut (by decide) _)

end Torchat.Daemon
