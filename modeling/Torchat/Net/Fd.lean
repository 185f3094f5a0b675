import Torchat.Net.Iol
import Torchat.Daemon.Torchatproto

/-!
Contract: `fd_send` over a socket that takes as much as it likes at a time.

Owns the loop over the array of buffers with its partial writes and its waiting, the
sender of `torchatproto.c` over it, and that what a call reports is what it has written:
the messages that were reported as sent are those that a receiver gets.

Does not own the socket: `sendmsg` and `fdout` are arguments.
-/

set_option autoImplicit false

namespace Torchat.Net

open Torchat.Foundation
open Torchat.Foundation.Heap
open Torchat.Daemon (Fault bind_eq_ok frame Kernel DeliversAvailable receiveAll)

/-- The values of `errno` that the functions tell apart, and the others. -/
inductive Errno where
  | again
  | pipe
  | connreset
  | inval
  | msgsize
  | other (code : Nat)
deriving DecidableEq

/-- The sender's side of the system: what `sendmsg` takes of the buffers, or why it takes
nothing, and why `fdout` has stopped waiting, if not because the socket is writable. -/
structure SendKernel (σ : Type) where
  sendmsg : σ → List Bytes → Except Errno Nat × σ
  fdout : σ → Int → Option Errno × σ

/-- How a call stands after a number of iterations. -/
inductive Sent (σ : Type) where
  | done (state : σ)
  | failed (errno : Errno) (state : σ)
  | assertFailed (state : σ)
  | pending (state : σ)

def Sent.state {σ : Type} : Sent σ → σ
  | .done state | .failed _ state | .assertFailed state | .pending state => state

/-! ## The loops -/

/-- Leading buffers without bytes are passed over. -/
def skipEmpty (iov : List Bytes) : List Bytes := iov.dropWhile List.isEmpty

/-- The array without `sz` bytes that were sent; `none` where no buffer is left. -/
def dropSent : Nat → List Bytes → Option (List Bytes)
  | 0, iov => some iov
  | _ + 1, [] => none
  | sz + 1, head :: rest =>
      if sz + 1 < head.length then some (head.drop (sz + 1) :: rest)
      else if rest = [] then none
      else dropSent (sz + 1 - head.length) rest

section Send

variable {σ : Type}

/-- Wait until more data can be sent, and go on. -/
def fdWait (kernel : SendKernel σ) (deadline : Int) (continue_ : σ → Sent σ) (state : σ) :
    Sent σ :=
  match kernel.fdout state deadline with
  | (some errno, state) => .failed errno state
  | (none, state) => continue_ state

/-- The loop of `fd_send`; it takes one of `fuel` for each call of `sendmsg`. -/
def fdSendLoop (kernel : SendKernel σ) (deadline : Int) : Nat → List Bytes → σ → Sent σ
  | 0, _, state => .pending state
  | fuel + 1, iov, state =>
      let iov := skipEmpty iov
      if iov = [] then .done state
      else
        match kernel.sendmsg state iov with
        | (.ok 0, state) => .assertFailed state
        | (.ok sz, state) =>
            match dropSent sz iov with
            | none => .done state
            | some iov => fdWait kernel deadline (fdSendLoop kernel deadline fuel iov) state
        | (.error .again, state) =>
            fdWait kernel deadline (fdSendLoop kernel deadline fuel iov) state
        | (.error .pipe, state) => .failed .connreset state
        | (.error errno, state) => .failed errno state

/-- `fd_send`. -/
def fdSend (kernel : SendKernel σ) (deadline : Int) (fuel : Nat) (iols : Heap (Iolist Bytes))
    (first last : Option Address) (state : σ) : Except Fault (Sent σ × Heap (Iolist Bytes)) := do
  let (checked, iols) ← iolCheck iols first last
  match checked with
  | none => .ok (.failed .inval state, iols)
  | some (niov, _) => do
      let iov ← iolToiov iols niov first
      .ok (fdSendLoop kernel deadline fuel iov state, iols)

/-! ## The sender of messages -/

/-- The sum of the lengths in `torchatproto_msendl`. -/
def iolSize {β : Type} [Buffer β] (iols : Heap (Iolist β)) : Nat → Option Address → Except Fault Nat
  | _, none => .ok 0
  | 0, some _ => .error .endlessLoop
  | fuel + 1, some it => do
      let iol ← loadIol iols it
      let sz ← iolSize iols fuel iol.iolNext
      .ok ((iol.iolLen + sz) % 2 ^ 64)

/-- `torchatproto_msendl`. -/
def torchatprotoMsendl (kernel : SendKernel σ) (deadline : Int) (fuel : Nat)
    (iols : Heap (Iolist Bytes)) (first last : Option Address) (state : σ) :
    Except Fault (Sent σ × Heap (Iolist Bytes)) := do
  let sz ← iolSize iols iols.limit first
  if 8192 < sz then .ok (.failed .msgsize state, iols)
  else fdSend kernel deadline fuel iols first last state

/-- `torchatproto_msend`: a list of one buffer with the header and the payload. -/
def torchatprotoMsend (kernel : SendKernel σ) (deadline : Int) (fuel : Nat) (payload : Bytes)
    (state : σ) : Except Fault (Sent σ) := do
  let (iol, iols) := Heap.empty.alloc ⟨frame payload, none, 0⟩
  let (sent, _) ← torchatprotoMsendl kernel deadline fuel iols (some iol) (some iol) state
  .ok sent

/-- Payloads one after the other, up to the first that fails; with the number of those
that were reported as sent. -/
def sendMessages (kernel : SendKernel σ) (deadline : Int) : List Bytes → σ →
    Except Fault (Nat × σ)
  | [], state => .ok (0, state)
  | payload :: rest, state => do
      match ← torchatprotoMsend kernel deadline (payload.length + 6) payload state with
      | .done state => do
          let (count, state) ← sendMessages kernel deadline rest state
          .ok (count + 1, state)
      | .failed _ state => .ok (0, state)
      | .assertFailed _ => .error .assertionFailed
      | .pending _ => .error .endlessLoop

end Send

/-! ## What the socket promises -/

section Spec

variable {σ : Type}

/-- `sendmsg` takes bytes from the front of the buffers, at least one and at most all of
them, or it takes none and fails; waiting writes nothing. -/
structure Writes (kernel : SendKernel σ) (written : σ → Bytes) : Prop where
  sent : ∀ state iov count after, iov.flatten ≠ [] →
    kernel.sendmsg state iov = (.ok count, after) →
      0 < count ∧ count ≤ iov.flatten.length ∧
        written after = written state ++ iov.flatten.take count
  refused : ∀ state iov errno after, kernel.sendmsg state iov = (.error errno, after) →
    written after = written state
  waited : ∀ state deadline, written (kernel.fdout state deadline).2 = written state

/-- Where `fdout` found the socket writable, the next `sendmsg` does not have to wait. -/
structure Prompt (kernel : SendKernel σ) (ready : σ → Prop) : Prop where
  opened : ∀ state deadline after, kernel.fdout state deadline = (none, after) → ready after
  takes : ∀ state iov after, ready state → iov.flatten ≠ [] →
    kernel.sendmsg state iov ≠ (.error .again, after)

/-- The last buffer has bytes. -/
def EndsFull (iov : List Bytes) : Prop := ∃ front last, iov = front ++ [last] ∧ last ≠ []

/-- What a call reports about the bytes that are left. -/
def Sent.Reports (iov : List Bytes) (left : Bytes) : Sent σ → Prop
  | .done _ => left = []
  | .assertFailed _ => False
  | .failed _ _ | .pending _ => EndsFull iov → left ≠ []

def Sent.Pending : Sent σ → Prop
  | .pending _ => True
  | _ => False

/-! ## The array of buffers -/

section Array

variable {iov rest : List Bytes} {head : Bytes}

theorem flatten_skipEmpty (iov : List Bytes) : (skipEmpty iov).flatten = iov.flatten := by
  induction iov with
  | nil => rfl
  | cons head rest inductionHypothesis =>
      unfold skipEmpty at inductionHypothesis ⊢
      rw [List.dropWhile_cons]
      split
      next empty => rw [inductionHypothesis, List.flatten_cons, List.isEmpty_iff.mp empty]; rfl
      · rfl

theorem flatten_ne_nil_of_skipEmpty (some_ : skipEmpty iov ≠ []) : iov.flatten ≠ [] := by
  induction iov with
  | nil => exact absurd rfl some_
  | cons head rest inductionHypothesis =>
      cases head with
      | nil => exact inductionHypothesis some_
      | cons byte bytes => simp

theorem EndsFull.flatten_ne_nil (full : EndsFull iov) : iov.flatten ≠ [] := by
  obtain ⟨front, last, rfl, bytes⟩ := full
  simp [bytes]

theorem EndsFull.tail (full : EndsFull (head :: rest)) (more : rest ≠ []) : EndsFull rest := by
  obtain ⟨front, last, same, bytes⟩ := full
  cases front with
  | nil => exact absurd (List.cons.inj same).2 more
  | cons first others => exact ⟨others, last, (List.cons.inj same).2, bytes⟩

theorem EndsFull.cons (full : EndsFull rest) (head : Bytes) : EndsFull (head :: rest) := by
  obtain ⟨front, last, rfl, bytes⟩ := full
  exact ⟨head :: front, last, rfl, bytes⟩

theorem EndsFull.skipEmpty (full : EndsFull iov) : EndsFull (skipEmpty iov) := by
  induction iov with
  | nil => exact full
  | cons head rest inductionHypothesis =>
      cases head with
      | cons byte bytes => exact full
      | nil =>
          refine inductionHypothesis (full.tail ?_)
          rintro rfl
          exact full.flatten_ne_nil rfl

/-- Behind the bytes that were sent the array holds the others. -/
theorem dropSent_spec {count : Nat} (inside : count ≤ iov.flatten.length) :
    (dropSent count iov = none ∧ count = iov.flatten.length) ∨
      ∃ rest, dropSent count iov = some rest ∧ rest.flatten = iov.flatten.drop count ∧
        (EndsFull iov → EndsFull rest) := by
  induction iov generalizing count with
  | nil =>
      cases Nat.le_zero.mp inside
      exact Or.inr ⟨[], rfl, rfl, id⟩
  | cons head rest inductionHypothesis =>
      cases count with
      | zero => exact Or.inr ⟨head :: rest, rfl, rfl, id⟩
      | succ sz =>
          rw [List.flatten_cons, List.length_append] at inside
          unfold dropSent
          by_cases within : sz + 1 < head.length
          · refine Or.inr ⟨_, if_pos within, ?_, fun full => ?_⟩
            · rw [List.flatten_cons, List.flatten_cons,
                List.drop_append_of_le_length (Nat.le_of_lt within)]
            · by_cases alone : rest = []
              · subst alone
                refine ⟨[], _, rfl, ?_⟩
                rw [Ne, List.drop_eq_nil_iff]
                omega
              · exact (full.tail alone).cons _
          · rw [if_neg within]
            by_cases alone : rest = []
            · subst alone
              rw [List.flatten_nil, List.length_nil] at inside
              refine Or.inl ⟨if_pos rfl, ?_⟩
              rw [List.flatten_cons, List.flatten_nil, List.append_nil]
              omega
            · rw [if_neg alone, List.flatten_cons, List.length_append]
              have shorter : sz + 1 - head.length ≤ rest.flatten.length := by omega
              rcases inductionHypothesis shorter with
                ⟨ended, all⟩ | ⟨left, some_, same, full⟩
              · exact Or.inl ⟨ended, by omega⟩
              · refine Or.inr ⟨left, some_, ?_, fun whole => full (whole.tail alone)⟩
                rw [same, List.drop_append, List.drop_eq_nil_of_le (Nat.le_of_not_lt within),
                  List.nil_append]

end Array

/-! ## One call -/

section Calls

variable {kernel : SendKernel σ} {written : σ → Bytes} {deadline : Int}

/-- Waiting changes nothing in what is written and left. -/
private theorem fdWait_spec (writes : Writes kernel written) {iov rest : List Bytes}
    (full : EndsFull iov → EndsFull rest) (continue_ : σ → Sent σ) (state : σ)
    (spec : ∀ next, ∃ sent left, sent ++ left = rest.flatten ∧
      written (continue_ next).state = written next ++ sent ∧ (continue_ next).Reports rest left) :
    ∃ sent left, sent ++ left = rest.flatten ∧
      written (fdWait kernel deadline continue_ state).state = written state ++ sent ∧
      (fdWait kernel deadline continue_ state).Reports iov left := by
  have same := writes.waited state deadline
  unfold fdWait
  split
  next errno next waited =>
    rw [waited] at same
    refine ⟨[], rest.flatten, rfl, ?_, fun whole => (full whole).flatten_ne_nil⟩
    rw [List.append_nil]
    exact same
  next next waited =>
    rw [waited] at same
    obtain ⟨sent, left, split, wrote, reports⟩ := spec next
    refine ⟨sent, left, split, by rw [wrote, same], ?_⟩
    cases out : continue_ next with
    | done | assertFailed =>
        rw [out] at reports
        exact reports
    | failed | pending =>
        rw [out] at reports
        exact fun whole => reports (full whole)

/-- Whatever the socket takes at a time, the bytes that are written are the first ones,
and all of them exactly where the call says so. -/
theorem fdSendLoop_spec (writes : Writes kernel written) (deadline : Int) (fuel : Nat)
    (iov : List Bytes) (state : σ) :
    ∃ sent left, sent ++ left = iov.flatten ∧
      written (fdSendLoop kernel deadline fuel iov state).state = written state ++ sent ∧
      (fdSendLoop kernel deadline fuel iov state).Reports iov left := by
  induction fuel generalizing iov state with
  | zero =>
      refine ⟨[], iov.flatten, rfl, by simp [fdSendLoop, Sent.state], ?_⟩
      exact EndsFull.flatten_ne_nil
  | succ fuel inductionHypothesis =>
      rw [← flatten_skipEmpty iov]
      unfold fdSendLoop
      by_cases ended : skipEmpty iov = []
      · refine ⟨[], [], by rw [ended]; rfl, ?_, ?_⟩
        · simp only [ended, if_true, Sent.state, List.append_nil]
        · simp only [ended, if_true]
          rfl
      have some_ : (skipEmpty iov).flatten ≠ [] := by
        rw [flatten_skipEmpty]
        exact flatten_ne_nil_of_skipEmpty ended
      simp only [if_neg ended]
      split
      next next sent =>
        exact absurd (writes.sent _ _ _ _ some_ sent).1 (Nat.lt_irrefl 0)
      next sz next _ sent =>
        obtain ⟨_, inside, wrote⟩ := writes.sent _ _ _ _ some_ sent
        rcases dropSent_spec inside with ⟨none_, all⟩ | ⟨rest, left, same, full⟩
        · refine ⟨(skipEmpty iov).flatten, [], by simp, ?_, ?_⟩
          · simp only [none_, Sent.state]
            rw [wrote, all, List.take_length]
          · simp only [none_]
            rfl
        · simp only [left]
          obtain ⟨sent, behind, split, wroteMore, reports⟩ := fdWait_spec writes
            (fun whole : EndsFull iov => full whole.skipEmpty) _ next (inductionHypothesis rest)
          refine ⟨(skipEmpty iov).flatten.take sz ++ sent, behind, ?_, ?_, reports⟩
          · rw [List.append_assoc, split, same, List.take_append_drop]
          · rw [wroteMore, wrote, List.append_assoc]
      next next refused =>
        have same := writes.refused _ _ _ _ refused
        obtain ⟨sent, behind, split, wrote, reports⟩ := fdWait_spec writes
          EndsFull.skipEmpty _ next (inductionHypothesis (skipEmpty iov))
        exact ⟨sent, behind, split, by rw [wrote, same], reports⟩
      next next refused =>
        have same := writes.refused _ _ _ _ refused
        exact ⟨[], _, rfl, by rw [List.append_nil]; exact same, fun _ => some_⟩
      next errno next _ _ refused =>
        have same := writes.refused _ _ _ _ refused
        exact ⟨[], _, rfl, by rw [List.append_nil]; exact same, fun _ => some_⟩

private theorem fdWait_not_pending {ready : σ → Prop} (prompt : Prompt kernel ready)
    {continue_ : σ → Sent σ} (ends : ∀ next, ready next → ¬ (continue_ next).Pending)
    (state : σ) : ¬ (fdWait kernel deadline continue_ state).Pending := by
  unfold fdWait
  split
  · exact id
  next next waited => exact ends next (prompt.opened _ _ _ waited)

/-- A call on a socket that takes something whenever it is writable ends. -/
theorem fdSendLoop_ends {ready : σ → Prop} (writes : Writes kernel written)
    (prompt : Prompt kernel ready) {fuel : Nat} {iov : List Bytes} {state : σ}
    (enough : iov.flatten.length + 1 < fuel ∨ ready state ∧ iov.flatten.length < fuel) :
    ¬ (fdSendLoop kernel deadline fuel iov state).Pending := by
  induction fuel generalizing iov state with
  | zero => omega
  | succ fuel inductionHypothesis =>
      rw [← flatten_skipEmpty iov] at enough
      unfold fdSendLoop
      by_cases ended : skipEmpty iov = []
      · simp only [ended, if_true]
        exact id
      have some_ : (skipEmpty iov).flatten ≠ [] := by
        rw [flatten_skipEmpty]
        exact flatten_ne_nil_of_skipEmpty ended
      simp only [if_neg ended]
      split
      · exact id
      next sz next _ sent =>
        obtain ⟨positive, inside, _⟩ := writes.sent _ _ _ _ some_ sent
        rcases dropSent_spec inside with ⟨none_, _⟩ | ⟨rest, left, same, _⟩
        · simp only [none_]
          exact id
        · simp only [left]
          refine fdWait_not_pending prompt
            (fun next opened => inductionHypothesis (Or.inr ⟨opened, ?_⟩)) next
          rw [same, List.length_drop]
          omega
      next next refused =>
        rcases enough with more | ⟨isReady, _⟩
        · exact fdWait_not_pending prompt (fun next opened => inductionHypothesis
            (Or.inr ⟨opened, Nat.lt_of_succ_lt_succ more⟩)) next
        · exact absurd refused (prompt.takes _ _ _ isReady some_)
      · exact id
      · exact id

/-- `fd_send` of a list that is accepted is its loop over the buffers of the list. -/
theorem fdSend_of_listed (kernel : SendKernel σ) (deadline : Int) (fuel : Nat)
    {iols : Heap (Iolist Bytes)} (valid : Valid iols) {first last : Address}
    {cells : List (Address × Iolist Bytes)} (listed : Listed iols first last cells) (state : σ) :
    ∃ after, fdSend kernel deadline fuel iols (some first) (some last) state =
        .ok (fdSendLoop kernel deadline fuel (cells.map fun cell => cell.2.iolBase) state,
          after) ∧
      ∀ address, after.load address = iols.load address := by
  obtain ⟨after, checked, same⟩ := iolCheck_of_listed valid listed
  have copied := iolToiov_spec (listed.chain.frame fun address _ => same address)
  exact ⟨after, by simp only [fdSend, checked, copied, bind, Except.bind], same⟩

/-- `fd_send` of any list of buffers, over any socket: the bytes that are written are the
first ones of the buffers in their order. It returns 0 exactly where all of them are
written, provided that the last buffer is not empty; it leaves the list as it was; and it
ends on a socket that takes something whenever it is writable. -/
theorem fdSend_all_or_prefix (kernel : SendKernel σ) (written : σ → Bytes)
    (writes : Writes kernel written) (deadline : Int) (fuel : Nat) (iols : Heap (Iolist Bytes))
    (valid : Valid iols) (first last : Address) (cells : List (Address × Iolist Bytes))
    (listed : Listed iols first last cells) (state : σ) :
    ∃ out after sent left,
      fdSend kernel deadline fuel iols (some first) (some last) state = .ok (out, after) ∧
      (∀ address, after.load address = iols.load address) ∧
      sent ++ left = cells.flatMap (fun cell => cell.2.iolBase) ∧
      written out.state = written state ++ sent ∧
      out.Reports (cells.map fun cell => cell.2.iolBase) left ∧
      ∀ ready, Prompt kernel ready → sent.length + left.length + 1 < fuel → ¬ out.Pending := by
  obtain ⟨after, looped, same⟩ := fdSend_of_listed kernel deadline fuel valid listed state
  obtain ⟨sent, left, split, wrote, reports⟩ := fdSendLoop_spec writes deadline fuel
    (cells.map fun cell => cell.2.iolBase) state
  refine ⟨_, after, sent, left, looped, same, ?_, wrote, reports, fun ready prompt enough => ?_⟩
  · rw [split, List.flatMap]
  · refine fdSendLoop_ends writes prompt (Or.inl ?_)
    rw [← split, List.length_append]
    exact enough

/-! ## Messages -/

private theorem valid_alloc (iol : Iolist Bytes) (ends : iol.iolNext = none) :
    Valid (Heap.empty.alloc iol).2 := by
  intro address found next loaded isNext
  have here : address = 0 := Nat.lt_one_iff.mp (lt_limit_of_load loaded)
  subst here
  cases loaded
  rw [ends] at isNext
  contradiction

/-- A payload that is too long for a frame is refused; any other is sent as one buffer. -/
theorem torchatprotoMsend_spec (kernel : SendKernel σ) (deadline : Int) (fuel : Nat)
    {payload : Bytes} (size : payload.length + 4 < 2 ^ 64) (state : σ) :
    torchatprotoMsend kernel deadline fuel payload state =
      .ok (if 8188 < payload.length then .failed .msgsize state
        else fdSendLoop kernel deadline fuel [frame payload] state) := by
  let iol : Iolist Bytes := ⟨frame payload, none, 0⟩
  have listed : Listed (Heap.empty.alloc iol).2 0 0 [(0, iol)] :=
    ⟨⟨rfl, rfl, rfl⟩, rfl, by simp [iol]⟩
  have sum : iolSize (Heap.empty.alloc iol).2 (Heap.empty.alloc iol).2.limit (some 0) =
      .ok ((iol.iolLen + 0) % 2 ^ 64) := rfl
  have length : (iol.iolLen + 0) % 2 ^ 64 = payload.length + 4 := by
    have framed : iol.iolLen = 4 + payload.length := Daemon.length_frame payload
    rw [Nat.add_zero, framed, Nat.mod_eq_of_lt (by omega), Nat.add_comm]
  obtain ⟨after, looped, _⟩ :=
    fdSend_of_listed kernel deadline fuel (valid_alloc iol rfl) listed state
  have same : (Heap.empty.alloc iol).1 = 0 := rfl
  simp only [torchatprotoMsend, torchatprotoMsendl, iol, same, sum, length, bind, Except.bind]
  by_cases long : 8188 < payload.length
  · rw [if_pos long, if_pos (show 8192 < payload.length + 4 by omega)]
  · rw [if_neg long, if_neg (show ¬ 8192 < payload.length + 4 by omega), looped]
    rfl

/-- What a run of sends has written: a frame for each payload that was reported as sent
and, behind them, a part of the next one. -/
structure Written (written : σ → Bytes) (payloads : List Bytes) (socket after : σ) (count : Nat)
    (part : Bytes) : Prop where
  atMost : count ≤ payloads.length
  stream : written after = written socket ++ (payloads.take count).flatMap frame ++ part
  fits : ∀ payload ∈ payloads.take count, payload.length ≤ 8188
  all : count = payloads.length → part = []
  next : ∀ payload, payloads[count]? = some payload → ∃ left, part ++ left = frame payload ∧
    left ≠ []

/-- Nothing is sent of a payload but a proper part of its frame. -/
private theorem Written.stopped {payload : Bytes} {rest : List Bytes} {socket after : σ}
    {part left : Bytes} (wrote : written after = written socket ++ part)
    (split : part ++ left = frame payload) (short : left ≠ []) :
    Written written (payload :: rest) socket after 0 part where
  atMost := Nat.zero_le _
  stream := by simpa using wrote
  fits := by simp
  all := nofun
  next := by
    rintro found ⟨⟩
    exact ⟨left, split, short⟩

/-- One more frame in front. -/
private theorem Written.cons {payload : Bytes} {rest : List Bytes} {socket between after : σ}
    {count : Nat} {part : Bytes} (kept : Written written rest between after count part)
    (framed : written between = written socket ++ frame payload)
    (short : payload.length ≤ 8188) :
    Written written (payload :: rest) socket after (count + 1) part where
  atMost := Nat.succ_le_succ kept.atMost
  stream := by
    rw [kept.stream, framed, List.take_succ_cons, List.flatMap_cons]
    simp only [List.append_assoc]
  fits := by
    intro other member
    rw [List.take_succ_cons] at member
    rcases List.mem_cons.mp member with rfl | later
    · exact short
    · exact kept.fits other later
  all whole := kept.all (Nat.succ.inj whole)
  next other found := kept.next other found

private theorem frame_ne_nil (payload : Bytes) : frame payload ≠ [] := by
  rw [← List.length_pos_iff, Daemon.length_frame]
  omega

/-- A frame is sent whole, or a proper part of it. -/
private theorem frame_sent {ready : σ → Prop} (writes : Writes kernel written)
    (prompt : Prompt kernel ready) (deadline : Int) (payload : Bytes) (socket : σ) :
    (∃ state, fdSendLoop kernel deadline (payload.length + 6) [frame payload] socket = .done state ∧
      written state = written socket ++ frame payload) ∨
    ∃ errno state part left,
      fdSendLoop kernel deadline (payload.length + 6) [frame payload] socket =
        .failed errno state ∧
      written state = written socket ++ part ∧ part ++ left = frame payload ∧ left ≠ [] := by
  obtain ⟨part, left, split, wrote, reports⟩ := fdSendLoop_spec writes deadline
    (payload.length + 6) [frame payload] socket
  have ends : ¬ (fdSendLoop kernel deadline (payload.length + 6) [frame payload]
      socket).Pending := by
    refine fdSendLoop_ends writes prompt (Or.inl ?_)
    rw [List.flatten_singleton, Daemon.length_frame]
    omega
  rw [List.flatten_singleton] at split
  cases out : fdSendLoop kernel deadline (payload.length + 6) [frame payload] socket with
  | pending state =>
      rw [out] at ends
      exact absurd trivial ends
  | assertFailed state =>
      rw [out] at reports
      exact reports.elim
  | failed errno state =>
      rw [out] at reports wrote
      have full : EndsFull [frame payload] := ⟨[], frame payload, rfl, frame_ne_nil payload⟩
      exact Or.inr ⟨errno, state, part, left, rfl, wrote, split, reports full⟩
  | done state =>
      rw [out] at reports wrote
      have nothing : left = [] := reports
      rw [nothing, List.append_nil] at split
      rw [split] at wrote
      exact Or.inl ⟨state, rfl, wrote⟩

theorem sendMessages_spec {ready : σ → Prop} (writes : Writes kernel written)
    (prompt : Prompt kernel ready) (deadline : Int) {payloads : List Bytes}
    (sizes : ∀ payload ∈ payloads, payload.length + 4 < 2 ^ 64) (socket : σ) :
    ∃ count after part, sendMessages kernel deadline payloads socket = .ok (count, after) ∧
      Written written payloads socket after count part := by
  induction payloads generalizing socket with
  | nil => exact ⟨0, socket, [], rfl, by simp, by simp, by simp, by simp, by simp⟩
  | cons payload rest inductionHypothesis =>
      have sent := torchatprotoMsend_spec kernel deadline (payload.length + 6)
        (sizes payload List.mem_cons_self) socket
      by_cases long : 8188 < payload.length
      · rw [if_pos long] at sent
        refine ⟨0, socket, [], ?_, Written.stopped (List.append_nil _).symm rfl
          (frame_ne_nil payload)⟩
        simp only [sendMessages, sent, bind, Except.bind]
      · rw [if_neg long] at sent
        obtain ⟨state, out, framed⟩ | ⟨errno, state, part, left, out, wrote, split, short⟩ :=
          frame_sent writes prompt deadline payload socket
        · obtain ⟨count, after, part, ran, kept⟩ := inductionHypothesis
            (fun other member => sizes other (List.mem_cons_of_mem _ member)) state
          refine ⟨count + 1, after, part, ?_, kept.cons framed (Nat.le_of_not_lt long)⟩
          simp only [sendMessages, sent, out, ran, bind, Except.bind]
        · refine ⟨0, state, part, ?_, Written.stopped wrote split short⟩
          simp only [sendMessages, sent, out, bind, Except.bind]

/-- From the frames of payloads to the receiver: over any socket that takes something
whenever it is writable the sends end, what they write is one frame for each payload that
they report as sent and a proper part of the next one, and a receiver to which the bytes
arrive gets exactly the payloads that were reported as sent, in their order, if and only
if none of them is empty or too long for it: it refuses the frames of those. -/
theorem messages_sent_arrive {τ : Type} (kernel : SendKernel σ) (written : σ → Bytes)
    (writes : Writes kernel written) (ready : σ → Prop) (prompt : Prompt kernel ready)
    (deadline : Int) (payloads : List Bytes)
    (sizes : ∀ payload ∈ payloads, payload.length + 4 < 2 ^ 64)
    (socket : σ) (receiver : Kernel τ) (available : τ → Bytes)
    (delivers : DeliversAvailable receiver available) :
    ∃ count after part, sendMessages kernel deadline payloads socket = .ok (count, after) ∧
      written after = written socket ++ (payloads.take count).flatMap frame ++ part ∧
      (count = payloads.length → part = []) ∧
      (∀ payload, payloads[count]? = some payload →
        ∃ left, part ++ left = frame payload ∧ left ≠ []) ∧
      ∀ maxLen recvDeadline state,
        available state = (payloads.take count).flatMap frame ++ part →
        ((∃ last, receiveAll receiver maxLen recvDeadline count state =
            some (payloads.take count, last) ∧ available last = part) ↔
          ∀ payload ∈ payloads.take count, 1 ≤ payload.length ∧ payload.length ≤ maxLen) := by
  obtain ⟨count, after, part, ran, wrote⟩ := sendMessages_spec writes prompt deadline sizes socket
  refine ⟨count, after, part, ran, wrote.stream, wrote.all, wrote.next, ?_⟩
  intro maxLen recvDeadline state stream
  have length : (payloads.take count).length = count := by
    rw [List.length_take, Nat.min_eq_left wrote.atMost]
  constructor
  · rintro ⟨last, received, _⟩
    rw [← length] at received
    exact Daemon.sizes_of_receiveAll delivers wrote.fits stream received
  · intro room
    have frames := Daemon.receiveAll_frames delivers
      (fun payload member => ⟨(room payload member).1, wrote.fits payload member,
        (room payload member).2⟩) stream recvDeadline
    rwa [length] at frames

end Calls

end Spec

/-! ## A socket that takes a byte at a time -/

def byteKernel : SendKernel Bytes where
  sendmsg stream iov :=
    match iov.flatten with
    | [] => (.error .inval, stream)
    | byte :: _ => (.ok 1, stream ++ [byte])
  fdout stream _ := (none, stream)

theorem byteKernel_writes : Writes byteKernel id where
  sent state iov count after some_ sent := by
    simp only [byteKernel] at sent
    cases bytes : iov.flatten with
    | nil => exact absurd bytes some_
    | cons byte rest =>
        simp only [bytes, Prod.mk.injEq, Except.ok.injEq] at sent
        obtain ⟨rfl, rfl⟩ := sent
        exact ⟨Nat.one_pos, Nat.succ_le_succ (Nat.zero_le _), rfl⟩
  refused state iov errno after refused := by
    simp only [byteKernel] at refused
    split at refused
    · cases refused
      rfl
    · cases refused
  waited _ _ := rfl

theorem byteKernel_prompt : Prompt byteKernel fun _ => True where
  opened _ _ _ _ := trivial
  takes state iov after _ some_ refused := by
    simp only [byteKernel] at refused
    split at refused
    next empty => exact some_ empty
    · cases refused

theorem fdSend_all_or_prefix_hello :
    ∃ out after sent left, fdSend byteKernel 0 20 sampleIols (some 0) (some 1) [] =
        .ok (out, after) ∧
      sent ++ left = ascii "0005hello" ∧ out.state = sent ∧ ¬ out.Pending := by
  have listed : Listed sampleIols 0 1
      [(0, ⟨ascii "0005", some 1, 0⟩), (1, ⟨ascii "hello", none, 0⟩)] :=
    ⟨⟨rfl, rfl, rfl, rfl, rfl⟩, rfl, by simp⟩
  obtain ⟨out, after, sent, left, ran, _, split, wrote, _, ends⟩ :=
    fdSend_all_or_prefix byteKernel id byteKernel_writes 0 20 sampleIols sampleIols_valid 0 1 _
      listed []
  have bytes : sent.length + left.length = 9 := by
    rw [← List.length_append, split]
    rfl
  exact ⟨out, after, sent, left, ran, split, wrote, ends _ byteKernel_prompt (by omega)⟩

theorem messages_sent_arrive_hello :
    ∃ count after part, sendMessages byteKernel 0 [ascii "hello", ascii "again"] [] =
        .ok (count, after) ∧
      after = ([ascii "hello", ascii "again"].take count).flatMap frame ++ part := by
  obtain ⟨count, after, part, ran, wrote, _⟩ := messages_sent_arrive byteKernel id
    byteKernel_writes _ byteKernel_prompt 0 [ascii "hello", ascii "again"] (by decide) []
    Daemon.streamKernel id Daemon.streamKernel_delivers
  exact ⟨count, after, part, ran, wrote⟩

end Torchat.Net
