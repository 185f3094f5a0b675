import Torchat.Daemon.Handling

/-!
Contract: a message from the client of one daemon to the store of another.

Owns the composition of the two ends: the frame that `send_routine` makes of a
request, its reception by a second daemon, and the exact condition under which
the message arrives.

Does not own the way in between: the frame arrives whole or not at all.
-/

set_option autoImplicit false

namespace Torchat.Daemon

open Torchat.Foundation
open Torchat.Json

/-- The text that `send_routine` passes to `send_over_tor`. Nothing is known of
it when the host name has been copied over the end of its block. -/
def relayedText : List Effect → Option CString
  | .strcpy block written :: .sendOverTor _ _ buf :: _ => if written ≤ block then some buf else none
  | _ => none

/-- Every daemon that receives the text in a whole frame accepts it, and its
`store_msg` appends one message with the content to the queue of the id. -/
def AcceptedBySecond (id : CString) (content : Bytes) (text : CString) : Prop :=
  ∀ {σ : Type} (kernel : Kernel σ) (available : σ → Bytes) (state : σ) (rest : Bytes)
    (deadline : Int) (fuel : Nat) (now : Tm) (requests : List Request) (store : Store)
    (trace : List (Request × List Effect)),
    DeliversAvailable kernel available → available state = frame text.bytes ++ rest → 1 ≤ fuel →
    (∀ request ∈ requests, request.Admissible) → run Store.empty requests = .ok (store, trace) →
    ∃ rc json received after stored,
      parseConnection kernel deadline fuel now state = some (.ok (.message rc json received)) ∧
      0 < rc ∧ received.cmd = .recv ∧ storeMsg store received now = .ok after ∧
      stored.bytes = content ∧
      ∀ other, queued after other =
        if other = id then (queued store other).map (· ++ [stored]) else queued store other

/-- What `torchatproto_msend` takes of a request, a second daemon takes too, with the text
`msg` that the request has in its JSON. -/
def RelayArrives {τ : Type} (fdSend : τ → Bytes → Int × τ) (socket : τ)
    (environment : Environment) (msg : Bytes) (data : DataWrapper) : Prop :=
  ∃ text, relayedText (sendRoutine environment data) = some text ∧
    (0 ≤ (torchatprotoMsend fdSend socket text.bytes).1 →
      AcceptedBySecond environment.hostname msg text)

/-! ## The first daemon -/

theorem relayedText_sendRoutine (environment : Environment) (data : DataWrapper) :
    relayedText (sendRoutine environment data) =
      if environment.hostname.length ≤ data.id.length then
        some (convertDatastructToChar (relayed environment.hostname data))
      else none := by
  unfold sendRoutine relayedText
  simp only [Nat.add_le_add_iff_right]

/-! ## The second daemon -/

section SecondDaemon

variable {σ : Type} {kernel : Kernel σ} {available : σ → Bytes} {state : σ} {rest : Bytes}

/-- A text without room for its terminator is read beyond the buffer or refused. -/
private theorem parseConnection_of_long (delivers : DeliversAvailable kernel available)
    {text : CString} (long : 511 < text.bytes.length) (fits : text.bytes.length ≤ 8188)
    (stream : available state = frame text.bytes ++ rest) {fuel : Nat} (enough : 1 ≤ fuel)
    (deadline : Int) (now : Tm) :
    parseConnection kernel deadline fuel now state = some (.error .outOfBounds) ∨
      parseConnection kernel deadline fuel now state = some (.ok .refused) := by
  by_cases full : text.bytes.length = inbufSize
  · left
    exact parseConnection_of_full delivers full text.noNul stream enough deadline now
  · right
    have large : ¬ (1 ≤ text.bytes.length ∧ text.bytes.length ≤ inbufSize) := by
      unfold inbufSize at full ⊢
      omega
    obtain ⟨after, refused⟩ := torchatprotoMrecv_of_refused delivers large fits stream deadline
      fuel (List.replicate inbufSize 0)
    simp only [parseConnection, refused, parseInbuf, if_true]

/-- A parsed message was decoded from its text. -/
private theorem decoded_of_parseConnection {deadline rc : Int} {fuel : Nat} {now : Tm}
    {json : CString} {data : DataWrapper}
    (parsed : parseConnection kernel deadline fuel now state =
      some (.ok (.message rc json data))) :
    convertStringToDatastruct json now = .ok (some data) := by
  unfold parseConnection at parsed
  split at parsed
  next =>
    have inner := Option.some.inj parsed
    unfold parseInbuf at inner
    split at inner
    next => simp at inner
    split at inner
    next => simp at inner
    split at inner
    next => simp at inner
    next => simp at inner
    next decoded =>
      cases inner
      exact decoded
  next => simp at parsed
  next => simp at parsed

end SecondDaemon

/-! ## Both ends -/

section BothEnds

variable {hostname text : CString} {before : Tm} {data : DataWrapper} {msg : Bytes}

private theorem accepted_of_conditions
    (decoded : convertStringToDatastruct text before = .ok (some data))
    (isMsg : textMember text (ascii "msg") = some msg) (whole : 0 ∉ msg)
    (short : (convertDatastructToChar (relayed hostname data)).length ≤ 511)
    (fits : hostname.length ≤ 29) (valid : ValidUtf8 hostname.bytes) :
    AcceptedBySecond hostname msg (convertDatastructToChar (relayed hostname data)) := by
  intro σ kernel available state rest deadline fuel now requests store trace delivers stream enough
    admissible ran
  obtain ⟨_, content, date⟩ := validText_of_decoded decoded
  have validRelayed : ValidText (relayed hostname data) := ⟨valid, content, fun _ => date⟩
  have parsed := parseConnection_of_encoded delivers validRelayed short stream enough deadline now
  obtain ⟨reached, _, ranAgain, refined, _⟩ := run_empty admissible
  rw [ran] at ranAgain
  cases ranAgain
  have idFits : (relayed hostname data).id.length ≤ 29 := fits
  obtain ⟨after, stored, _⟩ := storeMsg_refines refined idFits now
  have positive := nonempty_text (relayed hostname data)
  have uncut : data.msg.bytes = msg := by
    rw [msg_of_decoded decoded isMsg]
    exact CString.ofBytes_eq_of_noNul whole
  exact ⟨_, _, _, after, data.msg, parsed, by omega, rfl, stored, uncut,
    fun other => queued_storeMsg refined stored idFits other⟩

private theorem conditions_of_accepted {relayedText : CString}
    (accepted : AcceptedBySecond hostname msg relayedText)
    (sent : relayedText.bytes.length ≤ 8188) :
    relayedText.length ≤ 511 ∧ hostname.length ≤ 29 ∧ ValidUtf8 hostname.bytes ∧ 0 ∉ msg := by
  obtain ⟨rc, json, received, after, content, parsed, _, _, stored, uncut, queues⟩ :=
    accepted streamKernel id (frame relayedText.bytes) [] 0 1 sampleTime []
      Store.empty [] streamKernel_delivers (List.append_nil _).symm (Nat.le_refl 1) (by simp) rfl
  have short : relayedText.length ≤ 511 := by
    by_contra long
    have stream : id (frame relayedText.bytes) = frame relayedText.bytes ++ [] :=
      (List.append_nil _).symm
    rcases parseConnection_of_long streamKernel_delivers (Nat.lt_of_not_le long) sent stream
      (Nat.le_refl 1) 0 sampleTime with outside | refused
    · rw [outside] at parsed
      simp at parsed
    · rw [refused] at parsed
      simp at parsed
  have fits : received.id.length ≤ 29 := by
    by_contra long
    rw [storeMsg_of_long refines_empty (by omega)] at stored
    contradiction
  have same : hostname = received.id := by
    by_contra different
    have announced := queues hostname
    rw [queued_storeMsg refines_empty stored fits, if_neg different, if_pos rfl,
      refines_empty.queued] at announced
    simp at announced
  obtain ⟨id, _, _⟩ := validText_of_decoded (decoded_of_parseConnection parsed)
  subst same
  exact ⟨short, fits, id, uncut ▸ content.noNul⟩

/-- A relayed message arrives exactly where the host name stays in the block of
the id that it is copied over and, if its text fits a frame that `fd_send`
takes, the text leaves room for a terminator in the buffer of the receiver, the
host name is text that leaves room in the array of a peer, and the message has
no NUL, at which the decoder of the first daemon cuts it. -/
theorem relayArrives_iff {τ : Type} (fdSend : τ → Bytes → Int × τ) (socket : τ)
    (environment : Environment)
    (decoded : convertStringToDatastruct text before = .ok (some data))
    (isMsg : textMember text (ascii "msg") = some msg) :
    RelayArrives fdSend socket environment msg data ↔
      environment.hostname.length ≤ data.id.length ∧
        ((convertDatastructToChar (relayed environment.hostname data)).length ≤ 8188 ∧
            0 ≤ (fdSend socket (frame
              (convertDatastructToChar (relayed environment.hostname data)).bytes)).1 →
          (convertDatastructToChar (relayed environment.hostname data)).length ≤ 511 ∧
            environment.hostname.length ≤ 29 ∧ ValidUtf8 environment.hostname.bytes ∧
            0 ∉ msg) := by
  unfold RelayArrives
  rw [relayedText_sendRoutine]
  have sent_iff := @torchatprotoMsend_nonneg_iff τ fdSend socket
    (convertDatastructToChar (relayed environment.hostname data)).bytes
  by_cases inside : environment.hostname.length ≤ data.id.length
  · rw [if_pos inside]
    constructor
    · rintro ⟨built, isBuilt, accepted⟩
      cases isBuilt
      exact ⟨inside, fun sent => conditions_of_accepted (accepted (sent_iff.mpr sent)) sent.1⟩
    · rintro ⟨_, conditions⟩
      refine ⟨_, rfl, fun sent => ?_⟩
      obtain ⟨short, fits, valid, whole⟩ := conditions (sent_iff.mp sent)
      exact accepted_of_conditions decoded isMsg whole short fits valid
  · rw [if_neg inside]
    simp [inside]

end BothEnds

/-- A request to send `length` letters, as its client writes it. -/
def sampleSend (length : Nat) : DataWrapper where
  cmd := .send
  id := CString.literal "bobbobbobbobbobb.onion"
  portno := 80
  msg := CString.ofBytes (List.replicate length 0x61)
  date := CString.empty

/-- A daemon whose frames are all sent. -/
def sampleEnvironment : Environment where
  hostname := CString.literal "alicealicealicea.onion"
  now := sampleTime
  sendOverTor := some 0
  fdSend := fun _ => 0

private theorem textMember_sampleSend {length : Nat} (valid : ValidText (sampleSend length)) :
    textMember (convertDatastructToChar (sampleSend length)) (ascii "msg") =
      some (sampleSend length).msg.bytes :=
  textMember_of_parse (parse_convertDatastructToChar valid) rfl

theorem relayArrives_five_letters :
    RelayArrives (fun (_ : Unit) _ => (0, ())) () sampleEnvironment (ascii "aaaaa")
      (arrival (sampleSend 5) sampleEnvironment.now) := by
  have valid : ValidText (sampleSend 5) :=
    ⟨by decide, by decide +kernel, fun dated => by contradiction⟩
  exact (relayArrives_iff (fun (_ : Unit) _ => (0, ())) () sampleEnvironment
    (decode_encode valid sampleEnvironment.now) (textMember_sampleSend valid)).mpr
    ⟨by decide, fun _ => ⟨by decide +kernel, by decide, by decide, by decide⟩⟩

/-- A request that fits the buffer of its daemon grows by a date on the way and
does not fit the buffer of the next one. -/
theorem long_message_is_lost :
    ∃ rc text data msg,
      parseConnection streamKernel 0 1 sampleEnvironment.now (frame text.bytes) =
        some (.ok (.message rc text data)) ∧
      data.cmd = .send ∧ textMember text (ascii "msg") = some msg ∧ 0 ∉ msg ∧
      0 ≤ (torchatprotoMsend (fun (_ : Unit) _ => (0, ())) ()
        (convertDatastructToChar (relayed sampleEnvironment.hostname data)).bytes).1 ∧
      ¬ RelayArrives (fun (_ : Unit) _ => (0, ())) () sampleEnvironment msg data := by
  have valid : ValidText (sampleSend 430) :=
    ⟨by decide, by decide +kernel, fun dated => by contradiction⟩
  have short : (convertDatastructToChar (sampleSend 430)).bytes.length ≤ 511 := by decide +kernel
  have sent : 0 ≤ (torchatprotoMsend (fun (_ : Unit) _ => (0, ())) ()
      (convertDatastructToChar (relayed sampleEnvironment.hostname
        (arrival (sampleSend 430) sampleEnvironment.now))).bytes).1 := by decide +kernel
  refine ⟨_, _, _, _, parseConnection_of_encoded streamKernel_delivers valid short
    (List.append_nil _).symm (Nat.le_refl 1) 0 sampleEnvironment.now, rfl,
    textMember_sampleSend valid, (sampleSend 430).msg.noNul, sent, ?_⟩
  rintro ⟨text, built, accepted⟩
  rw [relayedText_sendRoutine, if_pos (by decide)] at built
  cases built
  have room := (conditions_of_accepted (accepted sent)
    ((torchatprotoMsend_nonneg_iff _ _).mp sent).1).1
  revert room
  decide +kernel

end Torchat.Daemon
