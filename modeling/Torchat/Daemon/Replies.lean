import Torchat.Daemon.Handling
import Torchat.Daemon.Unread

/-!
Contract: the replies to the queries of a client, and whether a frame holds them.

Owns the length of the text of a reply, the bound on what the store holds, and
the one reply without a bound, the list of the peers.

Does not own the reply to a message that is sent; see `SendOverTor`.
-/

set_option autoImplicit false

namespace Torchat.Daemon

open Torchat.Foundation
open Torchat.Json

/-! ## Lengths -/

/-- The bytes that a string takes between its quotes. -/
def escapedLength (text : CString) : Nat := (dumpEscaped text.bytes).length

theorem escapedLength_le (text : CString) : escapedLength text ≤ 6 * text.length :=
  length_dumpEscaped_le text.bytes

theorem length_le_escapedLength (text : CString) : text.length ≤ escapedLength text :=
  length_le_dumpEscaped text.bytes

/-- The bytes that a list of ids takes, with a comma behind each of them. -/
def listedLength (ids : List CString) : Nat := (ids.map fun id => escapedLength id + 1).sum

private theorem length_portno_le (portno : Int32) : (dumpInteger portno.toInt).length ≤ 11 := by
  have lower := portno.le_toInt
  have upper := portno.toInt_lt
  apply length_dumpInteger_le
  omega

/-- The text of a message: its braces, names and quotes, and its fields. -/
theorem length_convertDatastructToChar (data : DataWrapper) :
    (convertDatastructToChar data).length =
      37 + (convertFromEnum data.cmd).length + escapedLength data.id + escapedLength data.msg +
        (dumpInteger data.portno.toInt).length +
        if carriesDate data.cmd then 10 + escapedLength data.date else 0 := by
  have keys : dumpEscaped (ascii "cmd") = ascii "cmd" ∧ dumpEscaped (ascii "date") = ascii "date" ∧
      dumpEscaped (ascii "id") = ascii "id" ∧ dumpEscaped (ascii "msg") = ascii "msg" ∧
      dumpEscaped (ascii "portno") = ascii "portno" := by decide
  have widths : (ascii "cmd").length = 3 ∧ (ascii "date").length = 4 ∧ (ascii "id").length = 2 ∧
      (ascii "msg").length = 3 ∧ (ascii "portno").length = 6 := by decide
  have name : dumpEscaped (convertFromEnum data.cmd) = convertFromEnum data.cmd := by
    cases data.cmd <;> decide
  show (convertDatastructToChar data).bytes.length = _
  rw [bytes_convertDatastructToChar, jsonMembers_eq]
  split
  next =>
    simp only [dump, dumpMembers, dumpMember, Scalar.dump, dumpString, List.length_append,
      List.length_cons, List.length_nil, keys, widths, name, escapedLength]
    omega
  next =>
    simp only [dump, dumpMembers, dumpMember, Scalar.dump, dumpString, List.length_append,
      List.length_cons, List.length_nil, keys, widths, name, escapedLength]
    omega

/-- A message of two fields that fit a received text and a short date fits a frame. -/
private theorem fits_of_short {data : DataWrapper} (id : data.id.length ≤ 511)
    (msg : data.msg.length ≤ 511) (date : carriesDate data.cmd = true → data.date.length ≤ 5) :
    (convertDatastructToChar data).length ≤ 8188 := by
  have name : (convertFromEnum data.cmd).length ≤ 9 := by cases data.cmd <;> decide
  have idEscaped := escapedLength_le data.id
  have msgEscaped := escapedLength_le data.msg
  have dateEscaped := escapedLength_le data.date
  have portno := length_portno_le data.portno
  rw [length_convertDatastructToChar]
  split
  next dated =>
    have short := date dated
    omega
  next => omega

/-! ## The list of the peers -/

theorem commaList_cons_cons (first second : CString) (rest : List CString) :
    commaList (first :: second :: rest) =
      first.bytes ++ comma :: commaList (second :: rest) := by
  have separator : ascii "," = [comma] := rfl
  simp [commaList, List.intercalate, separator]

theorem commaList_singleton (id : CString) : commaList [id] = id.bytes := by
  simp [commaList, List.intercalate]

theorem zero_notMem_commaList (ids : List CString) : 0 ∉ commaList ids := by
  induction ids with
  | nil => exact List.not_mem_nil
  | cons first rest inductionHypothesis =>
      cases rest with
      | nil =>
          rw [commaList_singleton]
          exact first.noNul
      | cons second others =>
          have notComma : (0 : Byte) ≠ comma := by decide
          rw [commaList_cons_cons, List.mem_append, List.mem_cons, not_or, not_or]
          exact ⟨first.noNul, notComma, inductionHypothesis⟩

private theorem length_dumpEscaped_commaList {ids : List CString} (nonempty : ids ≠ []) :
    (dumpEscaped (commaList ids)).length + 1 = listedLength ids := by
  induction ids with
  | nil => exact absurd rfl nonempty
  | cons first rest inductionHypothesis =>
      cases rest with
      | nil =>
          rw [commaList_singleton]
          rfl
      | cons second others =>
          have written : dumpEscaped (commaList (first :: second :: others)) =
              dumpEscaped first.bytes ++ comma :: dumpEscaped (commaList (second :: others)) := by
            rw [commaList_cons_cons, dumpEscaped, List.flatMap_append]
            rfl
          have restLength := inductionHypothesis (List.cons_ne_nil _ _)
          have total : listedLength (first :: second :: others) =
              escapedLength first + 1 + listedLength (second :: others) := List.sum_cons
          rw [written, List.length_append, List.length_cons, total, ← restLength, escapedLength]
          omega

theorem escapedLength_peerListText (ids : List CString) :
    escapedLength (peerListText ids) = listedLength ids - 1 := by
  unfold peerListText
  split
  next none_ =>
    rw [none_]
    rfl
  next some_ =>
    have length := length_dumpEscaped_commaList some_
    rw [escapedLength, CString.ofBytes_eq_of_noNul (zero_notMem_commaList ids)]
    omega

/-- The list of the peers leaves room for the rest of its reply. -/
def PeersFit (store : Store) (data : DataWrapper) : Prop :=
  listedLength (store.head.map Prod.fst) + escapedLength data.id +
    (dumpInteger data.portno.toInt).length ≤ 8143

private theorem peerList_fits_iff {data : DataWrapper} (getPeers : data.cmd = .getPeers)
    (id : data.id.length ≤ 511) (store : Store) :
    (convertDatastructToChar
        { data with msg := peerListText (store.head.map Prod.fst) }).length ≤ 8188 ↔
      PeersFit store data := by
  have undated : carriesDate Command.getPeers = false := rfl
  have name : (convertFromEnum Command.getPeers).length = 9 := rfl
  have idEscaped := escapedLength_le data.id
  have portno := length_portno_le data.portno
  rw [length_convertDatastructToChar, escapedLength_peerListText, PeersFit]
  simp only [getPeers, undated, name, Bool.false_eq_true, if_false]
  omega

/-! ## What the store holds -/

/-- The messages that wait came in received texts, and have times of day. -/
def StoredShort (table : UnreadTable) : Prop :=
  ∀ id, ∀ stored ∈ table.lookup id, stored.content.length ≤ 511 ∧ stored.date.length ≤ 5

private theorem length_getShortDate_le (now : Tm) : (getShortDate now).length ≤ 5 := by
  have whole := CString.length_ofBytes_le
    (fixedDigits 2 now.hour ++ ascii ":" ++ fixedDigits 2 now.min)
  rw [List.length_append, List.length_append, length_fixedDigits, length_fixedDigits] at whole
  exact whole

/-- Behind accepted requests, what waits is what one of them has brought. -/
theorem storedShort_after {requests : List Request}
    (accepted : ∀ request ∈ requests, request.Accepted) :
    StoredShort (QueueTable.empty.after (ops requests)) := by
  intro id stored waiting
  have pushed := QueueTable.push_mem_of_mem_lookup waiting
  obtain ⟨request, member, op⟩ := List.mem_map.mp pushed
  obtain ⟨fits, decoded⟩ := accepted request member
  have short := short_of_decoded decoded
  unfold Request.op at op
  split at op
  next =>
    cases op
    exact ⟨Nat.le_trans short.2 fits, length_getShortDate_le _⟩
  next => contradiction
  next => contradiction

/-! ## Queries -/

/-- The commands that the client waits behind for a reply. -/
def isQuery (cmd : Command) : Bool := cmd = .update || cmd = .getPeers || cmd = .host

/-- The commands that nothing is said to. -/
def isSilent (cmd : Command) : Bool := cmd = .recv || cmd = .end_ || cmd = .err || cmd = .exit

private theorem not_isSilent_of_isQuery {cmd : Command} (query : isQuery cmd = true) :
    isSilent cmd = false := by
  cases cmd with
  | update => rfl
  | getPeers => rfl
  | host => rfl
  | _ => contradiction

/-- A reply, with the return value of `torchatproto_msend` for it. -/
def Effect.sending : Effect → Option (DataWrapper × Int)
  | .msend reply rc => some (reply, rc)
  | _ => none

/-- A query gets one reply, of a text that fits a frame and is taken; the silent
commands get none. -/
structure AnswersAsDue (store : Store) (request : Request) : Prop where
  query : isQuery request.data.cmd = true → ∃ outcome reply rc,
    request.dispatch store = .ok outcome ∧
    outcome.effects.filterMap Effect.sending = [(reply, rc)] ∧ 0 ≤ rc ∧
    (convertDatastructToChar reply).length ≤ 8188
  silent : isSilent request.data.cmd = true → ∃ outcome,
    request.dispatch store = .ok outcome ∧ outcome.effects.filterMap Effect.sending = []

/-- `fd_send` takes every frame. -/
def Environment.Healthy (environment : Environment) : Prop :=
  ∀ message, 0 ≤ environment.fdSend message

section Query

variable {store : Store} {table : UnreadTable} {request : Request}

/-- A query with one answer gets what is due exactly where the answer fits. -/
private theorem answersAsDue_of_answer (healthy : request.environment.Healthy)
    (query : isQuery request.data.cmd = true) {outcome : Outcome} {reply : DataWrapper}
    (dispatched : request.dispatch store = .ok outcome)
    (effects : outcome.effects = [request.environment.answer reply]) :
    AnswersAsDue store request ↔ (convertDatastructToChar reply).length ≤ 8188 := by
  have sent : outcome.effects.filterMap Effect.sending =
      [(reply, request.environment.msend reply)] := by
    rw [effects]
    rfl
  constructor
  · intro due
    obtain ⟨same, sentReply, rc, sameDispatched, sentOnce, _, fits⟩ := due.query query
    rw [dispatched] at sameDispatched
    cases sameDispatched
    rw [sent] at sentOnce
    cases sentOnce
    exact fits
  · intro fits
    have taken : 0 ≤ request.environment.msend reply :=
      (request.environment.msend_nonneg_iff reply).mpr ⟨fits, healthy _⟩
    constructor
    · intro _
      exact ⟨outcome, reply, _, dispatched, sent, taken, fits⟩
    · intro silent
      rw [not_isSilent_of_isQuery query] at silent
      contradiction

/-- A command that nothing is said to, or that this is not about. -/
private theorem answersAsDue_of_quiet (notQuery : isQuery request.data.cmd = false)
    (quiet : isSilent request.data.cmd = true → ∃ outcome,
      request.dispatch store = .ok outcome ∧ outcome.effects.filterMap Effect.sending = []) :
    AnswersAsDue store request where
  query := fun query => by
    rw [notQuery] at query
    contradiction
  silent := quiet

private theorem updateReply_fits (short : StoredShort table) {data : DataWrapper}
    (msg : data.msg.length ≤ 511) :
    (convertDatastructToChar (updateReply data (table.lookup data.msg).head?)).length ≤ 8188 := by
  cases queue : table.lookup data.msg with
  | nil => exact fits_of_short msg msg fun dated => by contradiction
  | cons oldest later =>
      obtain ⟨content, date⟩ := short data.msg oldest (by rw [queue]; exact List.mem_cons_self)
      exact fits_of_short msg content fun _ => date

private theorem update_answersAsDue (refines : Refines store table) (short : StoredShort table)
    (healthy : request.environment.Healthy) (msg : request.data.msg.length ≤ 511)
    (update : request.data.cmd = .update) : AnswersAsDue store request := by
  obtain ⟨outcome, dispatched, _, answered, _⟩ :=
    dispatch_refines refines (admissible_of_cmd update (by decide))
  have query : isQuery request.data.cmd = true := by
    rw [update]
    rfl
  exact (answersAsDue_of_answer healthy query dispatched (answered update)).mpr
    (updateReply_fits short msg)

private theorem getPeers_answersAsDue_iff (refines : Refines store table)
    (healthy : request.environment.Healthy) (id : request.data.id.length ≤ 511)
    (getPeers : request.data.cmd = .getPeers) :
    AnswersAsDue store request ↔ PeersFit store request.data := by
  obtain ⟨outcome, dispatched, _, _, listed⟩ :=
    dispatch_refines refines (admissible_of_cmd getPeers (by decide))
  have query : isQuery request.data.cmd = true := by
    rw [getPeers]
    rfl
  have effects := listed getPeers
  rw [← refines.head_keys] at effects
  rw [answersAsDue_of_answer healthy query dispatched effects]
  exact peerList_fits_iff getPeers id store

private theorem host_answersAsDue (healthy : request.environment.Healthy)
    (id : request.data.id.length ≤ 511) (hostname : request.environment.hostname.length ≤ 62)
    (host : request.data.cmd = .host) : AnswersAsDue store request := by
  have query : isQuery request.data.cmd = true := by
    rw [host]
    rfl
  have undated : carriesDate request.data.cmd = false := by
    rw [host]
    rfl
  have dispatched : request.dispatch store = .ok
      { store := store, effects := sendHostnameToClient request.environment request.data,
        exitFlag := false } := by
    rw [Request.dispatch, dispatch, host]
  apply (answersAsDue_of_answer healthy query dispatched rfl).mpr
  apply fits_of_short
  · exact id
  · exact Nat.le_trans hostname (by decide)
  · intro dated
    rw [undated] at dated
    contradiction

/-- A message is stored in silence exactly where its id fits its record. -/
private theorem recv_answersAsDue_iff (refines : Refines store table)
    (recv : request.data.cmd = .recv) :
    AnswersAsDue store request ↔ request.data.id.length ≤ 29 := by
  have notQuery : isQuery request.data.cmd = false := by
    rw [recv]
    rfl
  have silent : isSilent request.data.cmd = true := by
    rw [recv]
    rfl
  constructor
  · intro due
    obtain ⟨outcome, dispatched, _⟩ := due.silent silent
    exact admissible_of_dispatch refines dispatched recv
  · intro fits
    obtain ⟨after, stored, _⟩ := storeMsg_refines refines fits request.environment.now
    apply answersAsDue_of_quiet notQuery
    intro _
    refine ⟨{ store := after, effects := [.logInfo request.json], exitFlag := false }, ?_, rfl⟩
    rw [Request.dispatch, dispatch, recv]
    simp only [stored, bind, Except.bind]

/-- Of the replies only the list of the peers may be too long, and of the silent
commands only a message for a record that is too small may fault. -/
private theorem answersAsDue_iff_of_refines (refines : Refines store table)
    (short : StoredShort table) (accepted : request.Accepted)
    (healthy : request.environment.Healthy)
    (hostname : request.environment.hostname.length ≤ 62) :
    AnswersAsDue store request ↔
      (request.data.cmd = .getPeers → PeersFit store request.data) ∧
        (request.data.cmd = .recv → request.data.id.length ≤ 29) := by
  obtain ⟨idShort, msgShort⟩ := short_of_decoded accepted.2
  have id := Nat.le_trans idShort accepted.1
  have msg := Nat.le_trans msgShort accepted.1
  cases cmd : request.data.cmd with
  | update => simpa using update_answersAsDue refines short healthy msg cmd
  | getPeers => simpa using getPeers_answersAsDue_iff refines healthy id cmd
  | host =>
      have due : AnswersAsDue store request := host_answersAsDue healthy id hostname cmd
      simpa using due
  | recv => simpa using recv_answersAsDue_iff refines cmd
  | send =>
      refine iff_of_true (answersAsDue_of_quiet ?_ fun silent => ?_) (by simp)
      · rw [cmd]
        rfl
      · rw [cmd] at silent
        contradiction
  | _ =>
      refine iff_of_true (answersAsDue_of_quiet ?_ fun _ => ?_) (by simp)
      · rw [cmd]
        rfl
      · refine ⟨_, by rw [Request.dispatch, dispatch, cmd], rfl⟩

end Query

/-- In every store that accepted requests leave behind and on a connection that
takes every frame, an accepted request gets what is due exactly where the list of
the peers that it asks for fits a frame, and the id of the message that it brings
fits its record. -/
theorem answersAsDue_iff (requests : List Request)
    (accepted : ∀ request ∈ requests, request.Accepted) (store : Store)
    (trace : List (Request × List Effect)) (ran : run Store.empty requests = .ok (store, trace))
    (request : Request) (isAccepted : request.Accepted) (healthy : request.environment.Healthy)
    (hostname : request.environment.hostname.length ≤ 62) :
    AnswersAsDue store request ↔
      (request.data.cmd = .getPeers → PeersFit store request.data) ∧
        (request.data.cmd = .recv → request.data.id.length ≤ 29) := by
  have refines := (refines_of_run ran).1
  have short := storedShort_after accepted
  exact answersAsDue_iff_of_refines refines short isAccepted healthy hostname

/-- A message as it is accepted, with the text that it was read from. -/
def sampleRequest (data : DataWrapper) : Request where
  environment := (sampleRecv "alice" "hi").environment
  json := convertDatastructToChar data
  data := arrival data sampleTime

private theorem sampleRequest_accepted {data : DataWrapper} (valid : ValidText data)
    (short : (convertDatastructToChar data).length ≤ 511) : (sampleRequest data).Accepted :=
  ⟨short, decode_encode valid sampleTime⟩

/-- The client asks for the list of the peers. -/
def sampleListing : Request :=
  sampleRequest { (sampleRecv "client" "").data with cmd := .getPeers }

private theorem sampleListing_accepted : sampleListing.Accepted :=
  sampleRequest_accepted ⟨by decide, by decide, fun _ => by decide⟩ (by decide +kernel)

theorem answersAsDue_iff_listing :
    ∃ store trace, run Store.empty [sampleRequest (sampleRecv "alice" "hi").data] =
        .ok (store, trace) ∧
      AnswersAsDue store sampleListing := by
  have accepted : ∀ request ∈ [sampleRequest (sampleRecv "alice" "hi").data],
      request.Accepted := by
    intro request member
    rw [List.mem_singleton.mp member]
    exact sampleRequest_accepted ⟨by decide, by decide, fun _ => by decide⟩ (by decide +kernel)
  refine ⟨_, _, rfl, ?_⟩
  apply (answersAsDue_iff _ accepted _ _ rfl sampleListing sampleListing_accepted
    (fun _ => Int.le_refl 0) (by decide)).mpr
  constructor
  · intro _
    unfold PeersFit
    decide +kernel
  · intro recv
    contradiction

/-! ## A crowd -/

/-- An id of as many digits as an id may have. -/
def crowdId (number : Nat) : CString := CString.ofBytes (fixedDigits 29 number)

/-- The message of one peer of a crowd. -/
def crowdRecv (number : Nat) : Request :=
  sampleRequest { (sampleRecv "alice" "hi").data with id := crowdId number }

def crowd (size : Nat) : List Request := (List.range size).map crowdRecv

private theorem bytes_crowdId (number : Nat) : (crowdId number).bytes = fixedDigits 29 number := by
  apply CString.ofBytes_eq_of_noNul
  intro nul
  exact absurd (isDigit_of_mem_fixedDigits nul) (by decide)

private theorem length_crowdId (number : Nat) : (crowdId number).length = 29 := by
  rw [CString.length, bytes_crowdId, length_fixedDigits]

private theorem crowdId_inj {first second : Nat} (firstSmall : first < 10 ^ 29)
    (secondSmall : second < 10 ^ 29) (same : crowdId first = crowdId second) :
    first = second := by
  have digits : fixedDigits 29 first = fixedDigits 29 second := by
    rw [← bytes_crowdId, ← bytes_crowdId, same]
  have values := congrArg decimalValue digits
  rw [decimalValue_fixedDigits, decimalValue_fixedDigits, Nat.mod_eq_of_lt firstSmall,
    Nat.mod_eq_of_lt secondSmall] at values
  exact values

private theorem crowdRecv_accepted (number : Nat) : (crowdRecv number).Accepted := by
  have msg : ValidUtf8 (sampleRecv "alice" "hi").data.msg.bytes := by decide
  have date : ValidUtf8 (sampleRecv "alice" "hi").data.date.bytes := by decide
  apply sampleRequest_accepted
  · refine ⟨?_, msg, fun _ => date⟩
    show ValidUtf8 (crowdId number).bytes
    rw [bytes_crowdId]
    exact validUtf8_fixedDigits 29 number
  · have id := escapedLength_le (crowdId number)
    have portno := length_portno_le 0
    rw [length_crowdId] at id
    rw [length_convertDatastructToChar]
    show 37 + 4 + escapedLength (crowdId number) + 2 + (dumpInteger (0 : Int32).toInt).length +
      10 ≤ 511
    omega

/-- The peers of a crowd stand in the order of their numbers. -/
private theorem keys_crowd {size : Nat} (small : size ≤ 10 ^ 29) :
    ((QueueTable.empty : UnreadTable).after (ops (crowd size))).keys =
      (List.range size).map crowdId := by
  have pushes : ops (crowd size) =
      ((List.range size).map fun number => (crowdId number,
        ({ content := CString.literal "hi", date := getShortDate sampleTime, cmd := .recv } :
          Stored))).map fun entry => .push entry.1 entry.2 := by
    rw [ops, crowd, List.map_map, List.map_map]
    rfl
  have fresh : ((List.range size).map crowdId).Nodup := by
    apply List.Nodup.map_on _ List.nodup_range
    intro first inRange second inRangeToo same
    rw [List.mem_range] at inRange inRangeToo
    exact crowdId_inj (by omega) (by omega) same
  rw [pushes, QueueTable.keys_after_pushes]
  · rw [List.map_map]
    rfl
  · rw [List.map_map]
    exact fresh

private theorem listedLength_crowd (size : Nat) :
    listedLength ((List.range size).map crowdId) ≥ 30 * size := by
  induction size with
  | zero => exact Nat.zero_le _
  | succ size inductionHypothesis =>
      have last := length_le_escapedLength (crowdId size)
      rw [length_crowdId] at last
      unfold listedLength at inductionHypothesis ⊢
      rw [List.range_succ, List.map_append, List.map_append, List.sum_append]
      simp only [List.map_cons, List.map_nil, List.sum_cons, List.sum_nil]
      omega

/-- Three hundred peers each send a message; the list of them is asked for, and
gets no reply. -/
theorem crowded_list_is_not_sent :
    (∀ request ∈ crowd 300, request.Accepted) ∧ sampleListing.Accepted ∧
      sampleListing.environment.Healthy ∧ sampleListing.environment.hostname.length ≤ 62 ∧
      sampleListing.data.cmd = .getPeers ∧
      ∃ store trace, run Store.empty (crowd 300) = .ok (store, trace) ∧
        ¬ AnswersAsDue store sampleListing := by
  have accepted : ∀ request ∈ crowd 300, request.Accepted := by
    intro request member
    obtain ⟨number, _, rfl⟩ := List.mem_map.mp member
    exact crowdRecv_accepted number
  have admissible : ∀ request ∈ crowd 300, request.Admissible := by
    intro request member _
    obtain ⟨number, _, rfl⟩ := List.mem_map.mp member
    exact Nat.le_of_eq (length_crowdId number)
  have healthy : sampleListing.environment.Healthy := fun _ => Int.le_refl 0
  have hostname : sampleListing.environment.hostname.length ≤ 62 := by decide
  obtain ⟨store, trace, ran, refined, _⟩ := run_empty admissible
  refine ⟨accepted, sampleListing_accepted, healthy, hostname, rfl, store, trace, ran, ?_⟩
  rw [answersAsDue_iff_of_refines refined (storedShort_after accepted) sampleListing_accepted
    healthy hostname]
  rintro ⟨fits, _⟩
  have room := fits rfl
  have listed := listedLength_crowd 300
  rw [PeersFit, refined.head_keys, keys_crowd (by decide)] at room
  omega

end Torchat.Daemon
