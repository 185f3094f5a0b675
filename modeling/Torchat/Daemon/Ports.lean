import Torchat.Json.MemberTokens
import Torchat.Daemon.SendOverTor

/-!
Contract: the port that a request to send is connected to.

The number in the text is kept as an integer or a double, becomes an `int` and then
the `uint16_t` of `proxysocket_connect`. Owns the number as the text has it, the port
that is tried, and when they are the same. Behind a host name that was copied over the
end of its block nothing is known of the port, as in `Relay`.

Does not own the wait for the connection; see `SendOverTor`.
-/

set_option autoImplicit false

namespace Torchat.Daemon

open Torchat.Foundation
open Torchat.Json

/-- The parameter `dstport` of `proxysocket_connect`, a `uint16_t`. -/
def dstport (portno : Int32) : UInt16 := portno.toUInt32.toUInt16

/-! ## Requests -/

/-- The token of a string. -/
def DenotesString (first : ValueToken) (text : Bytes) : Prop :=
  ∃ raw, first.1 = .valueString raw ∧ getString raw = some text

/-- The members of a message to send to `id`, whose `portno` is a number. -/
structure SendFields (tokens : List (Bytes × ValueToken)) (id : Bytes) (portno : Token) :
    Prop where
  msg : ∃ first text, findMember (ascii "msg") tokens = some first ∧ DenotesString first text
  id : ∃ first, findMember (ascii "id") tokens = some first ∧ DenotesString first id
  cmd : ∃ first, findMember (ascii "cmd") tokens = some first ∧ DenotesString first (ascii "SEND")
  number : ∃ behind, findMember (ascii "portno") tokens = some (portno, behind)
  isNumber : portno.isNumber = true
  date : ∀ first, findMember (ascii "date") tokens = some first →
    ∃ text, DenotesString first text

def SendRequest (jsonCh : CString) (id : Bytes) (portno : Token) : Prop :=
  ∃ tokens, memberTokens jsonCh.bytes = some tokens ∧ SendFields tokens id portno

/-! ## Attempts -/

section Attempts

variable (environment : Environment) (jsonCh : CString) (now : Tm)

/-- `send_routine` comes to `send_over_tor` with the text of a request, and the steps of
`send_over_tor` take the process to a state. -/
def Sending (data : DataWrapper) (state : SendOverTor) : Prop :=
  convertStringToDatastruct jsonCh now = .ok (some data) ∧ data.cmd = .send ∧
    ∃ buf actions, relayedText (sendRoutine environment data) = some buf ∧
      runActions (SendOverTor.step buf) (SendOverTor.start data.id data.portno) actions =
        some state

/-- A connection to this port is attempted. -/
def Attempts (port : UInt16) : Prop :=
  ∃ data state domain portno, Sending environment jsonCh now data state ∧
    state.thread = .connect domain portno ∧ dstport portno = port

/-- The client gets ERR. -/
def AnswersErr : Prop :=
  ∃ data state, Sending environment jsonCh now data state ∧
    (repliesOf environment data state).map DataWrapper.cmd = [.err]

/-- The port that is tried is the one in the text, or none is tried and the client
hears of it. -/
def PortKept (portno : Token) : Prop :=
  (∃ port : UInt16, (∀ other, Attempts environment jsonCh now other ↔ other = port) ∧
      1 ≤ port.toNat ∧ portno.value = port.toNat) ∨
    ((∀ port, ¬ Attempts environment jsonCh now port) ∧ AnswersErr environment jsonCh now)

end Attempts

/-- The number is a port, no number of the text is out of range, and the host name is not
longer than the id that it is copied over. -/
def HasPort (environment : Environment) (jsonCh : CString) (id : Bytes) (portno : Token) : Prop :=
  (∃ port : Nat, 1 ≤ port ∧ port ≤ 65535 ∧ portno.value = port) ∧
    parse jsonCh.bytes ≠ .error .outOfRange ∧
    environment.hostname.length ≤ (CString.ofBytes id).length

/-! ## Decoding -/

section Decoding

variable {jsonCh : CString} {now : Tm} {id : Bytes} {portno : Token}

private theorem string_of_readAs {first : ValueToken} {text : Bytes} {value : BasicJson}
    (denotes : DenotesString first text) (readAs : ReadAs first value) : value = .string text := by
  obtain ⟨token, behind⟩ := first
  obtain ⟨raw, rfl, valid⟩ := denotes
  obtain ⟨again, validAgain, rfl⟩ := readAs
  rw [valid] at validAgain
  cases validAgain
  rfl

private theorem toInt_of_getNumber {token : Token} {rest : Bytes} {value : BasicJson}
    (read : getNumber token rest = .ok value) : ∃ portno, value.toInt = .ok portno := by
  have float (lexeme : Bytes) (read : getFloat lexeme = .ok value) :
      ∃ portno, value.toInt = .ok portno := by
    unfold getFloat at read
    split at read
    next double _ =>
      cases read
      by_cases inside : -2 ^ 31 ≤ double.truncate ∧ double.truncate < 2 ^ 31
      · exact ⟨_, if_pos inside⟩
      · exact ⟨_, if_neg inside⟩
    next => contradiction
  have large (lexeme : Bytes) (read : getLargeInteger lexeme rest = .ok value) :
      ∃ portno, value.toInt = .ok portno := by
    unfold getLargeInteger at read
    split at read
    next => contradiction
    next => exact float lexeme read
  unfold getNumber at read
  split at read
  next =>
    split at read
    next =>
      cases read
      exact ⟨_, rfl⟩
    next => exact large _ read
  next =>
    split at read
    next =>
      cases read
      exact ⟨_, rfl⟩
    next => exact large _ read
  next => exact float _ read
  next => contradiction

/-- A request is decoded with its number as an `int`, or the parser throws. -/
private theorem decoded_of_sendRequest (request : SendRequest jsonCh id portno) :
    (∃ data rest value, convertStringToDatastruct jsonCh now = .ok (some data) ∧
        data.cmd = .send ∧ data.id = CString.ofBytes id ∧ getNumber portno rest = .ok value ∧
        value.toInt = .ok data.portno) ∨
      parse jsonCh.bytes = .error .outOfRange := by
  obtain ⟨tokens, scanned, fields⟩ := request
  rcases parse_of_memberTokens scanned with ⟨members, parsed, readAs⟩ | thrown
  · left
    have string : ∀ {key : String} {first : ValueToken} {text : Bytes},
        findMember (ascii key) tokens = some first → DenotesString first text →
          findMember (ascii key) members = some (.string text) := by
      intro key first text found denotes
      obtain ⟨value, inMembers, read⟩ := findMember_of_tokens readAs found
      rw [inMembers, string_of_readAs denotes read]
    obtain ⟨_, msg, msgFound, msgDenotes⟩ := fields.msg
    obtain ⟨_, idFound, idDenotes⟩ := fields.id
    obtain ⟨_, cmdFound, cmdDenotes⟩ := fields.cmd
    obtain ⟨behind, numberFound⟩ := fields.number
    obtain ⟨value, inMembers, numberRead⟩ := findMember_of_tokens readAs numberFound
    have read := getNumber_of_readAs fields.isNumber numberRead
    obtain ⟨number, converted⟩ := toInt_of_getNumber read
    obtain ⟨date, dateRead⟩ : ∃ date,
        (∃ text, findMember (ascii "date") members = some (.string text) ∧
            date = CString.ofBytes text) ∨
          findMember (ascii "date") members = none ∧ date = getDate now := by
      cases dateFound : findMember (ascii "date") tokens with
      | none => exact ⟨_, Or.inr ⟨findMember_eq_none_of_tokens readAs dateFound, rfl⟩⟩
      | some first =>
          obtain ⟨text, denotes⟩ := fields.date first dateFound
          exact ⟨_, Or.inl ⟨text, string dateFound denotes, rfl⟩⟩
    let data : DataWrapper :=
      { cmd := convertToEnum (ascii "SEND"), id := CString.ofBytes id, portno := number,
        msg := CString.ofBytes msg, date := date }
    have decoded : Fields members now data :=
      { msg := ⟨msg, string msgFound msgDenotes, rfl⟩
        id := ⟨id, string idFound idDenotes, rfl⟩
        portno := ⟨value, inMembers, converted⟩
        cmd := ⟨ascii "SEND", string cmdFound cmdDenotes, rfl⟩
        date := dateRead }
    have isSend : convertToEnum (ascii "SEND") = .send := by decide
    exact ⟨data, behind, value, decoded_of_fields parsed decoded, isSend, rfl, read, converted⟩
  · exact Or.inr thrown

end Decoding

/-! ## The thread -/

namespace SendOverTor

/-- The thread has the domain and the number of its request in front of it. -/
def Connecting (domain : CString) (portno : Int32) (state : SendOverTor) : Prop :=
  match state.thread with
  | .start => state.threadData.bind state.heap.load = some { domain := domain, portno := portno }
  | .connect domain' portno' => domain' = domain ∧ portno' = portno
  | _ => True

variable {buf domain : CString} {portno : Int32}

/-- The coroutine leaves the thread and its block alone. -/
private theorem unchanged_of_stepCoroutine {state after : SendOverTor} {attached : Int}
    {fdSend : Bytes → Int} (stepped : state.stepCoroutine buf attached fdSend = some after) :
    after.heap = state.heap ∧ after.threadData = state.threadData ∧
      after.thread = state.thread := by
  unfold stepCoroutine at stepped
  split at stepped
  next => split at stepped <;> cases stepped <;> exact ⟨rfl, rfl, rfl⟩
  next => cases stepped; exact ⟨rfl, rfl, rfl⟩
  next =>
    split at stepped
    next => cases stepped; exact ⟨rfl, rfl, rfl⟩
    next => contradiction
  next => cases stepped; exact ⟨rfl, rfl, rfl⟩
  next => contradiction

private theorem connecting_of_step (state : SendOverTor) (action : Action) (after : SendOverTor)
    (connecting : Connecting domain portno state) (stepped : step buf state action = some after) :
    Connecting domain portno after := by
  cases action with
  | thread connected =>
      unfold Connecting at connecting
      simp only [step, stepThread] at stepped
      split at stepped
      next point =>
        rw [point] at connecting
        simp only [connecting, Option.map_some] at stepped
        cases stepped
        exact ⟨rfl, rfl⟩
      next => cases stepped; exact trivial
      next =>
        obtain ⟨freed, _, rfl⟩ := Option.map_eq_some_iff.mp stepped
        exact trivial
      next => cases stepped; exact trivial
      next => contradiction
  | coroutine attached fdSend =>
      obtain ⟨heap, threadData, thread⟩ := unchanged_of_stepCoroutine stepped
      unfold Connecting at connecting ⊢
      rw [heap, threadData, thread]
      exact connecting

/-- The thread connects to the number of its request. -/
private theorem connecting_of_run {actions : List Action} {state : SendOverTor}
    (ran : runActions (step buf) (start domain portno) actions = some state) :
    Connecting domain portno state := by
  have begins : Connecting domain portno (start domain portno) := rfl
  exact invariant_of_steps connecting_of_step begins ran

end SendOverTor

/-! ## The port -/

section Kept

variable {environment : Environment} {jsonCh : CString} {now : Tm} {data : DataWrapper}

/-- A request that is decoded is tried on one port, if its id has room for the host name. -/
private theorem attempts_iff (decoded : convertStringToDatastruct jsonCh now = .ok (some data))
    (send : data.cmd = .send) (port : UInt16) :
    Attempts environment jsonCh now port ↔
      environment.hostname.length ≤ data.id.length ∧ port = dstport data.portno := by
  constructor
  · rintro ⟨other, state, domain, portno, ⟨decodedAgain, _, buf, actions, built, ran⟩, connects,
      rfl⟩
    rw [decoded] at decodedAgain
    cases decodedAgain
    have connecting := SendOverTor.connecting_of_run ran
    rw [SendOverTor.Connecting, connects] at connecting
    rw [relayedText_sendRoutine] at built
    refine ⟨?_, by rw [connecting.2]⟩
    by_contra long
    rw [if_neg long] at built
    contradiction
  · rintro ⟨inside, rfl⟩
    have built := relayedText_sendRoutine environment data
    rw [if_pos inside] at built
    exact ⟨data, _, data.id, data.portno, ⟨decoded, send, _, [.thread 0], built, rfl⟩, rfl, rfl⟩

/-- No request is answered with ERR, since none is answered. -/
private theorem not_answersErr : ¬ AnswersErr environment jsonCh now := by
  rintro ⟨data, state, ⟨_, _, buf, actions, _, ran⟩, answered⟩
  have waits := SendOverTor.waits_of_run (SendOverTor.waits_start data.id data.portno) ran
  rw [repliesOf_of_pending (SendOverTor.result_of_waits waits)] at answered
  contradiction

private theorem dstport_ofNat {number : Nat} (small : number ≤ 65535) :
    (dstport (Int32.ofNat number)).toNat = number := by
  rw [dstport, Int32.toUInt32_ofNat', UInt32.toNat_toUInt16, UInt32.toNat_ofNat']
  omega

private theorem parse_ne_of_decoded
    (decoded : convertStringToDatastruct jsonCh now = .ok (some data)) :
    parse jsonCh.bytes ≠ .error .outOfRange := by
  obtain ⟨members, parsed, _⟩ := fields_of_decoded decoded
  rw [parsed]
  intro same
  cases same

/-- The port of a request is kept exactly where its number is a port and its id has room
for the host name. -/
private theorem portKept_iff {id : Bytes} {portno : Token}
    (request : SendRequest jsonCh id portno) :
    PortKept environment jsonCh now portno ↔ HasPort environment jsonCh id portno := by
  rcases @decoded_of_sendRequest jsonCh now id portno request with
    ⟨data, rest, value, decoded, send, isId, read, converted⟩ | thrown
  · constructor
    · rintro (⟨port, only, positive, same⟩ | ⟨_, answered⟩)
      · have below := port.toNat_lt
        have inside := ((attempts_iff decoded send port).mp ((only port).mpr rfl)).1
        rw [isId] at inside
        exact ⟨⟨port.toNat, positive, by omega, same⟩, parse_ne_of_decoded decoded, inside⟩
      · exact absurd answered not_answersErr
    · rintro ⟨⟨port, positive, small, same⟩, _, inside⟩
      rw [← isId] at inside
      have number := toInt_of_value positive (by omega) same read
      rw [converted] at number
      have isPort : data.portno = Int32.ofNat port := Except.ok.inj number
      have kept : (dstport data.portno).toNat = port := by rw [isPort, dstport_ofNat small]
      have only : ∀ other, Attempts environment jsonCh now other ↔ other = dstport data.portno :=
        fun other => (attempts_iff decoded send other).trans (and_iff_right inside)
      exact Or.inl ⟨dstport data.portno, only, by omega, by rw [kept, same]⟩
  · constructor
    · rintro (⟨port, only, _⟩ | ⟨_, answered⟩)
      · obtain ⟨data, _, _, _, ⟨decoded, _⟩, _⟩ := (only port).mpr rfl
        exact absurd thrown (parse_ne_of_decoded decoded)
      · exact absurd answered not_answersErr
    · rintro ⟨_, inRange, _⟩
      exact absurd thrown inRange

/-- What is kept can be told from the port. -/
private theorem value_of_attempts {portno : Token} {port : UInt16}
    (kept : PortKept environment jsonCh now portno)
    (attempts : Attempts environment jsonCh now port) : portno.value = port.toNat := by
  rcases kept with ⟨_, only, _, same⟩ | ⟨none, _⟩
  · rw [(only port).mp attempts, same]
  · exact absurd attempts (none port)

end Kept

/-- Of two requests to send, each is connected to the port in its text, and to
different ports where their numbers differ, exactly where the numbers are ports, the
texts have no number out of range, and the host name is not longer than their ids. -/
theorem ports_kept_iff (environment : Environment) (now : Tm) (first second : CString)
    (firstId secondId : Bytes) (firstPortno secondPortno : Token)
    (firstRequest : SendRequest first firstId firstPortno)
    (secondRequest : SendRequest second secondId secondPortno) :
    (PortKept environment first now firstPortno ∧ PortKept environment second now secondPortno ∧
        (firstPortno.value ≠ secondPortno.value → ∀ port,
          ¬ (Attempts environment first now port ∧ Attempts environment second now port))) ↔
      HasPort environment first firstId firstPortno ∧
        HasPort environment second secondId secondPortno := by
  constructor
  · rintro ⟨firstKept, secondKept, _⟩
    exact ⟨(portKept_iff firstRequest).mp firstKept, (portKept_iff secondRequest).mp secondKept⟩
  · rintro ⟨firstPort, secondPort⟩
    have firstKept : PortKept environment first now firstPortno :=
      (portKept_iff firstRequest).mpr firstPort
    have secondKept : PortKept environment second now secondPortno :=
      (portKept_iff secondRequest).mpr secondPort
    refine ⟨firstKept, secondKept, ?_⟩
    rintro different port ⟨firstAttempt, secondAttempt⟩
    apply different
    rw [value_of_attempts firstKept firstAttempt, value_of_attempts secondKept secondAttempt]

/-- The text of a request to send to this port. -/
def sampleText (portno : Int32) : CString :=
  convertDatastructToChar { sampleSend 5 with portno := portno }

private theorem sampleText_decoded (portno : Int32) (now : Tm) :
    convertStringToDatastruct (sampleText portno) now =
      .ok (some (arrival { sampleSend 5 with portno := portno } now)) := by
  apply decode_encode
  have id : ValidUtf8 (sampleSend 5).id.bytes := by decide
  have msg : ValidUtf8 (sampleSend 5).msg.bytes := by decide
  exact ⟨id, msg, fun dated => by contradiction⟩

private theorem findMember_map {α β : Type} (convert : α → β) (key : Bytes)
    (members : List (Bytes × α)) :
    findMember key (members.map fun member => (member.1, convert member.2)) =
      (findMember key members).map convert := by
  induction members with
  | nil => rfl
  | cons member rest inductionHypothesis =>
      rw [List.map_cons, findMember, findMember, inductionHypothesis]
      split <;> rfl

private theorem sendRequest_of_members {jsonCh : CString} {portno : Token} {id msg : Bytes}
    (scanned : (memberTokens jsonCh.bytes).map
        (List.map fun member => (member.1, member.2.1)) =
      some [(ascii "cmd", .valueString (ascii "SEND")), (ascii "id", .valueString id),
        (ascii "msg", .valueString msg), (ascii "portno", portno)])
    (validId : getString id = some id) (validMsg : getString msg = some msg)
    (isNumber : portno.isNumber = true) : SendRequest jsonCh id portno := by
  obtain ⟨tokens, found, members⟩ := Option.map_eq_some_iff.mp scanned
  have lookup (key : Bytes) : (findMember key tokens).map Prod.fst = findMember key
      [(ascii "cmd", .valueString (ascii "SEND")), (ascii "id", .valueString id),
        (ascii "msg", .valueString msg), (ascii "portno", portno)] := by
    rw [← findMember_map, members]
  have string {key : String} {raw : Bytes}
      (token : (findMember (ascii key) tokens).map Prod.fst = some (.valueString raw))
      (valid : getString raw = some raw) :
      ∃ first, findMember (ascii key) tokens = some first ∧ DenotesString first raw := by
    obtain ⟨first, inTokens, same⟩ := Option.map_eq_some_iff.mp token
    exact ⟨first, inTokens, raw, same, valid⟩
  obtain ⟨msgFirst, msgFound, msgDenotes⟩ := string (lookup (ascii "msg")) validMsg
  obtain ⟨idFirst, idFound, idDenotes⟩ := string (lookup (ascii "id")) validId
  obtain ⟨number, numberFound, same⟩ := Option.map_eq_some_iff.mp (lookup (ascii "portno"))
  refine ⟨tokens, found, ?_⟩
  constructor
  case msg => exact ⟨msgFirst, msg, msgFound, msgDenotes⟩
  case id => exact ⟨idFirst, idFound, idDenotes⟩
  case cmd => exact string (lookup (ascii "cmd")) (by decide)
  case number =>
    have isPortno : number.1 = portno := same
    rw [← isPortno]
    exact ⟨number.2, numberFound⟩
  case isNumber => exact isNumber
  case date =>
    intro first dateFound
    have none_ := lookup (ascii "date")
    rw [dateFound] at none_
    contradiction

private theorem sampleText_request {portno : Int32} {digits : Bytes}
    (scanned : (memberTokens (sampleText portno).bytes).map
        (List.map fun member => (member.1, member.2.1)) =
      some [(ascii "cmd", .valueString (ascii "SEND")),
        (ascii "id", .valueString (sampleSend 5).id.bytes),
        (ascii "msg", .valueString (sampleSend 5).msg.bytes),
        (ascii "portno", .valueUnsigned digits)]) :
    SendRequest (sampleText portno) (sampleSend 5).id.bytes (.valueUnsigned digits) :=
  sendRequest_of_members scanned (by decide +kernel) (by decide +kernel) rfl

private theorem sampleText_attempts (portno : Int32) (port : UInt16) :
    Attempts sampleEnvironment (sampleText portno) sampleTime port ↔ port = dstport portno := by
  have room : sampleEnvironment.hostname.length ≤ (sampleSend 5).id.length := by decide
  exact (attempts_iff (sampleText_decoded portno sampleTime) rfl port).trans (and_iff_right room)

theorem ports_kept_iff_80_443 :
    PortKept sampleEnvironment (sampleText 80) sampleTime (.valueUnsigned (ascii "80")) ∧
      ∀ port, ¬ (Attempts sampleEnvironment (sampleText 80) sampleTime port ∧
        Attempts sampleEnvironment (sampleText 443) sampleTime port) := by
  have first : decimalValue (ascii "80") = 80 := by decide
  have second : decimalValue (ascii "443") = 443 := by decide
  have room : sampleEnvironment.hostname.length ≤
      (CString.ofBytes (sampleSend 5).id.bytes).length := by decide
  obtain ⟨kept, _, apart⟩ := (ports_kept_iff sampleEnvironment sampleTime (sampleText 80)
    (sampleText 443) _ _ (.valueUnsigned (ascii "80")) (.valueUnsigned (ascii "443"))
    (sampleText_request (by decide +kernel)) (sampleText_request (by decide +kernel))).mpr
    ⟨⟨⟨80, by decide, by decide, by rw [Token.value, first]⟩,
        parse_ne_of_decoded (sampleText_decoded 80 sampleTime), room⟩,
      ⟨443, by decide, by decide, by rw [Token.value, second]⟩,
        parse_ne_of_decoded (sampleText_decoded 443 sampleTime), room⟩
  refine ⟨kept, apart ?_⟩
  rw [Token.value, Token.value, first, second]
  norm_num

/-- The number 65616 is connected to the port 80, which is also the port of 80. -/
theorem port_65616_is_80 :
    SendRequest (sampleText 65616) (sampleSend 5).id.bytes (.valueUnsigned (ascii "65616")) ∧
      SendRequest (sampleText 80) (sampleSend 5).id.bytes (.valueUnsigned (ascii "80")) ∧
      sampleEnvironment.hostname.length ≤ (CString.ofBytes (sampleSend 5).id.bytes).length ∧
      Attempts sampleEnvironment (sampleText 65616) sampleTime 80 ∧
      Attempts sampleEnvironment (sampleText 80) sampleTime 80 ∧
      ¬ PortKept sampleEnvironment (sampleText 65616) sampleTime
        (.valueUnsigned (ascii "65616")) := by
  have attempt := (sampleText_attempts 65616 80).mpr (by decide)
  refine ⟨sampleText_request (by decide +kernel), sampleText_request (by decide +kernel),
    by decide, attempt, (sampleText_attempts 80 80).mpr (by decide), ?_⟩
  intro kept
  have value := value_of_attempts kept attempt
  have digits : decimalValue (ascii "65616") = 65616 := by decide
  have port : (80 : UInt16).toNat = 80 := rfl
  rw [Token.value, digits, port] at value
  norm_num at value

end Torchat.Daemon
