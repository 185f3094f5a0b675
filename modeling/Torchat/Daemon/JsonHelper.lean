import Torchat.Json.Writer
import Torchat.Daemon.Datastruct

/-!
Contract: the messages of the daemon as JSON text.

Owns the two converters of `jsonhelper.cpp` with the exceptions that leave
them, the shape that a decodable text has, and the round trip of the converters
in both directions.

Does not own the text format; see `Json`.
-/

set_option autoImplicit false

namespace Torchat.Daemon

open Torchat.Foundation
open Torchat.Json

/-! ## Commands -/

/-- `convert_to_enum`. -/
def convertToEnum (cmd : Bytes) : Command :=
  if cmd = ascii "RECV" then .recv
  else if cmd = ascii "SEND" then .send
  else if cmd = ascii "GET_PEERS" then .getPeers
  else if cmd = ascii "EXIT" then .exit
  else if cmd = ascii "UPDATE" then .update
  else if cmd = ascii "END" then .end_
  else if cmd = ascii "HOST" then .host
  else .err

/-- `convert_from_enum`. -/
def convertFromEnum : Command → Bytes
  | .recv => ascii "RECV"
  | .send => ascii "SEND"
  | .exit => ascii "EXIT"
  | .getPeers => ascii "GET_PEERS"
  | .update => ascii "UPDATE"
  | .end_ => ascii "END"
  | .host => ascii "HOST"
  | .err => ascii "ERR"

theorem convertToEnum_convertFromEnum (cmd : Command) :
    convertToEnum (convertFromEnum cmd) = cmd := by
  cases cmd <;> decide

/-- A name of no command stands for ERR. -/
theorem convertToEnum_of_unknown {name : Bytes} (unknown : ∀ cmd, convertFromEnum cmd ≠ name) :
    convertToEnum name = .err := by
  have other (cmd : Command) : ¬ name = convertFromEnum cmd := Ne.symm (unknown cmd)
  have recv : ¬ name = ascii "RECV" := other .recv
  have send : ¬ name = ascii "SEND" := other .send
  have getPeers : ¬ name = ascii "GET_PEERS" := other .getPeers
  have exit : ¬ name = ascii "EXIT" := other .exit
  have update : ¬ name = ascii "UPDATE" := other .update
  have end_ : ¬ name = ascii "END" := other .end_
  have host : ¬ name = ascii "HOST" := other .host
  simp only [convertToEnum, recv, send, getPeers, exit, update, end_, host, if_false]

/-! ## Decoder -/

/-- A value that is read as a C++ string and kept as a C string. -/
def stringField (value : BasicJson) : Except JsonException CString :=
  value.toStdString.map CString.ofBytes

/-- `convert_string_to_datastruct`. `none` is the NULL of a parse error, the only
exception that is caught; `now` is the time that `get_date` reads. -/
def convertStringToDatastruct (jsonCh : CString) (now : Tm) :
    Except JsonException (Option DataWrapper) :=
  match parse jsonCh.bytes with
  | .error .parseError => .ok none
  | .error exception => .error exception
  | .ok j => do
      let (j, jmsg) ← j.at (ascii "msg")
      let msg ← stringField jmsg
      let (j, jid) ← j.at (ascii "id")
      let id ← stringField jid
      let (j, jportno) ← j.at (ascii "portno")
      let portno ← jportno.toInt
      let (j, jcmd) ← j.at (ascii "cmd")
      let cmd ← jcmd.toStdString
      match j.find (ascii "date") with
      | some jdate => do
          let date ← stringField jdate
          .ok (some { cmd := convertToEnum cmd, id := id, portno := portno, msg := msg, date := date })
      | none =>
          .ok (some
            { cmd := convertToEnum cmd, id := id, portno := portno, msg := msg,
              date := getDate now })

/-! ## Encoder -/

/-- The commands whose messages carry a date. -/
def carriesDate (cmd : Command) : Bool := cmd = .update || cmd = .recv

/-- The members that the encoder assigns. -/
def jsonMembers (data : DataWrapper) : List (Bytes × Scalar) :=
  let j := insertMember (ascii "cmd") (Scalar.string (convertFromEnum data.cmd)) []
  let j := insertMember (ascii "id") (.string data.id.bytes) j
  let j := insertMember (ascii "msg") (.string data.msg.bytes) j
  let j := insertMember (ascii "portno") (.integer data.portno.toInt) j
  if carriesDate data.cmd then insertMember (ascii "date") (.string data.date.bytes) j else j

/-- `convert_datastruct_to_char`. -/
def convertDatastructToChar (data : DataWrapper) : CString :=
  CString.ofBytes (dump (jsonMembers data))

/-! ## What the decoder accepts -/

/-- A number in any of the three forms that the library keeps it in. -/
def IsNumber : BasicJson → Prop
  | .numberUnsigned _ | .numberInteger _ | .numberFloat _ => True
  | _ => False

/-- The fields of a message, each with its type. -/
structure WellShaped (members : List (Bytes × BasicJson)) : Prop where
  msg : ∃ text, findMember (ascii "msg") members = some (.string text)
  id : ∃ text, findMember (ascii "id") members = some (.string text)
  cmd : ∃ text, findMember (ascii "cmd") members = some (.string text)
  portno : ∃ value, findMember (ascii "portno") members = some value ∧ IsNumber value
  date : ∀ value, findMember (ascii "date") members = some value → ∃ text, value = .string text

def WellShapedText (jsonCh : CString) : Prop :=
  ∃ members, parse jsonCh.bytes = .ok (.object members) ∧ WellShaped members

/-- The decoder returns a message for a text of the right shape and NULL for
every other text; it throws nothing. -/
def DecodesTotally (jsonCh : CString) (now : Tm) : Prop :=
  (WellShapedText jsonCh → ∃ data, convertStringToDatastruct jsonCh now = .ok (some data)) ∧
    (¬ WellShapedText jsonCh → convertStringToDatastruct jsonCh now = .ok none)

/-- The fields of a message as the decoder reads them. -/
structure Fields (members : List (Bytes × BasicJson)) (now : Tm) (data : DataWrapper) : Prop where
  msg : ∃ text, findMember (ascii "msg") members = some (.string text) ∧
    data.msg = CString.ofBytes text
  id : ∃ text, findMember (ascii "id") members = some (.string text) ∧
    data.id = CString.ofBytes text
  portno : ∃ value, findMember (ascii "portno") members = some value ∧
    value.toInt = .ok data.portno
  cmd : ∃ name, findMember (ascii "cmd") members = some (.string name) ∧
    data.cmd = convertToEnum name
  date : (∃ text, findMember (ascii "date") members = some (.string text) ∧
      data.date = CString.ofBytes text) ∨
    (findMember (ascii "date") members = none ∧ data.date = getDate now)

private theorem at_of_find {members : List (Bytes × BasicJson)} {key : Bytes} {value : BasicJson}
    (found : findMember key members = some value) :
    (BasicJson.object members).at key = .ok (.object members, value) := by
  simp [BasicJson.at, found]

/-- `operator[]` leaves a document with the member as it is; without the member
it answers null, which has no conversion. -/
private theorem find_of_at {document after value : BasicJson} {key : Bytes}
    (looked : document.at key = .ok (after, value)) (notNull : value ≠ .null) :
    after = document ∧ ∃ members, document = .object members ∧
      findMember key members = some value := by
  cases document with
  | object members =>
      cases found : findMember key members with
      | none =>
          simp only [BasicJson.at, found, Except.ok.injEq, Prod.mk.injEq] at looked
          exact absurd looked.2.symm notNull
      | some member =>
          rw [at_of_find found] at looked
          cases looked
          exact ⟨rfl, members, rfl, found⟩
  | null =>
      simp only [BasicJson.at, findMember, Except.ok.injEq, Prod.mk.injEq] at looked
      exact absurd looked.2.symm notNull
  | _ => simp [BasicJson.at] at looked

private theorem string_of_toStdString {value : BasicJson} {text : Bytes}
    (read : value.toStdString = .ok text) : value = .string text := by
  cases value with
  | string => cases read; rfl
  | _ => simp [BasicJson.toStdString] at read

private theorem string_of_stringField {value : BasicJson} {text : CString}
    (read : stringField value = .ok text) :
    ∃ bytes, value = .string bytes ∧ text = CString.ofBytes bytes := by
  unfold stringField at read
  cases inner : value.toStdString with
  | error => simp [inner, Except.map] at read
  | ok bytes =>
      rw [inner] at read
      exact ⟨bytes, string_of_toStdString inner, (Except.ok.inj read).symm⟩

/-- A message that is decoded is an object with these fields. -/
theorem fields_of_decoded {jsonCh : CString} {now : Tm} {data : DataWrapper}
    (decoded : convertStringToDatastruct jsonCh now = .ok (some data)) :
    ∃ members, parse jsonCh.bytes = .ok (.object members) ∧ Fields members now data := by
  unfold convertStringToDatastruct at decoded
  split at decoded
  next => simp at decoded
  next => contradiction
  next document parsed =>
    obtain ⟨⟨afterMsg, jmsg⟩, msgAt, behindMsgAt⟩ := bind_eq_ok decoded
    obtain ⟨msg, msgRead, behindMsg⟩ := bind_eq_ok behindMsgAt
    obtain ⟨msgText, rfl, rfl⟩ := string_of_stringField msgRead
    obtain ⟨rfl, members, rfl, msgFound⟩ := find_of_at msgAt BasicJson.noConfusion
    obtain ⟨⟨afterId, jid⟩, idAt, behindIdAt⟩ := bind_eq_ok behindMsg
    obtain ⟨id, idRead, behindId⟩ := bind_eq_ok behindIdAt
    obtain ⟨idText, rfl, rfl⟩ := string_of_stringField idRead
    obtain ⟨rfl, _, same, idFound⟩ := find_of_at idAt BasicJson.noConfusion
    cases same
    obtain ⟨⟨afterPortno, jportno⟩, portnoAt, behindPortnoAt⟩ := bind_eq_ok behindId
    obtain ⟨portno, portnoRead, behindPortno⟩ := bind_eq_ok behindPortnoAt
    have portnoNotNull : jportno ≠ .null := by
      rintro rfl
      simp [BasicJson.toInt] at portnoRead
    obtain ⟨rfl, _, same, portnoFound⟩ := find_of_at portnoAt portnoNotNull
    cases same
    obtain ⟨⟨afterCmd, jcmd⟩, cmdAt, behindCmdAt⟩ := bind_eq_ok behindPortno
    obtain ⟨cmd, cmdRead, behindCmd⟩ := bind_eq_ok behindCmdAt
    obtain rfl := string_of_toStdString cmdRead
    obtain ⟨rfl, _, same, cmdFound⟩ := find_of_at cmdAt BasicJson.noConfusion
    cases same
    refine ⟨members, parsed, ?_⟩
    dsimp only [BasicJson.find] at behindCmd
    split at behindCmd
    next jdate dateFound =>
      obtain ⟨date, dateRead, finished⟩ := bind_eq_ok behindCmd
      obtain ⟨dateText, rfl, rfl⟩ := string_of_stringField dateRead
      cases finished
      exact ⟨⟨_, msgFound, rfl⟩, ⟨_, idFound, rfl⟩, ⟨_, portnoFound, portnoRead⟩,
        ⟨_, cmdFound, rfl⟩, Or.inl ⟨_, dateFound, rfl⟩⟩
    next noDate =>
      cases behindCmd
      exact ⟨⟨_, msgFound, rfl⟩, ⟨_, idFound, rfl⟩, ⟨_, portnoFound, portnoRead⟩,
        ⟨_, cmdFound, rfl⟩, Or.inr ⟨noDate, rfl⟩⟩

/-- A string among the members of the object that a text stands for. -/
def textMember (json : CString) (key : Bytes) : Option Bytes :=
  match parse json.bytes with
  | .ok (.object members) =>
      match findMember key members with
      | some (.string text) => some text
      | _ => none
  | _ => none

theorem textMember_of_parse {json : CString} {members : List (Bytes × BasicJson)}
    {key text : Bytes} (parsed : parse json.bytes = .ok (.object members))
    (found : findMember key members = some (.string text)) : textMember json key = some text := by
  rw [textMember, parsed]
  simp only [found]

/-- The text of a decoded message, as its JSON has it. -/
theorem msg_of_decoded {json : CString} {now : Tm} {data : DataWrapper}
    (decoded : convertStringToDatastruct json now = .ok (some data)) {msg : Bytes}
    (isText : textMember json (ascii "msg") = some msg) : data.msg = CString.ofBytes msg := by
  obtain ⟨members, parsed, fields⟩ := fields_of_decoded decoded
  obtain ⟨text, found, content⟩ := fields.msg
  rw [textMember_of_parse parsed found] at isText
  cases isText
  exact content

/-- An object with these fields is decoded to the message. -/
theorem decoded_of_fields {jsonCh : CString} {now : Tm} {data : DataWrapper}
    {members : List (Bytes × BasicJson)} (parsed : parse jsonCh.bytes = .ok (.object members))
    (fields : Fields members now data) :
    convertStringToDatastruct jsonCh now = .ok (some data) := by
  obtain ⟨msgText, msgFound, msgEq⟩ := fields.msg
  obtain ⟨idText, idFound, idEq⟩ := fields.id
  obtain ⟨jportno, portnoFound, portnoRead⟩ := fields.portno
  obtain ⟨name, cmdFound, cmdEq⟩ := fields.cmd
  have read (text : Bytes) : stringField (.string text) = .ok (CString.ofBytes text) := rfl
  have readName : (BasicJson.string name).toStdString = .ok name := rfl
  unfold convertStringToDatastruct
  rw [parsed]
  rcases fields.date with ⟨dateText, dateFound, dateEq⟩ | ⟨noDate, dateEq⟩
  · simp only [at_of_find msgFound, at_of_find idFound, at_of_find portnoFound,
      at_of_find cmdFound, read, readName, portnoRead, BasicJson.find, dateFound, bind,
      Except.bind, ← msgEq, ← idEq, ← cmdEq, ← dateEq]
  · simp only [at_of_find msgFound, at_of_find idFound, at_of_find portnoFound,
      at_of_find cmdFound, read, readName, portnoRead, BasicJson.find, noDate, bind,
      Except.bind, ← msgEq, ← idEq, ← cmdEq, ← dateEq]

/-- Only the parse error is answered by NULL. -/
private theorem parseError_of_null {jsonCh : CString} {now : Tm}
    (decoded : convertStringToDatastruct jsonCh now = .ok none) :
    parse jsonCh.bytes = .error .parseError := by
  unfold convertStringToDatastruct at decoded
  split at decoded
  next parsed => exact parsed
  next => contradiction
  next document parsed =>
    obtain ⟨_, _, behindMsgAt⟩ := bind_eq_ok decoded
    obtain ⟨_, _, behindMsg⟩ := bind_eq_ok behindMsgAt
    obtain ⟨_, _, behindIdAt⟩ := bind_eq_ok behindMsg
    obtain ⟨_, _, behindId⟩ := bind_eq_ok behindIdAt
    obtain ⟨_, _, behindPortnoAt⟩ := bind_eq_ok behindId
    obtain ⟨_, _, behindPortno⟩ := bind_eq_ok behindPortnoAt
    obtain ⟨_, _, behindCmdAt⟩ := bind_eq_ok behindPortno
    obtain ⟨_, _, behindCmd⟩ := bind_eq_ok behindCmdAt
    split at behindCmd
    next =>
      obtain ⟨_, _, finished⟩ := bind_eq_ok behindCmd
      simp at finished
    next => simp at behindCmd

private theorem toInt_of_isNumber {value : BasicJson} (number : IsNumber value) :
    ∃ portno, value.toInt = .ok portno := by
  cases value with
  | numberUnsigned value => exact ⟨_, rfl⟩
  | numberInteger value => exact ⟨_, rfl⟩
  | numberFloat value =>
      simp only [BasicJson.toInt]
      split <;> exact ⟨_, rfl⟩
  | _ => exact number.elim

private theorem decoded_of_wellShaped {jsonCh : CString} (shaped : WellShapedText jsonCh)
    (now : Tm) : ∃ data, convertStringToDatastruct jsonCh now = .ok (some data) := by
  obtain ⟨members, parsed, wellShaped⟩ := shaped
  obtain ⟨msg, msgFound⟩ := wellShaped.msg
  obtain ⟨id, idFound⟩ := wellShaped.id
  obtain ⟨name, cmdFound⟩ := wellShaped.cmd
  obtain ⟨value, portnoFound, number⟩ := wellShaped.portno
  obtain ⟨portno, portnoRead⟩ := toInt_of_isNumber number
  cases dateFound : findMember (ascii "date") members with
  | none =>
      exact ⟨{ cmd := convertToEnum name, id := CString.ofBytes id, portno := portno,
               msg := CString.ofBytes msg, date := getDate now },
        decoded_of_fields parsed ⟨⟨_, msgFound, rfl⟩, ⟨_, idFound, rfl⟩,
          ⟨_, portnoFound, portnoRead⟩, ⟨_, cmdFound, rfl⟩, Or.inr ⟨dateFound, rfl⟩⟩⟩
  | some date =>
      obtain ⟨text, rfl⟩ := wellShaped.date date dateFound
      exact ⟨{ cmd := convertToEnum name, id := CString.ofBytes id, portno := portno,
               msg := CString.ofBytes msg, date := CString.ofBytes text },
        decoded_of_fields parsed ⟨⟨_, msgFound, rfl⟩, ⟨_, idFound, rfl⟩,
          ⟨_, portnoFound, portnoRead⟩, ⟨_, cmdFound, rfl⟩, Or.inl ⟨_, dateFound, rfl⟩⟩⟩

/-- The decoder is total exactly on syntax errors and on texts of the right
shape: on all others an exception leaves it, or a boolean passes for a port. -/
theorem decodesTotally_iff (jsonCh : CString) (now : Tm) :
    DecodesTotally jsonCh now ↔
      parse jsonCh.bytes = .error .parseError ∨ WellShapedText jsonCh := by
  constructor
  · intro total
    by_cases shaped : WellShapedText jsonCh
    · exact Or.inr shaped
    · exact Or.inl (parseError_of_null (total.2 shaped))
  · intro condition
    rcases condition with syntaxError | shaped
    · constructor
      · rintro ⟨members, parsed, _⟩
        rw [syntaxError] at parsed
        contradiction
      · intro _
        unfold convertStringToDatastruct
        rw [syntaxError]
    · exact ⟨fun _ => decoded_of_wellShaped shaped now, fun other => absurd shaped other⟩

private theorem not_decodesTotally {jsonCh : CString} {now : Tm} {exception : JsonException}
    (thrown : convertStringToDatastruct jsonCh now = .error exception) :
    ¬ DecodesTotally jsonCh now := by
  intro total
  by_cases shaped : WellShapedText jsonCh
  · obtain ⟨data, decoded⟩ := total.1 shaped
    rw [thrown] at decoded
    contradiction
  · have decoded := total.2 shaped
    rw [thrown] at decoded
    contradiction

/-- A number that overflows and an object without fields both end in an exception
that nobody catches. -/
theorem exceptions_escape :
    convertStringToDatastruct (CString.literal "1e999") sampleTime =
        .error .outOfRange ∧
      convertStringToDatastruct (CString.literal "[]") sampleTime =
        .error .typeError ∧
      ¬ DecodesTotally (CString.literal "1e999") sampleTime ∧
      ¬ DecodesTotally (CString.literal "[]") sampleTime := by
  have overflow : convertStringToDatastruct (CString.literal "1e999")
      sampleTime = .error .outOfRange := by decide +kernel
  have noObject : convertStringToDatastruct (CString.literal "[]")
      sampleTime = .error .typeError := by decide +kernel
  exact ⟨overflow, noObject, not_decodesTotally overflow, not_decodesTotally noObject⟩

/-! ## Round trip -/

theorem jsonMembers_eq (data : DataWrapper) :
    jsonMembers data =
      if carriesDate data.cmd then
        [(ascii "cmd", .string (convertFromEnum data.cmd)), (ascii "date", .string data.date.bytes),
          (ascii "id", .string data.id.bytes), (ascii "msg", .string data.msg.bytes),
          (ascii "portno", .integer data.portno.toInt)]
      else
        [(ascii "cmd", .string (convertFromEnum data.cmd)), (ascii "id", .string data.id.bytes),
          (ascii "msg", .string data.msg.bytes), (ascii "portno", .integer data.portno.toInt)] := by
  unfold jsonMembers
  split <;> rfl

/-- The strings of a message that are written are whole characters. -/
structure ValidText (data : DataWrapper) : Prop where
  id : ValidUtf8 data.id.bytes
  msg : ValidUtf8 data.msg.bytes
  date : carriesDate data.cmd = true → ValidUtf8 data.date.bytes

/-- A message as it arrives: without a date field, the date is the receiver's. -/
def arrival (data : DataWrapper) (now : Tm) : DataWrapper :=
  { data with date := if carriesDate data.cmd then data.date else getDate now }

private theorem writable_jsonMembers {data : DataWrapper} (valid : ValidText data) :
    ∀ member ∈ jsonMembers data, ValidUtf8 member.1 ∧ member.2.Writable := by
  have keys : ValidUtf8 (ascii "cmd") ∧ ValidUtf8 (ascii "date") ∧ ValidUtf8 (ascii "id") ∧
      ValidUtf8 (ascii "msg") ∧ ValidUtf8 (ascii "portno") := by decide
  have name : ValidUtf8 (convertFromEnum data.cmd) := by cases data.cmd <;> decide
  have portno : (Scalar.integer data.portno.toInt).Writable := by
    have lower := data.portno.le_toInt
    have upper := data.portno.toInt_lt
    constructor <;> omega
  rw [jsonMembers_eq]
  split
  next dated =>
    simp only [List.mem_cons, List.not_mem_nil, or_false, forall_eq_or_imp, forall_eq]
    exact ⟨⟨keys.1, name⟩, ⟨keys.2.1, valid.date dated⟩, ⟨keys.2.2.1, valid.id⟩,
      ⟨keys.2.2.2.1, valid.msg⟩, ⟨keys.2.2.2.2, portno⟩⟩
  next =>
    simp only [List.mem_cons, List.not_mem_nil, or_false, forall_eq_or_imp, forall_eq]
    exact ⟨⟨keys.1, name⟩, ⟨keys.2.2.1, valid.id⟩, ⟨keys.2.2.2.1, valid.msg⟩,
      ⟨keys.2.2.2.2, portno⟩⟩

theorem bytes_convertDatastructToChar (data : DataWrapper) :
    (convertDatastructToChar data).bytes = dump (jsonMembers data) :=
  CString.ofBytes_eq_of_noNul (zero_notMem_dump _)

theorem nonempty_text (data : DataWrapper) :
    1 ≤ (convertDatastructToChar data).bytes.length := by
  rw [bytes_convertDatastructToChar, dump, List.length_cons]
  omega

private theorem toInt_reread (portno : Int32) :
    (Scalar.integer portno.toInt).reread.toInt = .ok portno := by
  have unfolded : (Scalar.integer portno.toInt).reread =
      if portno.toInt < 0 then .numberInteger portno.toInt
      else .numberUnsigned portno.toInt.natAbs := rfl
  rw [unfolded]
  split
  next => simp [BasicJson.toInt]
  next nonnegative =>
    have same : ((portno.toInt.natAbs : Nat) : Int) = portno.toInt := by omega
    simp only [BasicJson.toInt, same, Int32.ofInt_toInt]

/-- What is encoded is the text of an object with the members. -/
theorem parse_convertDatastructToChar {data : DataWrapper} (valid : ValidText data) :
    parse (convertDatastructToChar data).bytes = .ok (.object (reread (jsonMembers data))) := by
  rw [bytes_convertDatastructToChar]
  apply parse_dump
  · rw [jsonMembers_eq]
    split <;> simp
  · exact writable_jsonMembers valid

/-- What is encoded is decoded again. -/
theorem decode_encode {data : DataWrapper} (valid : ValidText data) (now : Tm) :
    convertStringToDatastruct (convertDatastructToChar data) now =
      .ok (some (arrival data now)) := by
  apply decoded_of_fields (parse_convertDatastructToChar valid)
  rw [jsonMembers_eq]
  have name := convertToEnum_convertFromEnum data.cmd
  split
  next dated =>
    exact
      { msg := ⟨_, rfl, by simp [arrival]⟩
        id := ⟨_, rfl, by simp [arrival]⟩
        portno := ⟨_, rfl, toInt_reread _⟩
        cmd := ⟨_, rfl, name.symm⟩
        date := Or.inl ⟨_, rfl, by simp [arrival, dated]⟩ }
  next undated =>
    exact
      { msg := ⟨_, rfl, by simp [arrival]⟩
        id := ⟨_, rfl, by simp [arrival]⟩
        portno := ⟨_, rfl, toInt_reread _⟩
        cmd := ⟨_, rfl, name.symm⟩
        date := Or.inr ⟨rfl, by simp [arrival, undated]⟩ }

private theorem satisfies_of_find {holds : Bytes → Prop} {members : List (Bytes × BasicJson)}
    (satisfied : StringsSatisfy holds (.object members)) {key text : Bytes}
    (found : findMember key members = some (.string text)) : holds text := by
  induction members with
  | nil => contradiction
  | cons member rest inductionHypothesis =>
      unfold findMember at found
      split at found
      · exact satisfied member List.mem_cons_self text (Option.some.inj found)
      · exact inductionHypothesis
          (fun later inRest => satisfied later (List.mem_cons_of_mem _ inRest)) found

/-- No string of a decoded message is longer than its text. -/
theorem short_of_decoded {jsonCh : CString} {now : Tm} {data : DataWrapper}
    (decoded : convertStringToDatastruct jsonCh now = .ok (some data)) :
    data.id.length ≤ jsonCh.length ∧ data.msg.length ≤ jsonCh.length := by
  obtain ⟨members, parsed, fields⟩ := fields_of_decoded decoded
  have short := stringsShort_parse parsed
  obtain ⟨idText, idFound, idEq⟩ := fields.id
  obtain ⟨msgText, msgFound, msgEq⟩ := fields.msg
  rw [idEq, msgEq]
  exact ⟨Nat.le_trans (CString.length_ofBytes_le _) (satisfies_of_find short idFound),
    Nat.le_trans (CString.length_ofBytes_le _) (satisfies_of_find short msgFound)⟩

/-- A decoded message consists of whole characters. -/
theorem validText_of_decoded {jsonCh : CString} {now : Tm} {data : DataWrapper}
    (decoded : convertStringToDatastruct jsonCh now = .ok (some data)) :
    ValidUtf8 data.id.bytes ∧ ValidUtf8 data.msg.bytes ∧ ValidUtf8 data.date.bytes := by
  obtain ⟨members, parsed, fields⟩ := fields_of_decoded decoded
  have valid : StringsSatisfy ValidUtf8 (.object members) := stringsValid_parse parsed
  obtain ⟨idText, idFound, idEq⟩ := fields.id
  obtain ⟨msgText, msgFound, msgEq⟩ := fields.msg
  refine ⟨?_, ?_, ?_⟩
  · rw [idEq]
    exact (satisfies_of_find valid idFound).ofBytes
  · rw [msgEq]
    exact (satisfies_of_find valid msgFound).ofBytes
  · rcases fields.date with ⟨dateText, dateFound, dateEq⟩ | ⟨_, dateEq⟩
    · rw [dateEq]
      exact (satisfies_of_find valid dateFound).ofBytes
    · rw [dateEq]
      exact validUtf8_getDate now

/-- Encoder and decoder agree, in both directions; a command name outside the
eight becomes ERR and stays ERR. -/
theorem convert_round_trip (now : Tm) :
    (∀ data, ValidText data →
      convertStringToDatastruct (convertDatastructToChar data) now =
        .ok (some (arrival data now))) ∧
    (∀ text before data, convertStringToDatastruct text before = .ok (some data) →
      convertStringToDatastruct (convertDatastructToChar data) now =
        .ok (some (arrival data now))) ∧
    (∀ text before data members name, parse text.bytes = .ok (.object members) →
      findMember (ascii "cmd") members = some (.string name) →
      (∀ cmd, convertFromEnum cmd ≠ name) →
      convertStringToDatastruct text before = .ok (some data) →
      data.cmd = .err ∧ ∃ again,
        convertStringToDatastruct (convertDatastructToChar data) now = .ok (some again) ∧
          again.cmd = .err) := by
  have accepted {text : CString} {before : Tm} {data : DataWrapper}
      (decoded : convertStringToDatastruct text before = .ok (some data)) :
      convertStringToDatastruct (convertDatastructToChar data) now =
        .ok (some (arrival data now)) := by
    obtain ⟨id, msg, date⟩ := validText_of_decoded decoded
    exact decode_encode ⟨id, msg, fun _ => date⟩ now
  refine ⟨fun data valid => decode_encode valid now, fun text before data => accepted, ?_⟩
  intro text before data members name parsed found unknown decoded
  obtain ⟨others, parsedAgain, fields⟩ := fields_of_decoded decoded
  rw [parsed] at parsedAgain
  cases parsedAgain
  obtain ⟨readName, readFound, cmd⟩ := fields.cmd
  rw [found] at readFound
  cases readFound
  rw [convertToEnum_of_unknown unknown] at cmd
  exact ⟨cmd, _, accepted decoded, cmd⟩

theorem convert_round_trip_example :
    convertStringToDatastruct
        (convertDatastructToChar
          { cmd := .recv, id := CString.literal "a.onion", portno := -80,
            msg := CString.literal "say \"hi\"", date := CString.literal "12:30" })
        sampleTime =
      .ok (some
        { cmd := .recv, id := CString.literal "a.onion", portno := -80,
          msg := CString.literal "say \"hi\"", date := CString.literal "12:30" }) :=
  (convert_round_trip sampleTime).1 _ ⟨by decide, by decide, fun _ => by decide⟩

end Torchat.Daemon
