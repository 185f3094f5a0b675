import Torchat.Proxy.HttpFraming

/-!
Contract: what a proxy reads in the requests that it is sent.

Owns the readers of the other side, for a request to connect and for a login, the
destinations for which they read what was meant, and the requests to a web proxy that
are cut off in front of their last line.

Does not own the replies; see `Socks5` and `HttpFraming`.
-/

set_option autoImplicit false

namespace Torchat.Proxy

open Torchat.Foundation

/-! ## Readers -/

inductive Destination where
  | address (bytes : Bytes)
  | name (bytes : Bytes)
deriving DecidableEq

/-- Some bytes behind their number in one byte, and what is left of the stream. -/
def readCounted : Bytes → Option (Bytes × Bytes)
  | [] => none
  | count :: rest =>
      if count.toNat ≤ rest.length then some (rest.take count.toNat, rest.drop count.toNat)
      else none

/-- Some bytes in front of a zero. -/
def readString (stream : Bytes) : Option (Bytes × Bytes) :=
  match stream.dropWhile (· ≠ 0) with
  | [] => none
  | _ :: rest => some (stream.takeWhile (· ≠ 0), rest)

/-- A request to a SOCKS5 proxy to connect, with the port as two bytes. -/
def readSocks5 : Bytes → Option ((Destination × Bytes) × Bytes)
  | 5 :: 1 :: 0 :: 1 :: rest =>
      if 6 ≤ rest.length then some ((.address (rest.take 4), (rest.drop 4).take 2), rest.drop 6)
      else none
  | 5 :: 1 :: 0 :: 3 :: rest => do
      let (name, rest) ← readCounted rest
      if 2 ≤ rest.length then some ((.name name, rest.take 2), rest.drop 2) else none
  | _ => none

/-- A login to a SOCKS5 proxy. -/
def readLogin : Bytes → Option ((Bytes × Bytes) × Bytes)
  | 1 :: rest => do
      let (user, rest) ← readCounted rest
      let (password, rest) ← readCounted rest
      some ((user, password), rest)
  | _ => none

/-- A request to a SOCKS4 proxy to connect: a name follows where the address is one of
0.0.0.x. -/
def readSocks4 : Bytes → Option ((Destination × Bytes × Bytes) × Bytes)
  | 4 :: 1 :: high :: low :: a :: b :: c :: d :: rest => do
      let (user, rest) ← readString rest
      if a = 0 ∧ b = 0 ∧ c = 0 ∧ d ≠ 0 then
        let (name, rest) ← readString rest
        some ((.name name, [high, low], user), rest)
      else some ((.address [a, b, c, d], [high, low], user), rest)
  | _ => none

/-- An HTTP request ends with an empty line. -/
def HeaderComplete (request : Bytes) : Prop := ascii "\r\n\r\n" <:+: request

/-- What the client wants to be connected to. -/
def destination (proxyDns : Bool) (hostaddr : InAddr) (dsthost : Option CString) : Destination :=
  if proxyDns then .name (bytesOf dsthost) else .address hostaddr.bytes

/-- The request to a SOCKS5 proxy. -/
def socks5ConnectRequest (proxyDns : Bool) (hostaddr : InAddr) (dsthost : Option CString)
    (dstport : UInt16) : Bytes :=
  if proxyDns then socks5HostRequest dsthost dstport else socks5AddressRequest hostaddr dstport

/-! ## SOCKS -/

section Counted

variable {bytes rest : Bytes}

private theorem readCounted_of_short (short : bytes.length < 256) :
    readCounted (UInt8.ofNat bytes.length :: (bytes ++ rest)) = some (bytes, rest) := by
  have count : (UInt8.ofNat bytes.length).toNat = bytes.length := UInt8.toNat_ofNat_of_lt' short
  rw [readCounted, count, if_pos (by simp), List.take_left, List.drop_left]

/-- The number of a long text is less than its length. -/
private theorem readCounted_of_long (long : 256 ≤ bytes.length) {text left : Bytes}
    (read : readCounted (UInt8.ofNat bytes.length :: (bytes ++ rest)) = some (text, left)) :
    text.length < bytes.length := by
  have count := (UInt8.ofNat bytes.length).toNat_lt
  rw [readCounted] at read
  split at read
  · cases read
    rw [List.length_take]
    omega
  · contradiction

private theorem readString_append (text : CString) (rest : Bytes) :
    readString (text.bytes ++ 0 :: rest) = some (text.bytes, rest) := by
  have kept : ∀ byte ∈ text.bytes, decide (byte ≠ 0) = true := fun byte member =>
    decide_eq_true fun zero => text.noNul (zero ▸ member)
  rw [readString, List.dropWhile_append_of_pos kept, List.takeWhile_append_of_pos kept]
  simp

private theorem readString_bytesOf (text : Option CString) (rest : Bytes) :
    readString (bytesOf text ++ 0 :: rest) = some (bytesOf text, rest) := by
  cases text with
  | none => rfl
  | some text => exact readString_append text rest

end Counted

private theorem readSocks5_host_iff (dsthost : Option CString) (dstport : UInt16) :
    readSocks5 (socks5HostRequest dsthost dstport) =
        some ((.name (bytesOf dsthost), htons dstport), []) ↔ (bytesOf dsthost).length < 256 := by
  have shape : socks5HostRequest dsthost dstport = 5 :: 1 :: 0 :: 3 ::
      UInt8.ofNat (bytesOf dsthost).length :: (bytesOf dsthost ++ htons dstport) := by
    simp [socks5HostRequest]
  rw [shape, readSocks5]
  constructor
  · intro read
    by_contra long
    obtain ⟨⟨name, left⟩, counted, isName⟩ := Option.bind_eq_some_iff.mp read
    have shorter := readCounted_of_long (Nat.le_of_not_lt long) counted
    dsimp only at isName
    split at isName
    · have sameName := congrArg (fun read => read.1.1) (Option.some.inj isName)
      rw [Destination.name.inj sameName] at shorter
      exact Nat.lt_irrefl _ shorter
    · contradiction
  · intro short
    rw [readCounted_of_short short]
    rfl

private theorem readLogin_iff (proxyuser proxypass : Option CString) :
    readLogin (socks5Login proxyuser proxypass) =
        some ((bytesOf proxyuser, bytesOf proxypass), []) ↔
      (bytesOf proxyuser).length < 256 ∧ (bytesOf proxypass).length < 256 := by
  have shape : socks5Login proxyuser proxypass = 1 :: UInt8.ofNat (bytesOf proxyuser).length ::
      (bytesOf proxyuser ++
        UInt8.ofNat (bytesOf proxypass).length :: (bytesOf proxypass ++ [])) := by
    simp [socks5Login]
  rw [shape, readLogin]
  constructor
  · intro read
    obtain ⟨⟨user, behindUser⟩, countedUser, rest⟩ := Option.bind_eq_some_iff.mp read
    obtain ⟨⟨password, behind⟩, countedPassword, same⟩ := Option.bind_eq_some_iff.mp rest
    cases same
    have shortUser : (bytesOf proxyuser).length < 256 := by
      by_contra long
      exact Nat.lt_irrefl _ (readCounted_of_long (Nat.le_of_not_lt long) countedUser)
    refine ⟨shortUser, ?_⟩
    by_contra long
    rw [readCounted_of_short shortUser] at countedUser
    cases countedUser
    exact Nat.lt_irrefl _ (readCounted_of_long (Nat.le_of_not_lt long) countedPassword)
  · rintro ⟨shortUser, shortPassword⟩
    rw [readCounted_of_short shortUser]
    show (readCounted _).bind _ = _
    rw [readCounted_of_short shortPassword]
    rfl

/-- A SOCKS5 proxy reads the destination and the port that are meant exactly where a name
has less than 256 bytes, and the login exactly where the user and the password have. Of
anything longer it reads a part, and takes what is left for data. -/
theorem socks5_requests_read_iff (proxyDns : Bool) (hostaddr : InAddr)
    (dsthost : Option CString) (dstport : UInt16) (proxyuser proxypass : Option CString) :
    (readSocks5 (socks5ConnectRequest proxyDns hostaddr dsthost dstport) =
        some ((destination proxyDns hostaddr dsthost, htons dstport), []) ↔
      (proxyDns = true → (bytesOf dsthost).length < 256)) ∧
    (readLogin (socks5Login proxyuser proxypass) =
        some ((bytesOf proxyuser, bytesOf proxypass), []) ↔
      (bytesOf proxyuser).length < 256 ∧ (bytesOf proxypass).length < 256) := by
  refine ⟨?_, readLogin_iff proxyuser proxypass⟩
  unfold socks5ConnectRequest destination
  cases proxyDns with
  | false => simp [socks5AddressRequest, readSocks5, InAddr.bytes, htons]
  | true =>
      rw [if_pos rfl, if_pos rfl, readSocks5_host_iff]
      exact ⟨fun short _ => short, fun short => short rfl⟩

/-- A SOCKS4 proxy reads the destination, the port and the user that are meant, of any
length, except where an address is one of those that announce a name. -/
theorem socks4_request_read_iff (proxyDns : Bool) (hostaddr : InAddr)
    (proxyuser dsthost : Option CString) (dstport : UInt16) :
    readSocks4 (socks4Request proxyDns hostaddr proxyuser dsthost dstport) =
        some ((destination proxyDns hostaddr dsthost, htons dstport, bytesOf proxyuser), []) ↔
      (proxyDns = false →
        ¬ (hostaddr.a = 0 ∧ hostaddr.b = 0 ∧ hostaddr.c = 0 ∧ hostaddr.d ≠ 0)) := by
  unfold destination
  cases proxyDns with
  | true =>
      have shape : socks4Request true hostaddr proxyuser dsthost dstport =
          4 :: 1 :: UInt8.ofNat (dstport.toNat / 256) :: UInt8.ofNat (dstport.toNat % 256) :: 0 ::
            0 :: 0 :: 0xFF :: (bytesOf proxyuser ++ 0 :: (bytesOf dsthost ++ 0 :: [])) := by
        simp [socks4Request, htons]
      rw [shape, readSocks4, readString_bytesOf]
      simp [readString_bytesOf, htons]
  | false =>
      have shape : socks4Request false hostaddr proxyuser dsthost dstport =
          4 :: 1 :: UInt8.ofNat (dstport.toNat / 256) :: UInt8.ofNat (dstport.toNat % 256) ::
            hostaddr.a :: hostaddr.b :: hostaddr.c :: hostaddr.d ::
              (bytesOf proxyuser ++ 0 :: []) := by
        simp [socks4Request, htons, InAddr.bytes]
      rw [shape, readSocks4, readString_bytesOf]
      by_cases announces :
          hostaddr.a = 0 ∧ hostaddr.b = 0 ∧ hostaddr.c = 0 ∧ hostaddr.d ≠ 0
      · simp [announces, readString]
      · simp [announces, InAddr.bytes, htons]

/-! ## Web proxies -/

section Breaks

/-- The lines of a text, each with its break. -/
private def broken (lines : List Bytes) : Bytes := (lines.map (· ++ [lineFeed])).flatten

private theorem broken_cons (line : Bytes) (lines : List Bytes) :
    broken (line :: lines) = line ++ lineFeed :: broken lines := by
  simp [broken]

/-- An empty line somewhere in the text is one of its lines, behind another one. -/
private theorem blank_of_split {lines : List Bytes} (unbroken : ∀ line ∈ lines, lineFeed ∉ line)
    {front behind : Bytes} (split : broken lines = front ++ (ascii "\r\n\r\n" ++ behind)) :
    ∃ before first after, lines = before ++ first :: [carriageReturn] :: after ∧
      behind = broken after := by
  induction lines generalizing front with
  | nil =>
      have lengths := congrArg List.length split
      simp [broken, ascii] at lengths
  | cons line lines inductionHypothesis =>
      have unbrokenLine := unbroken line List.mem_cons_self
      have unbrokenRest : ∀ other ∈ lines, lineFeed ∉ other := fun other member =>
        unbroken other (List.mem_cons_of_mem _ member)
      rw [broken_cons] at split
      by_cases breaks : lineFeed ∈ front
      · obtain ⟨first, rest, rfl, notFirst⟩ := List.eq_append_cons_of_mem breaks
        rw [List.append_assoc, List.cons_append] at split
        obtain ⟨before, last, after, rfl, isBehind⟩ :=
          inductionHypothesis unbrokenRest (break_unique unbrokenLine notFirst split).2
        exact ⟨line :: before, last, after, rfl, isBehind⟩
      · have shape : front ++ (ascii "\r\n\r\n" ++ behind) =
            (front ++ [carriageReturn]) ++
              lineFeed :: ([carriageReturn] ++ lineFeed :: behind) := by
          simp [ascii]
        rw [shape] at split
        have notCarriage : lineFeed ∉ front ++ [carriageReturn] := fun member =>
          (List.mem_append.mp member).elim breaks (by decide)
        have next := (break_unique unbrokenLine notCarriage split).2
        cases lines with
        | nil => simp [broken] at next
        | cons second others =>
            rw [broken_cons] at next
            obtain ⟨rfl, isBehind⟩ :=
              break_unique (unbrokenRest second List.mem_cons_self) (by decide) next
            exact ⟨[], line, others, rfl, isBehind.symm⟩

end Breaks

section Cut

variable {host : Bytes} {dstport : UInt16} {proxyauth : Option Bytes}

/-- The lines of the command before it is cut off. -/
private def commandLines (host : Bytes) (dstport : UInt16) (proxyauth : Option Bytes) :
    List Bytes :=
  (ascii "CONNECT " ++ host ++ ascii ":" ++ decimal dstport.toNat ++ ascii " HTTP/1.0\r") ::
    (proxyauth.map fun proxyauth =>
      ascii "Proxy-Authorization: Basic " ++ proxyauth ++ [carriageReturn]).toList ++
    [[carriageReturn]]

private theorem webCommand_eq (host : Bytes) (dstport : UInt16) (proxyauth : Option Bytes) :
    webCommand host dstport proxyauth = broken (commandLines host dstport proxyauth) := by
  cases proxyauth with
  | none => simp [webCommand, broken, commandLines, ascii]
  | some proxyauth => simp [webCommand, broken, commandLines, ascii]

private theorem unbroken_of_encoded
    (encoded : ∀ text ∈ proxyauth, ∃ str, makeBase64String str = .ok text) :
    ∀ text ∈ proxyauth, lineFeed ∉ text := by
  intro text member breaks
  obtain ⟨str, made⟩ := encoded text member
  rw [makeBase64String_eq] at made
  split at made
  · cases made
    have digit := isSome_of_mem_text breaks
    rw [base64Value_lineFeed] at digit
    contradiction
  · contradiction

private theorem notMem_decimal (value : Nat) : lineFeed ∉ decimal value := fun member =>
  absurd (isDigit_of_mem_decimal member) (by decide)

private theorem commandLines_unbroken (unbroken : lineFeed ∉ host)
    (authUnbroken : ∀ text ∈ proxyauth, lineFeed ∉ text) :
    ∀ line ∈ commandLines host dstport proxyauth, lineFeed ∉ line := by
  have command : lineFeed ∉ ascii "CONNECT " := by decide
  have version : lineFeed ∉ ascii " HTTP/1.0\r" := by decide
  have authorization : lineFeed ∉ ascii "Proxy-Authorization: Basic " := by decide
  have carriage : lineFeed ∉ [carriageReturn] := by decide
  have colon : lineFeed ∉ ascii ":" := by decide
  intro line member
  rw [commandLines, List.cons_append, List.mem_cons, List.mem_append, List.mem_singleton] at member
  rcases member with rfl | inAuth | rfl
  · simp only [List.mem_append, not_or]
    exact ⟨⟨⟨⟨command, unbroken⟩, colon⟩, notMem_decimal _⟩, version⟩
  · cases proxyauth with
    | none => contradiction
    | some text =>
        rw [Option.map_some, Option.toList_some, List.mem_singleton] at inAuth
        subst inAuth
        simp only [List.mem_append, not_or]
        exact ⟨⟨authorization, authUnbroken text rfl⟩, carriage⟩
  · exact carriage

/-- The only empty line of the command is its last one. -/
private theorem commandLines_blank {before after : List Bytes} {first : Bytes}
    (split : commandLines host dstport proxyauth = before ++ first :: [carriageReturn] :: after) :
    after = [] := by
  cases proxyauth with
  | none =>
      have lengths := congrArg List.length split
      simp only [commandLines, Option.map_none, Option.toList_none, List.cons_append,
        List.append_assoc, List.length_append, List.length_cons, List.length_nil] at lengths
      exact List.length_eq_zero_iff.mp (by omega)
  | some text =>
      have lengths := congrArg List.length split
      simp only [commandLines, Option.map_some, Option.toList_some, List.cons_append,
        List.append_assoc, List.length_append, List.length_cons, List.length_nil] at lengths
      cases before with
      | nil =>
          have second := (List.cons.inj (List.cons.inj split).2).1
          simp [ascii] at second
      | cons => 
          rw [List.length_cons] at lengths
          exact List.length_eq_zero_iff.mp (by omega)

private theorem length_webCommand (host : Bytes) (dstport : UInt16) (proxyauth : Option Bytes) :
    (webCommand host dstport proxyauth).length ≤ webCommandSize proxyauth - 1 ↔
      host.length + (decimal dstport.toNat).length ≤ 21 := by
  cases proxyauth with
  | none =>
      simp only [webCommand, webCommandSize, List.length_append, List.length_nil]
      have lengths : (ascii "CONNECT ").length = 8 ∧ (ascii ":").length = 1 ∧
        (ascii " HTTP/1.0").length = 9 ∧ (ascii "\r\n\r\n").length = 4 := by decide
      omega
  | some text =>
      simp only [webCommand, webCommandSize, List.length_append]
      have lengths : (ascii "CONNECT ").length = 8 ∧ (ascii ":").length = 1 ∧
        (ascii " HTTP/1.0").length = 9 ∧ (ascii "\r\n\r\n").length = 4 ∧
        (ascii "\r\nProxy-Authorization: Basic ").length = 29 := by decide
      omega

private theorem headerComplete_iff (unbroken : lineFeed ∉ host)
    (authUnbroken : ∀ text ∈ proxyauth, lineFeed ∉ text) :
    HeaderComplete (webRequest host dstport proxyauth) ↔
      host.length + (decimal dstport.toNat).length ≤ 21 := by
  rw [← length_webCommand host dstport proxyauth]
  constructor
  · rintro ⟨front, behind, isRequest⟩
    by_contra long
    have whole : webRequest host dstport proxyauth ++
        (webCommand host dstport proxyauth).drop (webCommandSize proxyauth - 1) =
          webCommand host dstport proxyauth := List.take_append_drop _ _
    rw [← isRequest, List.append_assoc, List.append_assoc, webCommand_eq] at whole
    obtain ⟨before, first, after, split, nothing⟩ :=
      blank_of_split (commandLines_unbroken unbroken authUnbroken) whole.symm
    rw [commandLines_blank split, ← webCommand_eq] at nothing
    have dropped := (List.append_eq_nil_iff.mp nothing).2
    exact long (List.drop_eq_nil_iff.mp dropped)
  · intro short
    have whole : webRequest host dstport proxyauth = webCommand host dstport proxyauth :=
      List.take_of_length_le short
    rw [whole]
    exact ⟨_, [], List.append_nil _⟩

private theorem ntoa_bounds (address : InAddr) :
    address.ntoa.length ≤ 15 ∧ lineFeed ∉ address.ntoa := by
  have digits : ∀ byte : Byte, (decimal byte.toNat).length ≤ 3 := fun byte =>
    length_decimal_le (by decide) (Nat.lt_trans byte.toNat_lt (by decide))
  have dot : (ascii ".").length = 1 ∧ lineFeed ∉ ascii "." := by decide
  unfold InAddr.ntoa
  constructor
  · simp only [List.length_append]
    have a := digits address.a
    have b := digits address.b
    have c := digits address.c
    have d := digits address.d
    omega
  · simp only [List.mem_append, not_or]
    exact ⟨⟨⟨⟨⟨⟨notMem_decimal _, dot.2⟩, notMem_decimal _⟩, dot.2⟩, notMem_decimal _⟩, dot.2⟩,
      notMem_decimal _⟩

end Cut

/-- A web proxy gets a request that ends, with or without credentials, for every address,
and for a name exactly where it has at most 21 bytes together with the digits of the port:
the room is one for addresses. Of a longer one, such as an onion name, the empty line is
cut off, and the proxy waits for more. -/
theorem webRequest_complete_iff (proxyDns : Bool) (hostaddr : InAddr) (dsthost : Option CString)
    (dstport : UInt16) (proxyauth : Option Bytes) (unbroken : lineFeed ∉ bytesOf dsthost)
    (encoded : ∀ text ∈ proxyauth, ∃ str, makeBase64String str = .ok text) :
    HeaderComplete
        (webRequest (if proxyDns then bytesOf dsthost else hostaddr.ntoa) dstport proxyauth) ↔
      (proxyDns = true → (bytesOf dsthost).length + (decimal dstport.toNat).length ≤ 21) := by
  have authUnbroken := unbroken_of_encoded encoded
  cases proxyDns with
  | true =>
      rw [if_pos rfl, headerComplete_iff unbroken authUnbroken]
      exact ⟨fun short _ => short, fun short => short rfl⟩
  | false =>
      obtain ⟨short, notBroken⟩ := ntoa_bounds hostaddr
      have digits : (decimal dstport.toNat).length ≤ 5 :=
        length_decimal_le (by decide) (Nat.lt_trans dstport.toNat_lt (by decide))
      rw [if_neg Bool.false_ne_true, headerComplete_iff notBroken authUnbroken]
      exact iff_of_true (by omega) (fun dns => absurd dns Bool.false_ne_true)

theorem webRequest_complete_iff_onion :
    ¬ HeaderComplete (webRequest (ascii "expyuzz4wqqyqhjn.onion") 80 none) := by
  intro complete
  have short := (webRequest_complete_iff true InAddr.any
    (some (CString.literal "expyuzz4wqqyqhjn.onion")) 80 none (by decide) nofun).mp complete rfl
  exact absurd short (by decide)

end Torchat.Proxy
