import Torchat.Proxy.Descriptors

/-!
Contract: which replies of a SOCKS5 proxy make a connection.

Owns the replies, what a negotiation has taken from the socket and written to it when it
has succeeded, and that every reply makes a connection on a socket that delivers.

Does not own errors of `send` and `recv`: of these the negotiation does not notice most,
so that its socket is one that answers with a number of bytes.
-/

set_option autoImplicit false

namespace Torchat.Proxy

open Torchat.Foundation
open Torchat.Foundation.Session

variable {σ : Type}

/-! ## The socket -/

/-- A stream in either direction: `recv` takes a part of what is there, `send` a part of
what it is given. -/
structure Talks (kernel : SocketKernel σ) (sock : Nat) (inbox outbox : σ → Bytes) : Prop where
  received : ∀ state length, ∃ count after,
    kernel.recv state sock length false = (some ((inbox state).take count), after) ∧
      count ≤ length ∧ count ≤ (inbox state).length ∧ inbox after = (inbox state).drop count ∧
      outbox after = outbox state
  sent : ∀ state bytes, ∃ count after, kernel.send state sock bytes = (some count, after) ∧
    count ≤ bytes.length ∧ outbox after = outbox state ++ bytes.take count ∧
    inbox after = inbox state

/-- The socket delivers what is asked for where it is there, and takes what it is given. -/
structure DeliversAll (kernel : SocketKernel σ) (sock : Nat) (inbox outbox : σ → Bytes) :
    Prop where
  received : ∀ state length, length ≤ (inbox state).length → ∃ after,
    kernel.recv state sock length false = (some ((inbox state).take length), after) ∧
      inbox after = (inbox state).drop length ∧ outbox after = outbox state
  sent : ∀ state bytes, ∃ after, kernel.send state sock bytes = (some bytes.length, after) ∧
    outbox after = outbox state ++ bytes ∧ inbox after = inbox state

/-- What went over the socket between two states. -/
structure Exchanged (inbox outbox : σ → Bytes) (state after : σ) (received sent : Bytes) :
    Prop where
  received : inbox state = received ++ inbox after
  sent : outbox after = outbox state ++ sent

/-! ## Replies -/

/-- The address that a proxy has bound, by its type. -/
def AddressOf (addresstype : Byte) (address : Bytes) : Prop :=
  addresstype = 1 ∧ address.length = 4 ∨
  addresstype = 3 ∧ (∃ name : Bytes, name.length < 256 ∧
    address = UInt8.ofNat name.length :: name) ∨
  addresstype = 4 ∧ address.length = 16

/-- All that a SOCKS5 proxy sends for a connection. The version of the first reply and the
reserved byte may be anything. -/
structure Socks5Reply where
  version : Byte
  login : Bool
  reserved : Byte
  addresstype : Byte
  address : Bytes
  port : Bytes
  addressFits : AddressOf addresstype address
  portFits : port.length = 2

def Socks5Reply.bytes (reply : Socks5Reply) : Bytes :=
  [reply.version, if reply.login then 2 else 0] ++ (if reply.login then [1, 0] else []) ++
    [5, 0] ++ [reply.reserved, reply.addresstype] ++ (reply.address ++ reply.port)

/-- All that the client sends for it. -/
def socks5Sent (proxyDns : Bool) (hostaddr : InAddr) (info : ProxyInfo)
    (dsthost : Option CString) (dstport : UInt16) (login : Bool) : Bytes :=
  socks5Greeting info.proxyuser info.proxypass ++
    (if login then socks5Login info.proxyuser info.proxypass else []) ++
    if proxyDns then socks5HostRequest dsthost dstport else socks5AddressRequest hostaddr dstport

/-! ## Calls that succeed -/

section Sound

variable {kernel : SocketKernel σ} {sock : Nat} {inbox outbox : σ → Bytes} {state after : σ}

theorem exchanged_refl : Exchanged inbox outbox state state [] [] := ⟨rfl, by simp⟩

theorem Exchanged.trans {last : σ} {received sent moreReceived moreSent : Bytes}
    (first : Exchanged inbox outbox state after received sent)
    (second : Exchanged inbox outbox after last moreReceived moreSent) :
    Exchanged inbox outbox state last (received ++ moreReceived) (sent ++ moreSent) where
  received := by rw [first.received, second.received, List.append_assoc]
  sent := by rw [second.sent, first.sent, List.append_assoc]

/-- On a socket that answers with a number of bytes the two comparisons are the same. -/
private theorem sendSigned_eq (talks : Talks kernel sock inbox outbox) (bytes : Bytes)
    (errmsg : String) :
    sendSigned kernel sock bytes errmsg = sendUnsigned kernel sock bytes errmsg := by
  funext state
  obtain ⟨count, after, sent, _⟩ := talks.sent state bytes
  simp only [sendSigned, sendUnsigned, bind_apply, call_apply, sent]

private theorem recvUnsigned_eq (talks : Talks kernel sock inbox outbox) (buf : Bytes)
    (errmsg : String) :
    recvUnsigned kernel sock buf errmsg = recvSigned kernel sock buf.length errmsg := by
  funext state
  obtain ⟨count, after, received, _⟩ := talks.received state buf.length
  simp only [recvSigned, recvUnsigned, bind_apply, call_apply, received]

private theorem sendUnsigned_ok (talks : Talks kernel sock inbox outbox) {bytes : Bytes}
    {errmsg : String} (ended : sendUnsigned kernel sock bytes errmsg state = (.ok (), after)) :
    Exchanged inbox outbox state after [] bytes := by
  obtain ⟨count, next, sent, atMost, wrote, same⟩ := talks.sent state bytes
  obtain ⟨rc, between, called, rest⟩ := bind_eq_ok ended
  rw [call_apply, sent] at called
  cases called
  dsimp only at rest
  split at rest
  · cases rest
  next all =>
    cases rest
    refine ⟨same.symm, ?_⟩
    rw [wrote, List.take_of_length_le (Nat.le_of_not_lt all)]

private theorem recvSigned_ok (talks : Talks kernel sock inbox outbox) {length : Nat}
    {bytes : Bytes} {errmsg : String}
    (ended : recvSigned kernel sock length errmsg state = (.ok bytes, after)) :
    bytes.length = length ∧ Exchanged inbox outbox state after bytes [] := by
  obtain ⟨count, next, received, atMost, inside, took, same⟩ := talks.received state length
  obtain ⟨rc, between, called, rest⟩ := bind_eq_ok ended
  rw [call_apply, received] at called
  cases called
  dsimp only at rest
  split at rest
  · cases rest
  next all =>
    cases rest
    rw [List.length_take, Nat.min_eq_left inside] at all
    refine ⟨?_, ?_, by rw [same, List.append_nil]⟩
    · rw [List.length_take, Nat.min_eq_left inside]
      exact Nat.le_antisymm atMost (Nat.le_of_not_lt all)
    · rw [took, List.take_append_drop]

private theorem recvUnsigned_ok (talks : Talks kernel sock inbox outbox) {buf bytes : Bytes}
    {errmsg : String} (ended : recvUnsigned kernel sock buf errmsg state = (.ok bytes, after)) :
    bytes.length = buf.length ∧ Exchanged inbox outbox state after bytes [] := by
  rw [recvUnsigned_eq talks] at ended
  exact recvSigned_ok talks ended

private theorem socks5Method_cases (initrecv : Bytes) :
    (∃ login : Bool, initrecv.getD 1 0 = (if login then 2 else 0) ∧
      (socks5Method initrecv : Attempt σ Bool) = pure login) ∨
    ∃ errmsg, (socks5Method initrecv : Attempt σ Bool) = abortWith errmsg := by
  unfold socks5Method
  split
  next none_ => exact .inl ⟨false, UInt8.toNat_inj.mp none_, rfl⟩
  next chosen => exact .inl ⟨true, UInt8.toNat_inj.mp chosen, rfl⟩
  all_goals exact .inr ⟨_, rfl⟩

private theorem socks5Method_ok {initrecv : Bytes} {login : Bool}
    (ended : (socks5Method initrecv : Attempt σ Bool) state = (.ok login, after)) :
    after = state ∧ initrecv.getD 1 0 = if login then 2 else 0 := by
  obtain ⟨chosen, isMethod, same⟩ | ⟨errmsg, same⟩ := socks5Method_cases initrecv
  all_goals rw [same] at ended; cases ended
  exact ⟨rfl, isMethod⟩

private theorem socks5Authenticate_ok (talks : Talks kernel sock inbox outbox) {info : ProxyInfo}
    {initrecv result : Bytes} (two : initrecv.length = 2)
    (ended : socks5Authenticate kernel info sock initrecv state = (.ok result, after)) :
    result.length = 2 ∧ Exchanged inbox outbox state after [1, 0]
      (socks5Login info.proxyuser info.proxypass) := by
  obtain ⟨_, sent, wrote, rest⟩ := bind_eq_ok ended
  obtain ⟨reply, received, read, rest⟩ := bind_eq_ok rest
  obtain ⟨length, exchanged⟩ := recvUnsigned_ok talks read
  rw [two] at length
  obtain ⟨version, status, rfl⟩ := List.length_eq_two.mp length
  split at rest
  · cases rest
  next isVersion =>
    split at rest
    · cases rest
    · split at rest
      · cases rest
      next isStatus =>
        cases rest
        rw [not_not] at isVersion isStatus
        simp only [List.getD_cons_zero, List.getD_cons_succ] at isVersion isStatus
        rw [isVersion, isStatus] at exchanged
        have both := (sendUnsigned_ok talks wrote).trans exchanged
        rw [List.append_nil, List.nil_append] at both
        exact ⟨rfl, both⟩

private theorem socks5Request_ok (talks : Talks kernel sock inbox outbox) {proxyDns : Bool}
    {hostaddr : InAddr} {dsthost : Option CString} {dstport : UInt16}
    (ended : socks5Request kernel proxyDns hostaddr dsthost dstport sock state = (.ok (), after)) :
    Exchanged inbox outbox state after []
      (if proxyDns then socks5HostRequest dsthost dstport
        else socks5AddressRequest hostaddr dstport) := by
  unfold socks5Request at ended
  cases proxyDns with
  | true =>
      rw [if_pos rfl, sendSigned_eq talks] at ended
      exact sendUnsigned_ok talks ended
  | false =>
      rw [if_neg Bool.false_ne_true] at ended
      exact sendUnsigned_ok talks ended

private theorem socks5Status_cases (initrecv : Bytes) :
    initrecv.getD 0 0 = 5 ∧ initrecv.getD 1 0 = 0 ∧
      (socks5Status initrecv : Attempt σ Unit) = pure () ∨
    ∃ errmsg, (socks5Status initrecv : Attempt σ Unit) = abortWith errmsg := by
  unfold socks5Status
  split
  · exact .inr ⟨_, rfl⟩
  next isVersion =>
    split
    next isStatus => exact .inl ⟨not_not.mp isVersion, UInt8.toNat_inj.mp isStatus, rfl⟩
    all_goals exact .inr ⟨_, rfl⟩

private theorem socks5Status_ok {initrecv : Bytes} (two : initrecv.length = 2)
    (ended : (socks5Status initrecv : Attempt σ Unit) state = (.ok (), after)) :
    after = state ∧ initrecv = [5, 0] := by
  obtain ⟨version, status, rfl⟩ := List.length_eq_two.mp two
  obtain ⟨isVersion, isStatus, same⟩ | ⟨errmsg, same⟩ :=
    socks5Status_cases [version, status]
  all_goals rw [same] at ended; cases ended
  simp only [List.getD_cons_zero, List.getD_cons_succ] at isVersion isStatus
  exact ⟨rfl, by rw [isVersion, isStatus]⟩

private theorem socks5Bound_ok (talks : Talks kernel sock inbox outbox) {junk : Nat → Byte}
    {initrecv : Bytes}
    (ended : socks5Bound kernel junk sock initrecv state = (.ok (), after)) :
    ∃ address port, AddressOf (initrecv.getD 1 0) address ∧ port.length = 2 ∧
      Exchanged inbox outbox state after (address ++ port) [] := by
  obtain ⟨session, isSession⟩ : ∃ session, session = socks5Bound kernel junk sock initrecv :=
    ⟨_, rfl⟩
  rw [← isSession] at ended
  unfold socks5Bound at isSession
  dsimp only at isSession
  split at isSession
  next isIpv4 =>
    subst isSession
    obtain ⟨address, between, read, rest⟩ := bind_eq_ok ended
    obtain ⟨port, last, readPort, rest⟩ := bind_eq_ok rest
    cases rest
    obtain ⟨length, exchanged⟩ := recvUnsigned_ok talks read
    obtain ⟨portLength, portExchanged⟩ := recvUnsigned_ok talks readPort
    exact ⟨address, port, .inl ⟨UInt8.toNat_inj.mp isIpv4, length⟩, portLength,
      exchanged.trans portExchanged⟩
  next isName =>
    subst isSession
    obtain ⟨bindaddrlen, between, readLength, rest⟩ := bind_eq_ok ended
    obtain ⟨name, named, read, rest⟩ := bind_eq_ok rest
    obtain ⟨port, last, readPort, rest⟩ := bind_eq_ok rest
    cases rest
    obtain ⟨one, lengthExchanged⟩ := recvUnsigned_ok talks readLength
    obtain ⟨byte, rfl⟩ := List.length_eq_one_iff.mp one
    obtain ⟨length, exchanged⟩ := recvSigned_ok talks read
    obtain ⟨portLength, portExchanged⟩ := recvUnsigned_ok talks readPort
    have isLength : byte = UInt8.ofNat name.length := by
      rw [length, List.getD_cons_zero, UInt8.ofNat_toNat]
    refine ⟨byte :: name, port, .inr (.inl ⟨UInt8.toNat_inj.mp isName, name, ?_, ?_⟩),
      portLength, (lengthExchanged.trans exchanged).trans portExchanged⟩
    · rw [length]
      exact UInt8.toNat_lt _
    · rw [isLength]
  next isIpv6 =>
    subst isSession
    obtain ⟨address, between, read, rest⟩ := bind_eq_ok ended
    obtain ⟨port, last, readPort, rest⟩ := bind_eq_ok rest
    cases rest
    obtain ⟨length, exchanged⟩ := recvUnsigned_ok talks read
    obtain ⟨portLength, portExchanged⟩ := recvUnsigned_ok talks readPort
    exact ⟨address, port, .inr (.inr ⟨UInt8.toNat_inj.mp isIpv6, length⟩), portLength,
      exchanged.trans portExchanged⟩
  · subst isSession
    cases ended

/-- What is behind the first reply. -/
private theorem socks5Connect_ok (talks : Talks kernel sock inbox outbox) {junk : Nat → Byte}
    {proxyDns : Bool} {hostaddr : InAddr} {dsthost : Option CString} {dstport : UInt16}
    {initrecv : Bytes} (two : initrecv.length = 2)
    (ended : (do
      socks5Request kernel proxyDns hostaddr dsthost dstport sock
      let initrecv ← recvUnsigned kernel sock initrecv
        (lostWhile "connect response from SOCKS5 proxy")
      socks5Status initrecv
      let initrecv ← recvUnsigned kernel sock initrecv
        (lostWhile "connect response from SOCKS5 proxy")
      socks5Bound kernel junk sock initrecv : Attempt σ Unit) state = (.ok (), after)) :
    ∃ reserved addresstype address port, AddressOf addresstype address ∧ port.length = 2 ∧
      Exchanged inbox outbox state after
        ([5, 0] ++ [reserved, addresstype] ++ (address ++ port))
        (if proxyDns then socks5HostRequest dsthost dstport
          else socks5AddressRequest hostaddr dstport) := by
  obtain ⟨_, requested, request, rest⟩ := bind_eq_ok ended
  obtain ⟨status, answered, readStatus, rest⟩ := bind_eq_ok rest
  obtain ⟨_, judged, isStatus, rest⟩ := bind_eq_ok rest
  obtain ⟨head, began, readHead, bound⟩ := bind_eq_ok rest
  obtain ⟨statusLength, statusExchanged⟩ := recvUnsigned_ok talks readStatus
  obtain ⟨rfl, rfl⟩ := socks5Status_ok (statusLength.trans two) isStatus
  obtain ⟨headLength, headExchanged⟩ := recvUnsigned_ok talks readHead
  obtain ⟨reserved, addresstype, rfl⟩ := List.length_eq_two.mp headLength
  obtain ⟨address, port, addressFits, portFits, boundExchanged⟩ := socks5Bound_ok talks bound
  have all := (((socks5Request_ok talks request).trans statusExchanged).trans headExchanged).trans
    boundExchanged
  simp only [List.append_nil, List.nil_append] at all
  exact ⟨reserved, addresstype, address, port, addressFits, portFits, all⟩

theorem socks5Negotiate_ok (talks : Talks kernel sock inbox outbox) {junk : Nat → Byte}
    {proxyDns : Bool} {hostaddr : InAddr} {info : ProxyInfo} {dsthost : Option CString}
    {dstport : UInt16}
    (ended : socks5Negotiate kernel junk proxyDns hostaddr info dsthost dstport sock state =
      (.ok (), after)) :
    ∃ reply : Socks5Reply, Exchanged inbox outbox state after reply.bytes
      (socks5Sent proxyDns hostaddr info dsthost dstport reply.login) := by
  obtain ⟨_, greeted, greeting, rest⟩ := bind_eq_ok ended
  obtain ⟨first, answered, read, rest⟩ := bind_eq_ok rest
  obtain ⟨login, chosen, isMethod, rest⟩ := bind_eq_ok rest
  obtain ⟨rfl, method⟩ := socks5Method_ok isMethod
  obtain ⟨firstLength, firstExchanged⟩ := recvUnsigned_ok talks read
  have two : first.length = 2 := firstLength.trans (by simp [uninitialised])
  obtain ⟨version, byte, rfl⟩ := List.length_eq_two.mp two
  have isByte : byte = if login then 2 else 0 := method
  have hello := (sendUnsigned_ok talks greeting).trans firstExchanged
  cases login with
  | true =>
      obtain ⟨second, entered, entry, rest⟩ := bind_eq_ok rest
      obtain ⟨secondLength, entryExchanged⟩ := socks5Authenticate_ok talks two entry
      obtain ⟨reserved, addresstype, address, port, addressFits, portFits, connected⟩ :=
        socks5Connect_ok talks secondLength rest
      have all := (hello.trans entryExchanged).trans connected
      refine ⟨⟨version, true, reserved, addresstype, address, port, addressFits, portFits⟩, ?_⟩
      rw [isByte] at all
      simpa [Socks5Reply.bytes, socks5Sent] using all
  | false =>
      obtain ⟨reserved, addresstype, address, port, addressFits, portFits, connected⟩ :=
        socks5Connect_ok talks two rest
      have all := hello.trans connected
      refine ⟨⟨version, false, reserved, addresstype, address, port, addressFits, portFits⟩, ?_⟩
      rw [isByte] at all
      simpa [Socks5Reply.bytes, socks5Sent] using all

end Sound

/-! ## Replies that make a connection -/

section Complete

variable {kernel : SocketKernel σ} {sock : Nat} {inbox outbox : σ → Bytes}

/-- Wherever these bytes are the next ones to be received, the computation takes them, sends
those and ends with the value. -/
def Completes {α : Type} (inbox outbox : σ → Bytes) (session : Attempt σ α) (value : α)
    (received sent : Bytes) : Prop :=
  ∀ state, received <+: inbox state → ∃ after,
    session state = (.ok value, after) ∧ Exchanged inbox outbox state after received sent

private theorem completes_pure {α : Type} (value : α) :
    Completes inbox outbox (pure value : Attempt σ α) value [] [] :=
  fun state _ => ⟨state, rfl, exchanged_refl⟩

private theorem completes_congr {α : Type} {session : Attempt σ α} {value : α}
    {received sent allReceived allSent : Bytes}
    (completes : Completes inbox outbox session value received sent)
    (sameReceived : received = allReceived) (sameSent : sent = allSent) :
    Completes inbox outbox session value allReceived allSent := by
  subst sameReceived sameSent
  exact completes

private theorem completes_bind {α β : Type} {first : Attempt σ α}
    {continuation : α → Attempt σ β} {value : α} {result : β}
    {received sent moreReceived moreSent : Bytes}
    (before : Completes inbox outbox first value received sent)
    (behind : Completes inbox outbox (continuation value) result moreReceived moreSent) :
    Completes inbox outbox (first >>= continuation) result (received ++ moreReceived)
      (sent ++ moreSent) := by
  intro state there
  obtain ⟨between, ended, exchanged⟩ :=
    before state ((List.prefix_append received moreReceived).trans there)
  have more : moreReceived <+: inbox between := by
    rw [exchanged.received] at there
    exact (List.prefix_append_right_inj received).mp there
  obtain ⟨after, endedToo, exchangedToo⟩ := behind between more
  exact ⟨after, by rw [bind_of_ok ended, endedToo], exchanged.trans exchangedToo⟩

private theorem sendUnsigned_completes (delivers : DeliversAll kernel sock inbox outbox)
    (bytes : Bytes) (errmsg : String) :
    Completes inbox outbox (sendUnsigned kernel sock bytes errmsg) () [] bytes := by
  intro state _
  obtain ⟨after, sent, wrote, same⟩ := delivers.sent state bytes
  refine ⟨after, ?_, same.symm, wrote⟩
  rw [sendUnsigned, bind_apply, call_apply, sent]
  dsimp only
  rw [if_neg (Nat.lt_irrefl _), pure_apply]

private theorem recvSigned_completes (delivers : DeliversAll kernel sock inbox outbox)
    (bytes : Bytes) (errmsg : String) :
    Completes inbox outbox (recvSigned kernel sock bytes.length errmsg) bytes bytes [] := by
  rintro state ⟨rest, isInbox⟩
  have inside : bytes.length ≤ (inbox state).length := by
    rw [← isInbox, List.length_append]
    exact Nat.le_add_right _ _
  obtain ⟨after, received, took, same⟩ := delivers.received state bytes.length inside
  rw [← isInbox, List.take_left] at received
  rw [← isInbox, List.drop_left] at took
  refine ⟨after, ?_, by rw [took, isInbox], by rw [same, List.append_nil]⟩
  rw [recvSigned, bind_apply, call_apply, received]
  dsimp only
  rw [if_neg (Nat.lt_irrefl _), pure_apply]

private theorem recvUnsigned_completes (talks : Talks kernel sock inbox outbox)
    (delivers : DeliversAll kernel sock inbox outbox) (buf bytes : Bytes)
    (fits : bytes.length = buf.length) (errmsg : String) :
    Completes inbox outbox (recvUnsigned kernel sock buf errmsg) bytes bytes [] := by
  rw [recvUnsigned_eq talks, ← fits]
  exact recvSigned_completes delivers bytes errmsg

private theorem socks5Authenticate_completes (talks : Talks kernel sock inbox outbox)
    (delivers : DeliversAll kernel sock inbox outbox) (info : ProxyInfo) {initrecv : Bytes}
    (two : initrecv.length = 2) :
    Completes inbox outbox (socks5Authenticate kernel info sock initrecv) [1, 0] [1, 0]
      (socks5Login info.proxyuser info.proxypass) := by
  refine completes_congr (completes_bind (sendUnsigned_completes delivers _ _)
    (completes_bind (recvUnsigned_completes talks delivers initrecv [1, 0] two.symm _)
      (completes_pure [1, 0]))) rfl ?_
  simp only [List.append_nil]

private theorem socks5Request_completes (talks : Talks kernel sock inbox outbox)
    (delivers : DeliversAll kernel sock inbox outbox) (proxyDns : Bool) (hostaddr : InAddr)
    (dsthost : Option CString) (dstport : UInt16) :
    Completes inbox outbox (socks5Request kernel proxyDns hostaddr dsthost dstport sock) () []
      (if proxyDns then socks5HostRequest dsthost dstport
        else socks5AddressRequest hostaddr dstport) := by
  cases proxyDns with
  | true =>
      unfold socks5Request
      rw [if_pos rfl, sendSigned_eq talks]
      exact sendUnsigned_completes delivers _ _
  | false => exact sendUnsigned_completes delivers _ _

private theorem socks5Bound_completes (talks : Talks kernel sock inbox outbox)
    (delivers : DeliversAll kernel sock inbox outbox) (junk : Nat → Byte)
    {reserved addresstype : Byte} {address port : Bytes}
    (addressFits : AddressOf addresstype address) (portFits : port.length = 2) :
    Completes inbox outbox (socks5Bound kernel junk sock [reserved, addresstype]) ()
      (address ++ port) [] := by
  have reads : ∀ (length : Nat) (bytes : Bytes), bytes.length = length → Completes inbox outbox
      (recvUnsigned kernel sock (uninitialised junk length)
        (lostWhile "connect response from SOCKS5 proxy")) bytes bytes [] := fun length bytes fits =>
    recvUnsigned_completes talks delivers _ bytes (by simp [uninitialised, fits]) _
  have last : Completes inbox outbox (do
      let _ ← recvUnsigned kernel sock (uninitialised junk 2)
        (lostWhile "connect response from SOCKS5 proxy")
      pure () : Attempt σ Unit) () port [] :=
    completes_congr (completes_bind (reads 2 port portFits) (completes_pure ()))
      (List.append_nil port) rfl
  obtain ⟨rfl, four⟩ | ⟨rfl, name, short, rfl⟩ | ⟨rfl, sixteen⟩ := addressFits
  · exact completes_bind (reads 4 address four) last
  · have length : (UInt8.ofNat name.length).toNat = name.length :=
      UInt8.toNat_ofNat_of_lt' short
    have named : Completes inbox outbox (recvSigned kernel sock (UInt8.ofNat name.length).toNat
        (lostWhile "connect response from SOCKS5 proxy")) name name [] := by
      rw [length]
      exact recvSigned_completes delivers name _
    exact completes_bind (reads 1 [UInt8.ofNat name.length] rfl) (completes_bind named last)
  · exact completes_bind (reads 16 address sixteen) last

/-- What is behind the first reply. -/
private theorem socks5Connect_completes (talks : Talks kernel sock inbox outbox)
    (delivers : DeliversAll kernel sock inbox outbox) (junk : Nat → Byte) (proxyDns : Bool)
    (hostaddr : InAddr) (dsthost : Option CString) (dstport : UInt16) {initrecv : Bytes}
    (two : initrecv.length = 2) (reserved : Byte) {addresstype : Byte} {address port : Bytes}
    (addressFits : AddressOf addresstype address) (portFits : port.length = 2) :
    Completes inbox outbox (do
      socks5Request kernel proxyDns hostaddr dsthost dstport sock
      let initrecv ← recvUnsigned kernel sock initrecv
        (lostWhile "connect response from SOCKS5 proxy")
      socks5Status initrecv
      let initrecv ← recvUnsigned kernel sock initrecv
        (lostWhile "connect response from SOCKS5 proxy")
      socks5Bound kernel junk sock initrecv : Attempt σ Unit) ()
      ([5, 0] ++ [reserved, addresstype] ++ (address ++ port))
      (if proxyDns then socks5HostRequest dsthost dstport
        else socks5AddressRequest hostaddr dstport) := by
  refine completes_congr (completes_bind
    (socks5Request_completes talks delivers proxyDns hostaddr dsthost dstport)
    (completes_bind (recvUnsigned_completes talks delivers initrecv [5, 0] two.symm _)
      (completes_bind (completes_pure ())
        (completes_bind
          (recvUnsigned_completes talks delivers [5, 0] [reserved, addresstype] rfl _)
          (socks5Bound_completes talks delivers junk addressFits portFits))))) rfl ?_
  simp only [List.append_nil]

theorem socks5Negotiate_completes (talks : Talks kernel sock inbox outbox)
    (delivers : DeliversAll kernel sock inbox outbox) (junk : Nat → Byte) (proxyDns : Bool)
    (hostaddr : InAddr) (info : ProxyInfo) (dsthost : Option CString) (dstport : UInt16)
    (reply : Socks5Reply) :
    Completes inbox outbox
      (socks5Negotiate kernel junk proxyDns hostaddr info dsthost dstport sock) () reply.bytes
      (socks5Sent proxyDns hostaddr info dsthost dstport reply.login) := by
  obtain ⟨version, login, reserved, addresstype, address, port, addressFits, portFits⟩ := reply
  have connects : ∀ initrecv : Bytes, initrecv.length = 2 → _ := fun initrecv two =>
    socks5Connect_completes talks delivers junk proxyDns hostaddr dsthost dstport two reserved
      addressFits portFits
  have greeting := sendUnsigned_completes delivers (socks5Greeting info.proxyuser info.proxypass)
    "Error sending data to SOCKS5 proxy"
  have method : ∀ byte : Byte, Completes inbox outbox
      (recvUnsigned kernel sock (uninitialised junk 2) (lostWhile "data from SOCKS5 proxy"))
      [version, byte] [version, byte] [] := fun byte =>
    recvUnsigned_completes talks delivers _ _ (by simp [uninitialised]) _
  cases login with
  | true =>
      refine completes_congr (completes_bind greeting (completes_bind (method 2)
        (completes_bind (completes_pure true) (completes_bind
          (socks5Authenticate_completes talks delivers info rfl) (connects [1, 0] rfl))))) ?_ ?_
      all_goals simp [Socks5Reply.bytes, socks5Sent]
  | false =>
      refine completes_congr (completes_bind greeting (completes_bind (method 0)
        (completes_bind (completes_pure false) (connects [version, 0] rfl)))) ?_ ?_
      all_goals simp [Socks5Reply.bytes, socks5Sent]

end Complete

/-- On a socket that answers with a number of bytes, however many at a time: where the
negotiation succeeds, it has taken exactly one well-formed reply and nothing behind it, and
sent exactly the greeting, the login if it was chosen, and the request. On a socket that
also delivers what is there, every well-formed reply succeeds, with the login whether or
not it was offered. -/
theorem socks5Negotiate_succeeds (kernel : SocketKernel σ) (sock : Nat)
    (inbox outbox : σ → Bytes) (talks : Talks kernel sock inbox outbox) (junk : Nat → Byte)
    (proxyDns : Bool) (hostaddr : InAddr) (info : ProxyInfo) (dsthost : Option CString)
    (dstport : UInt16) (state : σ) :
    (∀ after, socks5Negotiate kernel junk proxyDns hostaddr info dsthost dstport sock state =
        (.ok (), after) →
      ∃ reply : Socks5Reply, Exchanged inbox outbox state after reply.bytes
        (socks5Sent proxyDns hostaddr info dsthost dstport reply.login)) ∧
    (DeliversAll kernel sock inbox outbox → ∀ reply : Socks5Reply, reply.bytes <+: inbox state →
      ∃ after, socks5Negotiate kernel junk proxyDns hostaddr info dsthost dstport sock state =
          (.ok (), after) ∧
        Exchanged inbox outbox state after reply.bytes
          (socks5Sent proxyDns hostaddr info dsthost dstport reply.login)) :=
  ⟨fun _ ended => socks5Negotiate_ok talks ended, fun delivers reply there =>
    socks5Negotiate_completes talks delivers junk proxyDns hostaddr info dsthost dstport reply
      state there⟩

/-- A system whose one stream has all that will ever be received. -/
def streamKernel : SocketKernel (Bytes × Bytes) where
  inetAddr _ := none
  gethostbyname stream _ := (none, stream)
  socket stream := (some 3, stream)
  bind stream _ _ _ := (true, stream)
  connect stream _ _ _ := (true, stream)
  send stream _ bytes := (some bytes.length, (stream.1, stream.2 ++ bytes))
  recv stream _ length look :=
    (some (stream.1.take length), if look then stream else (stream.1.drop length, stream.2))
  close stream _ := stream

theorem streamKernel_talks : Talks streamKernel 3 Prod.fst Prod.snd where
  received stream length :=
    ⟨min length stream.1.length, (stream.1.drop length, stream.2),
      by simp [streamKernel, List.take_eq_take_min], Nat.min_le_left _ _, Nat.min_le_right _ _,
      by simp [List.drop_eq_drop_min], rfl⟩
  sent _ bytes := ⟨bytes.length, _, rfl, Nat.le_refl _, by simp, rfl⟩

theorem streamKernel_deliversAll : DeliversAll streamKernel 3 Prod.fst Prod.snd where
  received _ _ _ := ⟨_, rfl, rfl, rfl⟩
  sent _ _ := ⟨_, rfl, rfl, rfl⟩

/-- Tor's reply to a connection to an onion service, with the first bytes of the service. -/
theorem socks5Negotiate_succeeds_tor :
    ∃ after, socks5Negotiate streamKernel (fun _ => 0) true ⟨255, 255, 255, 255⟩
        ⟨.socks5, some (CString.literal "localhost"), 9250, none, none⟩
        (some (CString.literal "expyuzz4wqqyqhjn.onion")) 80 3
        ([5, 0, 5, 0, 0, 1, 0, 0, 0, 0, 0, 0, 0x7B], []) = (.ok (), after) ∧
      Exchanged Prod.fst Prod.snd ([5, 0, 5, 0, 0, 1, 0, 0, 0, 0, 0, 0, 0x7B], []) after
        [5, 0, 5, 0, 0, 1, 0, 0, 0, 0, 0, 0]
        ([5, 1, 0, 5, 1, 0, 3, 22] ++ ascii "expyuzz4wqqyqhjn.onion" ++ [0, 80]) :=
  (socks5Negotiate_succeeds streamKernel 3 Prod.fst Prod.snd streamKernel_talks (fun _ => 0) true
    ⟨255, 255, 255, 255⟩ ⟨.socks5, some (CString.literal "localhost"), 9250, none, none⟩
    (some (CString.literal "expyuzz4wqqyqhjn.onion")) 80 _).2 streamKernel_deliversAll
    ⟨5, false, 0, 1, [0, 0, 0, 0], [0, 0], .inl ⟨rfl, rfl⟩, rfl⟩ ⟨[0x7B], rfl⟩

end Torchat.Proxy
