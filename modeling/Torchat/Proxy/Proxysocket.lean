import Torchat.Proxy.HttpProxy

/-!
Contract: `proxysocket.c`, a TCP connection through a chain of proxies.

Owns the chain, the requests to a proxy of each type, the negotiation with it, and the
connection, which is disconnected wherever a step of the negotiation fails.

Does not own logging, which the daemon leaves off, and memory that cannot be allocated.
-/

set_option autoImplicit false

namespace Torchat.Proxy

open Torchat.Foundation
open Torchat.Daemon (Fault)

/-! ## The configuration -/

/-- `PROXYSOCKET_TYPE_..`. -/
inductive ProxyType where
  | none
  | socks4
  | socks5
  | webConnect
  | invalid
deriving DecidableEq

/-- `struct proxyinfo_struct` without its link: a chain is a list. -/
structure ProxyInfo where
  proxytype : ProxyType
  proxyhost : Option CString
  proxyport : UInt16
  proxyuser : Option CString
  proxypass : Option CString
deriving DecidableEq

/-- `struct proxysocketconfig_struct` without its logger. -/
structure ProxyConfig where
  proxyinfolist : List ProxyInfo
  proxyDns : Bool
deriving DecidableEq

/-- `proxysocketconfig_add_proxy`: in front of the others, or of none of them where the
connection is to be direct. -/
def addProxy (proxy : ProxyConfig) (info : ProxyInfo) : ProxyConfig :=
  if info.proxytype = .none then { proxy with proxyinfolist := [info] }
  else { proxy with proxyinfolist := info :: proxy.proxyinfolist }

def directInfo : ProxyInfo := ⟨.none, none, 0, none, none⟩

/-- `proxysocketconfig_create_direct`. -/
def createDirect : ProxyConfig := addProxy ⟨[], false⟩ directInfo

/-- `proxysocketconfig_use_proxy_dns`. -/
def useProxyDns (proxy : ProxyConfig) (proxyDns : Int) : ProxyConfig :=
  { proxy with proxyDns := proxyDns ≠ 0 }

/-- `initialize_proxy_connection`. -/
def initializeProxyConnection (host : CString) (port : UInt16) : ProxyConfig :=
  addProxy (useProxyDns createDirect 1) ⟨.socks5, some host, port, none, none⟩

/-- A string that is there and not empty. -/
def given (text : Option CString) : Bool := text.any fun text => text.bytes ≠ []

def bytesOf (text : Option CString) : Bytes := (text.map CString.bytes).getD []

/-! ## Requests -/

/-- The connect request to a SOCKS4 proxy. -/
def socks4Request (proxyDns : Bool) (hostaddr : InAddr) (proxyuser dsthost : Option CString)
    (dstport : UInt16) : Bytes :=
  [0x04, 0x01] ++ htons dstport ++ (if proxyDns then [0, 0, 0, 0xFF] else hostaddr.bytes) ++
    bytesOf proxyuser ++ [0] ++ (if proxyDns then bytesOf dsthost ++ [0] else [])

/-- The methods that are offered to a SOCKS5 proxy. -/
def socks5Greeting (proxyuser proxypass : Option CString) : Bytes :=
  if given proxyuser || given proxypass then [0x05, 2, 0x02, 0x00] else [0x05, 1, 0x00]

/-- The user and the password, each with its length in one byte. -/
def socks5Login (proxyuser proxypass : Option CString) : Bytes :=
  [1, UInt8.ofNat (bytesOf proxyuser).length] ++ bytesOf proxyuser ++
    [UInt8.ofNat (bytesOf proxypass).length] ++ bytesOf proxypass

def socks5AddressRequest (hostaddr : InAddr) (dstport : UInt16) : Bytes :=
  [0x05, 0x01, 0, 0x01] ++ hostaddr.bytes ++ htons dstport

/-- The connect request with the name of a host behind its length in one byte. -/
def socks5HostRequest (dsthost : Option CString) (dstport : UInt16) : Bytes :=
  [0x05, 0x01, 0, 0x03, UInt8.ofNat (bytesOf dsthost).length] ++ bytesOf dsthost ++
    htons dstport

/-- The command before it is cut off. -/
def webCommand (host : Bytes) (dstport : UInt16) (proxyauth : Option Bytes) : Bytes :=
  ascii "CONNECT " ++ host ++ ascii ":" ++ decimal dstport.toNat ++ ascii " HTTP/1.0" ++
    (match proxyauth with
      | none => []
      | some proxyauth => ascii "\r\nProxy-Authorization: Basic " ++ proxyauth) ++
    ascii "\r\n\r\n"

/-- `proxycmdlen`. -/
def webCommandSize (proxyauth : Option Bytes) : Nat :=
  22 + 15 + 1 + 5 + 1 +
    match proxyauth with
    | none => 0
    | some proxyauth => 29 + proxyauth.length

/-- `snprintf` into a block of `proxycmdlen` bytes. -/
def webRequest (host : Bytes) (dstport : UInt16) (proxyauth : Option Bytes) : Bytes :=
  (webCommand host dstport proxyauth).take (webCommandSize proxyauth - 1)

/-! ## Negotiation -/

section Negotiation

variable {σ : Type} (kernel : SocketKernel σ)

def lostWhile (reading : String) : String := "Connection lost while reading " ++ reading

/-- The connect request to a SOCKS4 proxy and its reply. -/
def socks4Negotiate (proxyDns : Bool) (hostaddr : InAddr) (info : ProxyInfo)
    (dsthost : Option CString) (dstport : UInt16) (sock : Nat) : Attempt σ Unit := do
  sendUnsigned kernel sock (socks4Request proxyDns hostaddr info.proxyuser dsthost dstport)
    "Error sending connect command to SOCKS4 proxy"
  let response ← recvSigned kernel sock 8 (lostWhile "connect response from SOCKS4 proxy")
  match (response.getD 1 0).toNat with
  | 90 => pure ()
  | 91 => abortWith "SOCKS4 connection rejected or failed"
  | 92 =>
      abortWith
        "SOCKS4 request rejected because SOCKS server cannot connect to identd on the client"
  | 93 =>
      abortWith <| "SOCKS4 request rejected because the client program and identd " ++
        "report different user-ids"
  | status => abortWith ("Unsupported reply from SOCKS4 server (" ++ toString status ++ ")")

/-- The method that a SOCKS5 proxy chooses; `true` stands for the login. -/
def socks5Method (initrecv : Bytes) : Attempt σ Bool :=
  match (initrecv.getD 1 0).toNat with
  | 0x00 => pure false
  | 0x02 => pure true
  | 0xFF => abortWith "Unable to negociate SOCKS5 proxy authentication method"
  | method =>
      abortWith <| "Received unknown SOCKS5 proxy authentication method (" ++ toString method ++ ")"

/-- The login, into the same buffer for the reply. -/
def socks5Authenticate (info : ProxyInfo) (sock : Nat) (initrecv : Bytes) :
    Attempt σ Bytes := do
  sendUnsigned kernel sock (socks5Login info.proxyuser info.proxypass)
    "Error sending authentication data to SOCKS5 proxy"
  let initrecv ← recvUnsigned kernel sock initrecv
    (lostWhile "authentication response from SOCKS5 proxy")
  if initrecv.getD 0 0 ≠ 1 then
    abortWith <| "SOCKS5 proxy subnegotiation version mismatch (" ++
      toString (initrecv.getD 0 0).toNat ++ ")"
  else if initrecv.getD 1 0 = 0x05 then abortWith "SOCKS5 access denied"
  else if initrecv.getD 1 0 ≠ 0 then
    Session.abort <| .aborted <| ascii "SOCKS5 authentication failed with status code " ++
      decimal (initrecv.getD 1 0).toNat ++ ascii " (login: " ++
      (info.proxyuser.map CString.bytes).getD (ascii "(null)") ++ ascii ")"
  else pure initrecv

/-- The connect request to a SOCKS5 proxy. The length of the one with a name is an `int`. -/
def socks5Request (proxyDns : Bool) (hostaddr : InAddr) (dsthost : Option CString)
    (dstport : UInt16) (sock : Nat) : Attempt σ Unit :=
  if proxyDns then
    sendSigned kernel sock (socks5HostRequest dsthost dstport)
      "Error sending connect command with hostname to SOCKS5 proxy"
  else
    sendUnsigned kernel sock (socks5AddressRequest hostaddr dstport)
      "Error sending connect command with IPv4 address to SOCKS5 proxy"

/-- The status of a SOCKS5 proxy. -/
def socks5Status (initrecv : Bytes) : Attempt σ Unit :=
  if initrecv.getD 0 0 ≠ 0x05 then
    abortWith ("SOCKS5 proxy version mismatch (" ++ toString (initrecv.getD 0 0).toNat ++ ")")
  else
    match (initrecv.getD 1 0).toNat with
    | 0x00 => pure ()
    | 0x01 => abortWith "General SOCKS5 server failure"
    | 0x02 => abortWith "Connection denied by SOCKS5 server"
    | 0x03 => abortWith "SOCKS5 server response: Network unreachable"
    | 0x04 => abortWith "SOCKS5 server response: Host unreachable"
    | 0x05 => abortWith "SOCKS5 server response: Connection refused"
    | 0x06 => abortWith "SOCKS5 server response: TTL expired"
    | 0x07 => abortWith "Command not supported by SOCKS5 server"
    | 0x08 => abortWith "Address type not supported by SOCKS5 server"
    | status =>
        abortWith ("Unsupported status code from SOCKS5 server (" ++ toString status ++ ")")

/-- A buffer of `length` bytes in which nothing was written yet. -/
def uninitialised (junk : Nat → Byte) (length : Nat) : Bytes := (List.range length).map junk

/-- The address and the port that a SOCKS5 proxy has bound, which are read and dropped.
The lengths of the name are the only ones that are compared as `int`. -/
def socks5Bound (junk : Nat → Byte) (sock : Nat) (initrecv : Bytes) : Attempt σ Unit := do
  let lost := lostWhile "connect response from SOCKS5 proxy"
  match (initrecv.getD 1 0).toNat with
  | 1 => do
      let _ ← recvUnsigned kernel sock (uninitialised junk 4) lost
      let _ ← recvUnsigned kernel sock (uninitialised junk 2) lost
      pure ()
  | 3 => do
      let bindaddrlen ← recvUnsigned kernel sock (uninitialised junk 1) lost
      let _ ← recvSigned kernel sock (bindaddrlen.getD 0 0).toNat lost
      let _ ← recvUnsigned kernel sock (uninitialised junk 2) lost
      pure ()
  | 4 => do
      let _ ← recvUnsigned kernel sock (uninitialised junk 16) lost
      let _ ← recvUnsigned kernel sock (uninitialised junk 2) lost
      pure ()
  | addresstype => abortWith ("Unsupported SOCKS5 address type (" ++ toString addresstype ++ ")")

/-- The negotiation with a SOCKS5 proxy. `junk` are the bytes that are on the stack before
anything is received. -/
def socks5Negotiate (junk : Nat → Byte) (proxyDns : Bool) (hostaddr : InAddr) (info : ProxyInfo)
    (dsthost : Option CString) (dstport : UInt16) (sock : Nat) : Attempt σ Unit := do
  sendUnsigned kernel sock (socks5Greeting info.proxyuser info.proxypass)
    "Error sending data to SOCKS5 proxy"
  let initrecv ← recvUnsigned kernel sock (uninitialised junk 2)
    (lostWhile "data from SOCKS5 proxy")
  let login ← socks5Method initrecv
  let initrecv ← if login then socks5Authenticate kernel info sock initrecv else pure initrecv
  socks5Request kernel proxyDns hostaddr dsthost dstport sock
  let initrecv ← recvUnsigned kernel sock initrecv
    (lostWhile "connect response from SOCKS5 proxy")
  socks5Status initrecv
  let initrecv ← recvUnsigned kernel sock initrecv
    (lostWhile "connect response from SOCKS5 proxy")
  socks5Bound kernel junk sock initrecv

/-- The text of the credentials in base 64. Without a password nothing is written behind
the colon, and the text goes on behind its block. -/
def webCredentials (info : ProxyInfo) : Attempt σ (Option Bytes) :=
  if given info.proxyuser then
    match info.proxypass with
    | none => Session.abort (.fault .outOfBounds)
    | some proxypass =>
        match makeBase64String
            (CString.ofBytes (bytesOf info.proxyuser ++ ascii ":" ++ proxypass.bytes)) with
        | .ok proxyauth => pure (some proxyauth)
        | .error reason => Session.abort (.fault reason)
  else pure none

/-- What is made of the result of the request to a web proxy. -/
def webResult (info : ProxyInfo) (result : Int) : Attempt σ Unit :=
  if result < 100 ∨ 600 ≤ result then
    abortWith "Invalid response, probably not from a web proxy"
  else if result = 400 then abortWith "Bad request"
  else if result = 401 then abortWith "Authentication required"
  else if result = 403 then abortWith "Access denied"
  else if result = 404 then abortWith "Not found"
  else if result = 405 then abortWith "Method not allowed"
  else if result = 407 then
    if given info.proxyuser then
      Session.abort (.aborted (ascii "Proxy authentication failed (user: " ++
        bytesOf info.proxyuser ++ ascii ")"))
    else abortWith "Proxy authentication required"
  else if result = 408 then abortWith "Request timed out"
  else if result = 429 then abortWith "Too many requests"
  else if result < 100 then abortWith "Web proxy returned unexpected progress response"
  else if 500 ≤ result then abortWith "Web proxy returned a server error"
  else if 400 ≤ result then abortWith "Web proxy returned a client error"
  else if 300 ≤ result then abortWith "Web proxy returned unexpected redirection"
  else pure ()

/-- The request to a web proxy and its response. -/
def webNegotiate (fuel : Nat) (proxyDns : Bool) (hostaddr : InAddr) (info : ProxyInfo)
    (dsthost : Option CString) (dstport : UInt16) (sock : Nat) : Attempt σ Unit := do
  let proxyauth ← webCredentials info
  let host := if proxyDns then bytesOf dsthost else hostaddr.ntoa
  let (result, _) ← sendHttpRequest kernel fuel sock (webRequest host dstport proxyauth)
  webResult info result

/-! ## Connections -/

/-- A connection without a proxy, on a new socket. -/
def directConnect (info : ProxyInfo) (proxyaddr : Option InAddr) (hostaddr : InAddr)
    (dstport : UInt16) (sock : Nat) : Attempt σ Unit := do
  let localaddr := proxyaddr.getD InAddr.any
  if localaddr ≠ InAddr.any ∨ info.proxyport ≠ 0 then
    let bound ← Session.call fun state => kernel.bind state sock localaddr info.proxyport
    if bound then pure ()
    else Session.abort (.aborted (ascii "Error binding socket to: " ++ localaddr.ntoa ++
      ascii ":" ++ decimal info.proxyport.toNat))
  let connected ← Session.call fun state => kernel.connect state sock hostaddr dstport
  if connected then pure ()
  else Session.abort (.aborted (ascii "Error connecting to host: " ++ hostaddr.ntoa ++
    ascii ":" ++ decimal dstport.toNat))

/-- The address of the destination, where this side has to know it. -/
def destinationAddress (proxyDns : Bool) (info : ProxyInfo) (dsthost : Option CString) :
    Attempt σ (Option InAddr) :=
  if proxyDns = false ∨ info.proxytype = .none then do
    match ← getIpv4Address kernel dsthost with
    | none => Session.abort (.aborted (ascii "Error looking up host: " ++ bytesOf dsthost))
    | some hostaddr => pure (some hostaddr)
  else pure none

/-- The address of the proxy. -/
def proxyAddress (info : ProxyInfo) : Attempt σ (Option InAddr) :=
  if given info.proxyhost then do
    match ← getIpv4Address kernel info.proxyhost with
    | none => Session.abort (.aborted (ascii "Error looking up proxy host: " ++
        bytesOf info.proxyhost))
    | some proxyaddr => pure (some proxyaddr)
  else if info.proxytype ≠ .none then abortWith "Missing proxy host"
  else pure none

/-- `ERROR_DISCONNECT_AND_ABORT` around what is done with a socket. -/
def disconnecting (sock : Nat) (body : Nat → Attempt σ Unit) : Attempt σ Nat := do
  Session.onError (body sock) fun state => kernel.close state sock
  pure sock

/-- `proxyinfo_connect`. The last proxy of the chain is the first one to be connected to;
each of them is reached through those behind it. -/
def proxyinfoConnect (junk : Nat → Byte) (fuel : Nat) (proxyDns : Bool) :
    List ProxyInfo → Option CString → UInt16 → Attempt σ Nat
  | [], _, _ => abortWith "Proxy connection information missing"
  | info :: next, dsthost, dstport => do
      let found ← destinationAddress kernel proxyDns info dsthost
      let hostaddr := found.getD ⟨0xFF, 0xFF, 0xFF, 0xFF⟩
      let proxyaddr ← proxyAddress kernel info
      match info.proxytype with
      | .none => do
          match ← Session.call kernel.socket with
          | none => abortWith "Error creating connection socket"
          | some sock =>
              disconnecting kernel sock (directConnect kernel info proxyaddr hostaddr dstport)
      | .socks4 => do
          let sock ← proxyinfoConnect junk fuel proxyDns next info.proxyhost info.proxyport
          disconnecting kernel sock (socks4Negotiate kernel proxyDns hostaddr info dsthost dstport)
      | .socks5 => do
          let sock ← proxyinfoConnect junk fuel proxyDns next info.proxyhost info.proxyport
          disconnecting kernel sock
            (socks5Negotiate kernel junk proxyDns hostaddr info dsthost dstport)
      | .webConnect => do
          let sock ← proxyinfoConnect junk fuel proxyDns next info.proxyhost info.proxyport
          disconnecting kernel sock
            (webNegotiate kernel fuel proxyDns hostaddr info dsthost dstport)
      | .invalid => abortWith "Unknown proxy type"

end Negotiation

end Torchat.Proxy
