import Torchat.Foundation.Decimal
import Torchat.Foundation.Session
import Torchat.Daemon.Util

/-!
Contract: the calls of the socket interface that `proxysocket.c` makes, and how it looks
at their results.

Owns IPv4 addresses, the lookup of a host, and the two ways in which the number of bytes
sent or received is compared with the number of bytes wanted.

Does not own the system: its calls are arguments.
-/

set_option autoImplicit false

namespace Torchat.Proxy

open Torchat.Foundation
open Torchat.Daemon (Fault)

/-- `struct in_addr`, in the order of its bytes in memory. -/
structure InAddr where
  a : Byte
  b : Byte
  c : Byte
  d : Byte
deriving DecidableEq

namespace InAddr

def bytes (address : InAddr) : Bytes := [address.a, address.b, address.c, address.d]

/-- `INADDR_ANY`. -/
def any : InAddr := ⟨0, 0, 0, 0⟩

/-- `inet_ntoa`. -/
def ntoa (address : InAddr) : Bytes :=
  decimal address.a.toNat ++ ascii "." ++ decimal address.b.toNat ++ ascii "." ++
    decimal address.c.toNat ++ ascii "." ++ decimal address.d.toNat

end InAddr

/-- The two bytes of `htons`. -/
def htons (port : UInt16) : Bytes :=
  [UInt8.ofNat (port.toNat / 256), UInt8.ofNat (port.toNat % 256)]

/-- The system below the proxy client. An address is `none` where it is `INADDR_NONE`;
`send` and `recv` answer `none` for -1. `recv` is told how many bytes may be delivered and
whether they stay in the socket. -/
structure SocketKernel (σ : Type) where
  inetAddr : CString → Option InAddr
  gethostbyname : σ → CString → Option InAddr × σ
  socket : σ → Option Nat × σ
  bind : σ → Nat → InAddr → UInt16 → Bool × σ
  connect : σ → Nat → InAddr → UInt16 → Bool × σ
  send : σ → Nat → Bytes → Option Nat × σ
  recv : σ → Nat → Nat → Bool → Option Bytes × σ
  close : σ → Nat → σ

/-- Why there is no connection: the message that is kept for the caller, or an access
outside an object. -/
inductive Stop where
  | aborted (errmsg : Bytes)
  | fault (reason : Fault)
deriving DecidableEq

abbrev Attempt (σ α : Type) := Session σ Stop α

section Calls

variable {σ : Type} (kernel : SocketKernel σ)

def abortWith {α : Type} (errmsg : String) : Attempt σ α := Session.abort (.aborted (ascii errmsg))

/-- `get_ipv4_address`. -/
def getIpv4Address (hostname : Option CString) : Attempt σ (Option InAddr) :=
  match hostname with
  | none => pure none
  | some hostname =>
      if hostname.bytes = [] then pure none
      else
        match kernel.inetAddr hostname with
        | some addr => pure (some addr)
        | none => Session.call fun state => kernel.gethostbyname state hostname

/-- `send (..) < length` for a length of type `size_t`: -1 is the largest number there,
so that an error goes unnoticed. -/
def sendUnsigned (sock : Nat) (bytes : Bytes) (errmsg : String) : Attempt σ Unit := do
  match ← Session.call fun state => kernel.send state sock bytes with
  | none => pure ()
  | some count => if count < bytes.length then abortWith errmsg else pure ()

/-- `send (..) < length` for a length of type `int`. -/
def sendSigned (sock : Nat) (bytes : Bytes) (errmsg : String) : Attempt σ Unit := do
  match ← Session.call fun state => kernel.send state sock bytes with
  | none => abortWith errmsg
  | some count => if count < bytes.length then abortWith errmsg else pure ()

/-- `recv (..) < sizeof (buf)`: behind an error, which goes unnoticed, the buffer holds
what it held before. -/
def recvUnsigned (sock : Nat) (buf : Bytes) (errmsg : String) : Attempt σ Bytes := do
  match ← Session.call fun state => kernel.recv state sock buf.length false with
  | none => pure buf
  | some bytes => if bytes.length < buf.length then abortWith errmsg else pure bytes

/-- `recv (..) < length` for a length of type `int` or smaller. -/
def recvSigned (sock length : Nat) (errmsg : String) : Attempt σ Bytes := do
  match ← Session.call fun state => kernel.recv state sock length false with
  | none => abortWith errmsg
  | some bytes => if bytes.length < length then abortWith errmsg else pure bytes

end Calls

end Torchat.Proxy
