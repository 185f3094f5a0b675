import Torchat.Proxy.Socks5

/-!
Contract: a connection through any number of SOCKS5 proxies that look up names themselves.

Owns what goes over the one socket when such a connection is made: the replies of the
proxies from the nearest to the last, each to a request for the one behind it, and the
last to the request for the destination.

Does not own the single negotiation; see `Socks5`.
-/

set_option autoImplicit false

namespace Torchat.Proxy

open Torchat.Foundation
open Torchat.Foundation.Session

variable {σ : Type}

/-- The system has an address for the host. -/
def Found (kernel : SocketKernel σ) (host : Option CString) : Prop :=
  ∃ name, host = some name ∧ name.bytes ≠ [] ∧
    ∀ state, kernel.inetAddr name ≠ none ∨ (kernel.gethostbyname state name).1 ≠ none

/-- Sockets can be made and connected. -/
structure Reaches (kernel : SocketKernel σ) (sock : Nat) : Prop where
  created : ∀ state, (kernel.socket state).1 = some sock
  connected : ∀ state address port, (kernel.connect state sock address port).1 = true

section Tunnel

variable {kernel : SocketKernel σ} {sock : Nat} {inbox outbox : σ → Bytes} {state after : σ}

/-! ## What a connection has gone through -/

end Tunnel

end Torchat.Proxy
