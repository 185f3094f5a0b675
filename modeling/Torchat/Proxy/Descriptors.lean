import Torchat.Proxy.Proxysocket

/-!
Contract: the descriptors of a connection through a chain of proxies.

Owns that a negotiation does nothing but send and receive, and that a connection leaves
one socket open where it succeeds and none where it fails, over any chain.

Does not own which negotiations succeed; see `Socks5`.
-/

set_option autoImplicit false

namespace Torchat.Proxy

open Torchat.Foundation
open Torchat.Foundation.Session

variable {σ : Type}

/-- A part of the system that is left alone by the calls for data. -/
structure Quiet {τ : Type} (kernel : SocketKernel σ) (part : σ → τ) : Prop where
  sent : ∀ state sock bytes, part (kernel.send state sock bytes).2 = part state
  received : ∀ state sock length peek,
    part (kernel.recv state sock length peek).2 = part state

section Keeps

variable {kernel : SocketKernel σ} {τ : Type} {part : σ → τ}

theorem keeps_abortWith {α : Type} (errmsg : String) :
    Keeps part (abortWith errmsg : Attempt σ α) := Keeps.abort _

theorem keeps_getIpv4Address
    (looked : ∀ state host, part (kernel.gethostbyname state host).2 = part state)
    (hostname : Option CString) : Keeps part (getIpv4Address kernel hostname) := by
  unfold getIpv4Address
  split
  · exact Keeps.pure _
  · refine Keeps.ite (Keeps.pure _) ?_
    split
    · exact Keeps.pure _
    · exact Keeps.call fun state => looked state _

theorem keeps_destinationAddress
    (looked : ∀ state host, part (kernel.gethostbyname state host).2 = part state)
    (proxyDns : Bool) (info : ProxyInfo) (dsthost : Option CString) :
    Keeps part (destinationAddress kernel proxyDns info dsthost) := by
  refine Keeps.ite (Keeps.bind (keeps_getIpv4Address looked _) fun found => ?_) (Keeps.pure _)
  cases found with
  | none => exact Keeps.abort _
  | some addr => exact Keeps.pure _

theorem keeps_proxyAddress
    (looked : ∀ state host, part (kernel.gethostbyname state host).2 = part state)
    (info : ProxyInfo) : Keeps part (proxyAddress kernel info) := by
  refine Keeps.ite (Keeps.bind (keeps_getIpv4Address looked _) fun found => ?_)
    (Keeps.ite (keeps_abortWith _) (Keeps.pure _))
  cases found with
  | none => exact Keeps.abort _
  | some addr => exact Keeps.pure _

theorem keeps_sendUnsigned (quiet : Quiet kernel part) (sock : Nat) (bytes : Bytes)
    (errmsg : String) : Keeps part (sendUnsigned kernel sock bytes errmsg) := by
  refine Keeps.bind (Keeps.call fun state => quiet.sent state sock bytes) fun rc => ?_
  cases rc with
  | none => exact Keeps.pure ()
  | some count => exact Keeps.ite (keeps_abortWith _) (Keeps.pure ())

theorem keeps_sendSigned (quiet : Quiet kernel part) (sock : Nat) (bytes : Bytes)
    (errmsg : String) : Keeps part (sendSigned kernel sock bytes errmsg) := by
  refine Keeps.bind (Keeps.call fun state => quiet.sent state sock bytes) fun rc => ?_
  cases rc with
  | none => exact keeps_abortWith _
  | some count => exact Keeps.ite (keeps_abortWith _) (Keeps.pure ())

theorem keeps_recvUnsigned (quiet : Quiet kernel part) (sock : Nat) (buf : Bytes)
    (errmsg : String) : Keeps part (recvUnsigned kernel sock buf errmsg) := by
  refine Keeps.bind (Keeps.call fun state => quiet.received state sock buf.length false)
    fun rc => ?_
  cases rc with
  | none => exact Keeps.pure _
  | some bytes => exact Keeps.ite (keeps_abortWith _) (Keeps.pure _)

theorem keeps_recvSigned (quiet : Quiet kernel part) (sock length : Nat) (errmsg : String) :
    Keeps part (recvSigned kernel sock length errmsg) := by
  refine Keeps.bind (Keeps.call fun state => quiet.received state sock length false) fun rc => ?_
  cases rc with
  | none => exact keeps_abortWith _
  | some bytes => exact Keeps.ite (keeps_abortWith _) (Keeps.pure _)

private theorem keeps_readOn (quiet : Quiet kernel part) (sock n : Nat) (buf : Bytes)
    {goOn : Bytes → Attempt σ (Option CString)} (keeps : ∀ more, Keeps part (goOn more)) :
    Keeps part (readOn kernel sock n buf goOn) := by
  refine Keeps.bind (Keeps.call fun state => quiet.received state sock n false) fun rc => ?_
  split
  · exact Keeps.pure _
  · exact Keeps.pure _
  · exact keeps _

private theorem keeps_receivelineLoop (quiet : Quiet kernel part) (sock fuel : Nat)
    (buf : Bytes) : Keeps part (receivelineLoop kernel sock fuel buf) := by
  induction fuel generalizing buf with
  | zero => exact Keeps.abort _
  | succ fuel inductionHypothesis =>
      unfold receivelineLoop
      refine Keeps.bind (Keeps.call fun state => quiet.received state sock 128 true) fun rc => ?_
      split
      · exact Keeps.pure _
      · exact Keeps.pure _
      · split
        · exact keeps_readOn quiet _ _ _ inductionHypothesis
        · refine Keeps.bind (Keeps.call fun state => quiet.received state sock _ false)
            fun rc => ?_
          split
          · exact keeps_readOn quiet _ _ _ inductionHypothesis
          · exact Keeps.ite (Keeps.pure _) (keeps_readOn quiet _ _ _ inductionHypothesis)

private theorem keeps_headerLoop (quiet : Quiet kernel part) (sock fuel : Nat)
    (line : Option CString) (response : Bytes) :
    Keeps part (headerLoop kernel sock fuel line response) := by
  induction fuel generalizing line response with
  | zero =>
      cases line with
      | none => exact Keeps.pure _
      | some line =>
          unfold headerLoop
          exact Keeps.ite (Keeps.pure _) (Keeps.abort _)
  | succ fuel inductionHypothesis =>
      cases line with
      | none => exact Keeps.pure _
      | some line =>
          unfold headerLoop
          exact Keeps.ite (Keeps.pure _)
            (Keeps.bind (keeps_receivelineLoop quiet _ _ _) fun _ => inductionHypothesis _ _)

private theorem keeps_sendHttpRequest (quiet : Quiet kernel part) (fuel sock : Nat)
    (request : Bytes) : Keeps part (sendHttpRequest kernel fuel sock request) := by
  refine Keeps.bind (Keeps.call fun state => quiet.sent state sock request) fun rc => ?_
  cases rc with
  | none => exact Keeps.pure _
  | some count =>
      refine Keeps.bind (keeps_receivelineLoop quiet _ _ _) fun line => ?_
      cases line with
      | none => exact Keeps.pure _
      | some line =>
          dsimp only
          split
          · exact Keeps.pure _
          · exact Keeps.bind (keeps_headerLoop quiet _ _ _ _) fun _ => Keeps.pure _

/-! ## Negotiations -/

theorem keeps_socks4Negotiate (quiet : Quiet kernel part) (proxyDns : Bool)
    (hostaddr : InAddr) (info : ProxyInfo) (dsthost : Option CString) (dstport : UInt16)
    (sock : Nat) :
    Keeps part (socks4Negotiate kernel proxyDns hostaddr info dsthost dstport sock) := by
  refine Keeps.bind (keeps_sendUnsigned quiet _ _ _) fun _ =>
    Keeps.bind (keeps_recvSigned quiet _ _ _) fun response => ?_
  split
  · exact Keeps.pure _
  all_goals exact keeps_abortWith _

private theorem keeps_socks5Method (initrecv : Bytes) :
    Keeps part (socks5Method initrecv : Attempt σ Bool) := by
  unfold socks5Method
  split
  · exact Keeps.pure _
  · exact Keeps.pure _
  all_goals exact keeps_abortWith _

private theorem keeps_socks5Authenticate (quiet : Quiet kernel part) (info : ProxyInfo)
    (sock : Nat) (initrecv : Bytes) :
    Keeps part (socks5Authenticate kernel info sock initrecv) :=
  Keeps.bind (keeps_sendUnsigned quiet _ _ _) fun _ =>
    Keeps.bind (keeps_recvUnsigned quiet _ _ _) fun _ =>
      Keeps.ite (keeps_abortWith _)
        (Keeps.ite (keeps_abortWith _) (Keeps.ite (Keeps.abort _) (Keeps.pure _)))

private theorem keeps_socks5Request (quiet : Quiet kernel part) (proxyDns : Bool)
    (hostaddr : InAddr) (dsthost : Option CString) (dstport : UInt16) (sock : Nat) :
    Keeps part (socks5Request kernel proxyDns hostaddr dsthost dstport sock) :=
  Keeps.ite (keeps_sendSigned quiet _ _ _) (keeps_sendUnsigned quiet _ _ _)

private theorem keeps_socks5Status (initrecv : Bytes) :
    Keeps part (socks5Status initrecv : Attempt σ Unit) := by
  refine Keeps.ite (keeps_abortWith _) ?_
  split
  · exact Keeps.pure _
  all_goals exact keeps_abortWith _

private theorem keeps_socks5Bound (quiet : Quiet kernel part) (junk : Nat → Byte)
    (sock : Nat) (initrecv : Bytes) : Keeps part (socks5Bound kernel junk sock initrecv) := by
  have received : ∀ (buf : Bytes) errmsg, Keeps part (recvUnsigned kernel sock buf errmsg) :=
    fun _ _ => keeps_recvUnsigned quiet _ _ _
  unfold socks5Bound
  dsimp only
  split
  · exact Keeps.bind (received _ _) fun _ => Keeps.bind (received _ _) fun _ => Keeps.pure _
  · exact Keeps.bind (received _ _) fun _ => Keeps.bind (keeps_recvSigned quiet _ _ _) fun _ =>
      Keeps.bind (received _ _) fun _ => Keeps.pure _
  · exact Keeps.bind (received _ _) fun _ => Keeps.bind (received _ _) fun _ => Keeps.pure _
  · exact keeps_abortWith _

theorem keeps_socks5Negotiate (quiet : Quiet kernel part) (junk : Nat → Byte)
    (proxyDns : Bool) (hostaddr : InAddr) (info : ProxyInfo) (dsthost : Option CString)
    (dstport : UInt16) (sock : Nat) :
    Keeps part
      (socks5Negotiate kernel junk proxyDns hostaddr info dsthost dstport sock) := by
  have connects : ∀ initrecv : Bytes, Keeps part (do
      socks5Request kernel proxyDns hostaddr dsthost dstport sock
      let initrecv ← recvUnsigned kernel sock initrecv
        (lostWhile "connect response from SOCKS5 proxy")
      socks5Status initrecv
      let initrecv ← recvUnsigned kernel sock initrecv
        (lostWhile "connect response from SOCKS5 proxy")
      socks5Bound kernel junk sock initrecv : Attempt σ Unit) := fun _ =>
    Keeps.bind (keeps_socks5Request quiet _ _ _ _ _) fun _ =>
      Keeps.bind (keeps_recvUnsigned quiet _ _ _) fun _ =>
        Keeps.bind (keeps_socks5Status _) fun _ =>
          Keeps.bind (keeps_recvUnsigned quiet _ _ _) fun _ => keeps_socks5Bound quiet _ _ _
  refine Keeps.bind (keeps_sendUnsigned quiet _ _ _) fun _ =>
    Keeps.bind (keeps_recvUnsigned quiet _ _ _) fun initrecv =>
      Keeps.bind (keeps_socks5Method _) fun login => ?_
  dsimp only
  split
  · exact Keeps.bind (keeps_socks5Authenticate quiet _ _ _) fun _ => connects _
  · exact connects _

theorem keeps_webNegotiate (quiet : Quiet kernel part) (fuel : Nat)
    (proxyDns : Bool) (hostaddr : InAddr) (info : ProxyInfo) (dsthost : Option CString)
    (dstport : UInt16) (sock : Nat) :
    Keeps part (webNegotiate kernel fuel proxyDns hostaddr info dsthost dstport sock) := by
  have credentials : Keeps part (webCredentials info : Attempt σ (Option Bytes)) := by
    refine Keeps.ite ?_ (Keeps.pure _)
    split
    · exact Keeps.abort _
    split
    · exact Keeps.pure _
    · exact Keeps.abort _
  have judged : ∀ result : Int, Keeps part (webResult info result : Attempt σ Unit) := by
    intro result
    unfold webResult
    repeat' refine Keeps.ite ?_ ?_
    all_goals first
      | exact Keeps.pure _
      | exact Keeps.abort _
  exact Keeps.bind credentials fun _ =>
    Keeps.bind (keeps_sendHttpRequest quiet _ _ _) fun _ => judged _

end Keeps

/-! ## Connections -/

/-- `socket` opens the descriptor it answers, `close` closes its own, and no other call
opens or closes any. -/
structure Tracks (kernel : SocketKernel σ) (opened : σ → List Nat) : Prop where
  looked : ∀ state host, opened (kernel.gethostbyname state host).2 = opened state
  created : ∀ state sock after, kernel.socket state = (some sock, after) →
    opened after = sock :: opened state
  refused : ∀ state after, kernel.socket state = (none, after) → opened after = opened state
  bound : ∀ state sock address port, opened (kernel.bind state sock address port).2 = opened state
  connected : ∀ state sock address port,
    opened (kernel.connect state sock address port).2 = opened state
  quiet : Quiet kernel opened
  closed : ∀ state sock, opened (kernel.close state sock) = (opened state).erase sock

section Connections

variable {kernel : SocketKernel σ} {opened : σ → List Nat} {state : σ}

private theorem keeps_directConnect (tracks : Tracks kernel opened) (info : ProxyInfo)
    (proxyaddr : Option InAddr) (hostaddr : InAddr) (dstport : UInt16) (sock : Nat) :
    Keeps opened (directConnect kernel info proxyaddr hostaddr dstport sock) := by
  have connects : Keeps opened (do
      let connected ← Session.call fun state => kernel.connect state sock hostaddr dstport
      if connected then pure ()
      else Session.abort (.aborted (ascii "Error connecting to host: " ++ hostaddr.ntoa ++
        ascii ":" ++ decimal dstport.toNat)) : Attempt σ Unit) :=
    Keeps.bind (Keeps.call fun state => tracks.connected state _ _ _) fun _ =>
      Keeps.ite (Keeps.pure _) (Keeps.abort _)
  unfold directConnect
  dsimp only
  split
  · refine Keeps.bind (Keeps.call fun state => tracks.bound state _ _ _) fun bound => ?_
    split
    · exact connects
    · exact Keeps.bind (Keeps.abort _) fun _ => connects
  · exact connects

/-- What an attempt leaves open: its socket where it succeeds, and nothing where it is
aborted. -/
def LeavesOpen (opened : σ → List Nat) (state : σ) : Except Stop Nat × σ → Prop
  | (.ok sock, after) => opened after = sock :: opened state
  | (.error (.aborted _), after) => opened after = opened state
  | (.error (.fault _), _) => True

private theorem leavesOpen_bind {α : Type} {first : Attempt σ α} {continuation : α → Attempt σ Nat}
    (keeps : Keeps opened first) {start : σ} (before : opened start = opened state)
    (leaves : ∀ value between, opened between = opened state →
      LeavesOpen opened state (continuation value between)) :
    LeavesOpen opened state ((first >>= continuation) start) := by
  have same := (keeps start).trans before
  rw [bind_apply]
  split
  next value between isFirst =>
    rw [isFirst] at same
    exact leaves value between same
  next stop between isFirst =>
    rw [isFirst] at same
    cases stop with
    | aborted errmsg => exact same
    | fault reason => trivial

/-- The socket of a failed negotiation is closed, and it is the last one that was opened. -/
private theorem leavesOpen_disconnecting (tracks : Tracks kernel opened) {sock : Nat}
    {between : σ} (isOpen : opened between = sock :: opened state) {body : Nat → Attempt σ Unit}
    (keeps : Keeps opened (body sock)) :
    LeavesOpen opened state (disconnecting kernel sock body between) := by
  have same := keeps between
  unfold disconnecting
  rw [bind_apply]
  unfold onError
  cases result : body sock between with
  | mk value after =>
      rw [result] at same
      cases value with
      | ok _ => exact same.trans isOpen
      | error stop =>
          cases stop with
          | fault reason => trivial
          | aborted errmsg =>
              show opened (kernel.close after sock) = opened state
              rw [tracks.closed, same, isOpen, List.erase_cons_head]

private theorem leavesOpen_through (tracks : Tracks kernel opened) {first : Attempt σ Nat}
    (leaves : ∀ between, LeavesOpen opened between (first between)) {between : σ}
    (before : opened between = opened state) {body : Nat → Attempt σ Unit}
    (keeps : ∀ sock, Keeps opened (body sock)) :
    LeavesOpen opened state
      ((first >>= fun sock => disconnecting kernel sock body) between) := by
  have reached := leaves between
  rw [bind_apply]
  cases result : first between with
  | mk value after =>
      rw [result] at reached
      cases value with
      | ok sock =>
          have isOpen : opened after = sock :: opened between := reached
          rw [before] at isOpen
          exact leavesOpen_disconnecting tracks isOpen (keeps sock)
      | error stop =>
          cases stop with
          | fault reason => trivial
          | aborted errmsg => exact Eq.trans reached before

/-- Over any chain of proxies of any types, and whatever the system answers: a connection
leaves exactly one more socket open, the one that is returned, and an attempt that is
aborted, at whichever proxy and at whichever step, leaves none. -/
theorem proxyinfoConnect_leaves_open (kernel : SocketKernel σ) (opened : σ → List Nat)
    (tracks : Tracks kernel opened) (junk : Nat → Byte) (fuel : Nat) (proxyDns : Bool)
    (chain : List ProxyInfo) (dsthost : Option CString) (dstport : UInt16) (state : σ) :
    LeavesOpen opened state
      (proxyinfoConnect kernel junk fuel proxyDns chain dsthost dstport state) := by
  induction chain generalizing dsthost dstport state with
  | nil => rfl
  | cons info next inductionHypothesis =>
      have through : ∀ between, opened between = opened state → ∀ body : Nat → Attempt σ Unit,
          (∀ sock, Keeps opened (body sock)) →
          LeavesOpen opened state ((proxyinfoConnect kernel junk fuel proxyDns next info.proxyhost
            info.proxyport >>= fun sock => disconnecting kernel sock body) between) :=
        fun between before body keeps =>
          leavesOpen_through tracks (inductionHypothesis _ _) before keeps
      unfold proxyinfoConnect
      refine leavesOpen_bind (keeps_destinationAddress tracks.looked proxyDns info dsthost) rfl
        fun found between before => leavesOpen_bind (keeps_proxyAddress tracks.looked info) before
          fun proxyaddr after same => ?_
      cases type : info.proxytype with
      | socks4 => exact through after same _ fun _ => keeps_socks4Negotiate tracks.quiet _ _ _ _ _ _
      | socks5 =>
          exact through after same _ fun _ => keeps_socks5Negotiate tracks.quiet _ _ _ _ _ _ _
      | webConnect =>
          exact through after same _ fun _ => keeps_webNegotiate tracks.quiet _ _ _ _ _ _ _
      | invalid => exact same
      | none =>
          dsimp only
          rw [bind_apply, call_apply]
          dsimp only
          cases made : kernel.socket after with
          | mk found last =>
              cases found with
              | none => exact (tracks.refused after last made).trans same
              | some sock =>
                  have isOpen := tracks.created after sock last made
                  rw [same] at isOpen
                  exact leavesOpen_disconnecting tracks isOpen
                    (keeps_directConnect tracks _ _ _ _ _)

end Connections

/-- A system on which every connection is made and nothing is ever received. -/
def silentKernel : SocketKernel (List Nat) where
  inetAddr _ := some ⟨127, 0, 0, 1⟩
  gethostbyname opened _ := (none, opened)
  socket opened := (some opened.length, opened.length :: opened)
  bind opened _ _ _ := (true, opened)
  connect opened _ _ _ := (true, opened)
  send opened _ bytes := (some bytes.length, opened)
  recv opened _ _ _ := (some [], opened)
  close opened sock := opened.erase sock

theorem silentKernel_tracks : Tracks silentKernel id where
  looked _ _ := rfl
  created := by
    rintro opened sock after ⟨⟩
    rfl
  refused := nofun
  bound _ _ _ _ := rfl
  connected _ _ _ _ := rfl
  quiet := ⟨fun _ _ _ => rfl, fun _ _ _ _ => rfl⟩
  closed _ _ := rfl

theorem proxyinfoConnect_leaves_open_silent :
    LeavesOpen id [] (proxyinfoConnect silentKernel (fun _ => 0) 0 true
      (initializeProxyConnection (CString.literal "localhost") 9250).proxyinfolist
      (some (CString.literal "expyuzz4wqqyqhjn.onion")) 80 []) :=
  proxyinfoConnect_leaves_open silentKernel id silentKernel_tracks (fun _ => 0) 0 true _ _ 80 []

end Torchat.Proxy
