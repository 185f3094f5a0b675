import Torchat.Proxy.Descriptors

/-!
Contract: which names are looked up and which addresses are contacted for a connection
through proxies.

Owns the events of a connection that others can see, and that those of one through proxies
that look up names themselves are about the proxies of the chain only, so that the name of
the destination is left to the last proxy.

Does not own what is sent to the proxies; see `Requests`.
-/

set_option autoImplicit false

namespace Torchat.Proxy

open Torchat.Foundation
open Torchat.Foundation.Session

/-- What can be seen of a connection beside its data. -/
inductive NetEvent where
  | looked (hostname : CString) (answer : Option InAddr)
  | connected (address : InAddr) (port : UInt16)
deriving DecidableEq

/-- A host with a port. -/
abbrev Site := CString × UInt16

/-- The hosts and ports of a chain. -/
def proxySites (chain : List ProxyInfo) : List Site :=
  chain.filterMap fun info => info.proxyhost.map fun host => (host, info.proxyport)

section Confined

variable {σ : Type} (kernel : SocketKernel σ)

/-- The address is the one that the name denotes, or that the system has answered. -/
def FoundAt (host : CString) (address : InAddr) (events : List NetEvent) : Prop :=
  kernel.inetAddr host = some address ∨ NetEvent.looked host (some address) ∈ events

/-- Behind `events`, the event is the lookup of one of the sites, or a connection to one at
an address that was found for it by then. -/
def NetEvent.Within (sites : List Site) (events : List NetEvent) : NetEvent → Prop
  | .looked host _ => ∃ port, (host, port) ∈ sites
  | .connected address port => ∃ host, (host, port) ∈ sites ∧ FoundAt kernel host address events

def Confined (sites : List Site) (events : List NetEvent) : Prop :=
  ∀ before event after, events = before ++ event :: after → event.Within kernel sites before

/-- The two calls that can be seen are recorded, and no others. -/
structure Records (events : σ → List NetEvent) : Prop where
  looked : ∀ state host, events (kernel.gethostbyname state host).2 =
    events state ++ [.looked host (kernel.gethostbyname state host).1]
  connected : ∀ state sock address port, events (kernel.connect state sock address port).2 =
    events state ++ [.connected address port]
  created : ∀ state, events (kernel.socket state).2 = events state
  bound : ∀ state sock address port, events (kernel.bind state sock address port).2 = events state
  closed : ∀ state sock, events (kernel.close state sock) = events state
  quiet : Quiet kernel events

end Confined

section During

variable {σ : Type} {kernel : SocketKernel σ} {events : σ → List NetEvent} {sites : List Site}
  {start log : List NetEvent} {known : List (CString × InAddr)}

theorem FoundAt.append {host : CString} {address : InAddr}
    (found : FoundAt kernel host address log) (more : List NetEvent) :
    FoundAt kernel host address (log ++ more) :=
  found.imp_right fun member => List.mem_append_left more member

theorem Confined.nil : Confined kernel sites [] := by
  intro before event after split
  exact absurd split (by simp)

theorem Confined.concat {event : NetEvent} (confined : Confined kernel sites log)
    (within : event.Within kernel sites log) : Confined kernel sites (log ++ [event]) := by
  intro before other after split
  rcases List.eq_nil_or_concat after with rfl | ⟨front, last, rfl⟩
  · obtain ⟨rfl, same⟩ := List.append_inj' split rfl
    cases same
    exact within
  · rw [List.concat_eq_append, ← List.cons_append, ← List.append_assoc] at split
    obtain ⟨former, _⟩ := List.append_inj' split rfl
    exact confined before other front former

/-- What a connection has added to the events is confined, and the addresses that it knows
were found by it. -/
def During (kernel : SocketKernel σ) (sites : List Site) (start : List NetEvent)
    (known : List (CString × InAddr)) (log : List NetEvent) : Prop :=
  ∃ added, log = start ++ added ∧ Confined kernel sites added ∧
    ∀ pair ∈ known, FoundAt kernel pair.1 pair.2 added

theorem during_start : During kernel sites start [] start :=
  ⟨[], (List.append_nil start).symm, Confined.nil, nofun⟩

theorem During.mono {fewer : List (CString × InAddr)}
    (during : During kernel sites start known log) (subset : fewer ⊆ known) :
    During kernel sites start fewer log := by
  obtain ⟨added, same, confined, found⟩ := during
  exact ⟨added, same, confined, fun pair member => found pair (subset member)⟩

theorem During.forget (during : During kernel sites start known log) :
    During kernel sites start [] log := during.mono (List.nil_subset known)

theorem During.learn {host : CString} {address : InAddr}
    (during : During kernel sites start known log) (denotes : kernel.inetAddr host = some address) :
    During kernel sites start ((host, address) :: known) log := by
  obtain ⟨added, same, confined, found⟩ := during
  refine ⟨added, same, confined, ?_⟩
  rintro pair (_ | ⟨_, former⟩)
  · exact Or.inl denotes
  · exact found pair former

theorem During.concat (during : During kernel sites start known log) (event : NetEvent)
    (within : ∀ added, (∀ pair ∈ known, FoundAt kernel pair.1 pair.2 added) →
      event.Within kernel sites added) :
    During kernel sites start known (log ++ [event]) := by
  obtain ⟨added, rfl, confined, found⟩ := during
  exact ⟨added ++ [event], List.append_assoc .., confined.concat (within added found),
    fun pair member => (found pair member).append [event]⟩

/-- A lookup makes its answer known. -/
theorem During.looked {host : CString} {port : UInt16} (site : (host, port) ∈ sites)
    (during : During kernel sites start known log) (answer : Option InAddr) :
    During kernel sites start ((answer.map fun address => (host, address)).toList ++ known)
      (log ++ [.looked host answer]) := by
  obtain ⟨added, rfl, confined, found⟩ := during
  refine ⟨added ++ [.looked host answer], List.append_assoc ..,
    confined.concat (show NetEvent.Within kernel sites _ (.looked host answer) from ⟨port, site⟩),
    ?_⟩
  intro pair member
  rcases List.mem_append.mp member with fresh | former
  · obtain ⟨address, rfl, rfl⟩ := Option.map_eq_some_iff.mp (Option.mem_toList.mp fresh)
    exact Or.inr (List.mem_append_right added (List.mem_singleton_self _))
  · exact (found pair former).append _

/-! ## Lookups and connections -/

/-- What is known with the answer for a host. -/
def learned (host : CString) (found : Option InAddr) (known : List (CString × InAddr)) :
    List (CString × InAddr) :=
  (found.map fun address => (host, address)).toList ++ known

/-- A call that adds no event. -/
private theorem ensures_silent {α : Type} {operation : σ → α × σ}
    (silent : ∀ state, events (operation state).2 = events state) :
    Ensures (fun state => During kernel sites start known (events state))
      (Session.call operation : Attempt σ α)
      (fun _ state => During kernel sites start known (events state))
      (fun state => During kernel sites start [] (events state)) := by
  refine Ensures.call fun state during => ?_
  rw [silent]
  exact during

private theorem ensures_getIpv4Address (records : Records kernel events) {host : CString}
    {port : UInt16} (site : (host, port) ∈ sites) :
    Ensures (fun state => During kernel sites start known (events state))
      (getIpv4Address kernel (some host))
      (fun found state => During kernel sites start (learned host found known) (events state))
      (fun state => During kernel sites start [] (events state)) := by
  unfold getIpv4Address
  refine Ensures.ite (fun _ => Ensures.pure fun _ during => during) fun _ => ?_
  split
  next address denotes => exact Ensures.pure fun _ during => during.learn denotes
  · refine Ensures.call fun state during => ?_
    rw [records.looked]
    exact during.looked site _

/-- The addresses that a chain starts with: where the connection is direct, the one that
was found for the destination. -/
private theorem ensures_destinationAddress (records : Records kernel events) (info : ProxyInfo)
    (dsthost : Option CString) (dstport : UInt16)
    (direct : info.proxytype = .none → ∀ host ∈ dsthost, (host, dstport) ∈ sites) :
    Ensures (fun state => During kernel sites start [] (events state))
      (destinationAddress kernel true info dsthost)
      (fun found state => ∃ known, During kernel sites start known (events state) ∧
        (info.proxytype = .none → ∃ host address, (host, dstport) ∈ sites ∧
          found = some address ∧ (host, address) ∈ known))
      (fun state => During kernel sites start [] (events state)) := by
  unfold destinationAddress
  refine Ensures.ite (fun either => ?_) fun neither => Ensures.pure fun state during =>
    ⟨[], during, fun isNone => absurd (Or.inr isNone) neither⟩
  have isNone : info.proxytype = .none := either.resolve_left Bool.noConfusion
  cases dsthost with
  | none =>
      have notFound : Ensures (fun state => During kernel sites start [] (events state))
          (getIpv4Address kernel none)
          (fun found state => found = none ∧ During kernel sites start [] (events state))
          (fun state => During kernel sites start [] (events state)) :=
        Ensures.pure fun _ during => ⟨rfl, during⟩
      refine notFound.bind fun found => ?_
      cases found with
      | none => exact Ensures.abort fun _ during => during.2
      | some address => exact fun _ during => absurd during.1 (Option.some_ne_none address)
  | some host =>
      have site := direct isNone host rfl
      refine Ensures.bind (ensures_getIpv4Address records site) fun found => ?_
      cases found with
      | none => exact Ensures.abort fun _ during => during
      | some address =>
          exact Ensures.pure fun _ during =>
            ⟨_, during, fun _ => ⟨host, address, site, rfl, List.mem_cons_self⟩⟩

private theorem ensures_proxyAddress (records : Records kernel events) (info : ProxyInfo)
    (inside : ∀ host ∈ info.proxyhost, (host, info.proxyport) ∈ sites) :
    Ensures (fun state => During kernel sites start known (events state))
      (proxyAddress kernel info)
      (fun _ state => During kernel sites start known (events state))
      (fun state => During kernel sites start [] (events state)) := by
  unfold proxyAddress
  refine Ensures.ite (fun isGiven => ?_) fun _ =>
    Ensures.ite (fun _ => Ensures.abort fun _ during => during.forget)
      fun _ => Ensures.pure fun _ during => during
  cases host : info.proxyhost with
  | none =>
      rw [host] at isGiven
      cases isGiven
  | some name =>
      refine Ensures.bind (ensures_getIpv4Address records (inside name host)) fun found => ?_
      cases found with
      | none => exact Ensures.abort fun _ during => during.forget
      | some address => exact Ensures.pure fun _ during => during.mono (List.subset_append_right ..)

/-- A direct connection goes to the address that was found. -/
private theorem ensures_directConnect (records : Records kernel events) (info : ProxyInfo)
    (proxyaddr : Option InAddr) {host : CString} {address : InAddr} {dstport : UInt16}
    (site : (host, dstport) ∈ sites) (isKnown : (host, address) ∈ known) (sock : Nat) :
    Ensures (fun state => During kernel sites start known (events state))
      (directConnect kernel info proxyaddr address dstport sock)
      (fun _ state => During kernel sites start [] (events state))
      (fun state => During kernel sites start [] (events state)) := by
  have connects : Ensures (fun state => During kernel sites start known (events state))
      (do
        let connected ← Session.call fun state => kernel.connect state sock address dstport
        if connected then pure ()
        else Session.abort (.aborted (ascii "Error connecting to host: " ++ address.ntoa ++
          ascii ":" ++ decimal dstport.toNat)) : Attempt σ Unit)
      (fun _ state => During kernel sites start [] (events state))
      (fun state => During kernel sites start [] (events state)) := by
    have called : Ensures (fun state => During kernel sites start known (events state))
        (Session.call fun state => kernel.connect state sock address dstport :
          Attempt σ Bool)
        (fun _ state => During kernel sites start [] (events state))
        (fun state => During kernel sites start [] (events state)) := by
      refine Ensures.call fun state during => ?_
      rw [records.connected]
      exact (during.concat (.connected address dstport) fun added found =>
        ⟨host, site, found _ isKnown⟩).forget
    exact called.bind fun connected =>
      Ensures.ite (fun _ => Ensures.pure fun _ during => during)
        fun _ => Ensures.abort fun _ during => during
  unfold directConnect
  dsimp only
  split
  · refine Ensures.bind (ensures_silent fun state => records.bound state sock _ _)
      fun isBound => ?_
    split
    · exact connects
    · exact Ensures.bind (Ensures.abort fun _ during => during.forget) fun _ => connects
  · exact connects

/-- The close behind a failure adds nothing. -/
private theorem ensures_disconnecting (records : Records kernel events)
    {body : Nat → Attempt σ Unit} {sock : Nat}
    (confined : Ensures (fun state => During kernel sites start known (events state)) (body sock)
      (fun _ state => During kernel sites start [] (events state))
      (fun state => During kernel sites start [] (events state))) :
    Ensures (fun state => During kernel sites start known (events state))
      (disconnecting kernel sock body)
      (fun _ state => During kernel sites start [] (events state))
      (fun state => During kernel sites start [] (events state)) := by
  have closes : ∀ state, During kernel sites start [] (events state) →
      During kernel sites start [] (events (kernel.close state sock)) := by
    intro state during
    rw [records.closed]
    exact during
  exact (confined.onError closes).bind fun _ => Ensures.pure fun _ during => during

/-- A chain, with a destination that is one of the sites where it is connected to directly. -/
private theorem ensures_proxyinfoConnect (records : Records kernel events) (junk : Nat → Byte)
    (fuel : Nat) (chain : List ProxyInfo) (inside : ∀ site ∈ proxySites chain, site ∈ sites)
    (dsthost : Option CString) (dstport : UInt16)
    (direct : ∀ info ∈ chain.head?, info.proxytype = .none →
      ∀ host ∈ dsthost, (host, dstport) ∈ sites) :
    Ensures (fun state => During kernel sites start [] (events state))
      (proxyinfoConnect kernel junk fuel true chain dsthost dstport)
      (fun _ state => During kernel sites start [] (events state))
      (fun state => During kernel sites start [] (events state)) := by
  induction chain generalizing dsthost dstport with
  | nil => exact Ensures.abort fun _ during => during
  | cons info next inductionHypothesis =>
      have own : ∀ host ∈ info.proxyhost, (host, info.proxyport) ∈ sites := by
        intro host isHost
        refine inside _ (List.mem_filterMap.mpr ⟨info, List.mem_cons_self, ?_⟩)
        rw [Option.mem_def.mp isHost]
        rfl
      have behind := inductionHypothesis
        (fun site member => inside site (by
          unfold proxySites at member ⊢
          rw [List.filterMap_cons]
          split
          · exact member
          · exact List.mem_cons_of_mem _ member))
        info.proxyhost info.proxyport fun _ _ _ => own
      unfold proxyinfoConnect
      refine (ensures_destinationAddress records info dsthost dstport
        (direct info rfl)).bind fun found => ?_
      rintro state ⟨known, during, isFound⟩
      have address : Ensures (fun state => During kernel sites start known (events state))
          (proxyAddress kernel info)
          (fun _ state => During kernel sites start known (events state))
          (fun state => During kernel sites start [] (events state)) :=
        ensures_proxyAddress records info own
      refine (address.bind fun proxyaddr => ?_) state during
      have through : ∀ body : Nat → Attempt σ Unit, (∀ sock, Keeps events (body sock)) →
          Ensures (fun state => During kernel sites start known (events state))
            (proxyinfoConnect kernel junk fuel true next info.proxyhost info.proxyport >>=
              fun sock => disconnecting kernel sock body)
            (fun _ state => During kernel sites start [] (events state))
            (fun state => During kernel sites start [] (events state)) :=
        fun body keeps state during =>
          behind.bind (fun sock => ensures_disconnecting records ((keeps sock).ensures _)) state
            during.forget
      cases type : info.proxytype with
      | socks4 => exact through _ fun _ => keeps_socks4Negotiate records.quiet _ _ _ _ _ _
      | socks5 => exact through _ fun _ => keeps_socks5Negotiate records.quiet _ _ _ _ _ _ _
      | webConnect => exact through _ fun _ => keeps_webNegotiate records.quiet _ _ _ _ _ _ _
      | invalid => exact Ensures.abort fun _ during => during.forget
      | none =>
          obtain ⟨host, address, site, rfl, isKnown⟩ := isFound type
          refine Ensures.bind (ensures_silent records.created) fun found => ?_
          cases found with
          | none => exact Ensures.abort fun _ during => during.forget
          | some sock =>
              exact ensures_disconnecting records
                (ensures_directConnect records info proxyaddr site isKnown sock)

end During

/-- With names looked up by the proxies, a connection through a chain that starts with a
proxy looks up hosts of the chain only, never the destination, and contacts nothing but
these hosts at their ports, at addresses that were found for them before; whatever the
system answers, and also where the attempt fails. -/
theorem proxyinfoConnect_confined {σ : Type} (kernel : SocketKernel σ)
    (events : σ → List NetEvent) (records : Records kernel events) (junk : Nat → Byte)
    (fuel : Nat) (info : ProxyInfo) (next : List ProxyInfo) (proxied : info.proxytype ≠ .none)
    (dsthost : Option CString) (dstport : UInt16) (state : σ) :
    ∃ added, events (proxyinfoConnect kernel junk fuel true (info :: next) dsthost dstport
        state).2 = events state ++ added ∧
      Confined kernel (proxySites (info :: next)) added := by
  have ensures := ensures_proxyinfoConnect records junk fuel (info :: next) (fun _ site => site)
    dsthost dstport (fun first isFirst direct => absurd direct (by cases isFirst; exact proxied))
    state during_start
  cases result : proxyinfoConnect kernel junk fuel true (info :: next) dsthost dstport state with
  | mk value after =>
      cases value with
      | ok sock =>
          obtain ⟨added, same, confined, _⟩ := ensures.1 sock after result
          exact ⟨added, same, confined⟩
      | error stop =>
          obtain ⟨added, same, confined, _⟩ := ensures.2 stop after result
          exact ⟨added, same, confined⟩

/-- A system that finds every name, and where nothing is ever received. -/
def recordingKernel : SocketKernel (List NetEvent) where
  inetAddr _ := none
  gethostbyname events host :=
    (some ⟨127, 0, 0, 1⟩, events ++ [.looked host (some ⟨127, 0, 0, 1⟩)])
  socket events := (some 3, events)
  bind events _ _ _ := (true, events)
  connect events _ address port := (true, events ++ [.connected address port])
  send events _ bytes := (some bytes.length, events)
  recv events _ _ _ := (some [], events)
  close events _ := events

theorem recordingKernel_records : Records recordingKernel id where
  looked _ _ := rfl
  connected _ _ _ _ := rfl
  created _ := rfl
  bound _ _ _ _ := rfl
  closed _ _ := rfl
  quiet := ⟨fun _ _ _ => rfl, fun _ _ _ _ => rfl⟩

/-- The daemon's own proxy: the onion name is not looked up. -/
theorem proxyinfoConnect_confined_onion :
    ∃ added, (proxyinfoConnect recordingKernel (fun _ => 0) 0 true
        (initializeProxyConnection (CString.literal "localhost") 9250).proxyinfolist
        (some (CString.literal "expyuzz4wqqyqhjn.onion")) 80 []).2 = [] ++ added ∧
      Confined recordingKernel [(CString.literal "localhost", 9250)] added :=
  proxyinfoConnect_confined recordingKernel id recordingKernel_records (fun _ => 0) 0
    ⟨.socks5, some (CString.literal "localhost"), 9250, none, none⟩ [directInfo] nofun _ 80 []

end Torchat.Proxy
