import Clyntis.Tailscale.Netstack
import Clyntis.Tailscale.Router

/-!
# What reaches the netstack

The inbound side of the router: which decrypted packets are handed to the
netstack, and which datagrams bring the router down.

- `NetstackSide`: the part of the state the netstack sees. Every handler but
  `wireguard` leaves it alone (the `_quiet` lemmas);
- `Router.plaintext`: the packet an event decrypts, with the peer whose tunnel it
  came through. `step_delivered` says that it is delivered whenever there is room,
  whatever its source address;
- `Delivery.CryptokeyRouted`: the source address is routed to that peer;
- `onUdp_returns_iff`: the only datagrams that panic are STUN responses with a
  cut-off padding.
-/

namespace Clyntis.Tailscale

open Lib Net List

/-- What the netstack shares with the router. -/
structure NetstackSide where
  delivered : List Delivery
  routes : Routes
  stackLoad : Nat
  stackClosed : Bool

/-- The netstack's side after a packet was handed over, if there was one. -/
def NetstackSide.push (side : NetstackSide) (d : Option Delivery) : NetstackSide :=
  match d with
  | none => side
  | some d =>
    if !side.stackClosed && decide (side.stackLoad < stackCapacity) then
      { side with stackLoad := side.stackLoad + 1, delivered := side.delivered ++ [d] }
    else side

namespace Router

variable {T : Type} (env : Env T)

/-- The netstack's side of the state. -/
def netstackSide (r : Router T) : NetstackSide :=
  ⟨r.delivered, r.routes, r.stackLoad, r.stackClosed⟩

/-- A handler that returns and leaves the netstack's side alone. -/
def Quiet {α : Type} (m : Handler (Router T) α) : Prop :=
  Finishes (fun r r' => r'.netstackSide = r.netstackSide) m

theorem keeping : Keeping fun r r' : Router T => r'.netstackSide = r.netstackSide :=
  Keeping.eqOn netstackSide

namespace Quiet

variable {α β : Type}

theorem pure (a : α) : Quiet (Pure.pure a : Handler (Router T) α) :=
  Finishes.pure keeping a

theorem get : Quiet (MonadState.get : Handler (Router T) (Router T)) :=
  Finishes.get keeping

theorem bind {m : Handler (Router T) α} {f : α → Handler (Router T) β}
    (hm : Quiet m) (hf : ∀ a, Quiet (f a)) : Quiet (m >>= f) :=
  Finishes.bind keeping hm hf

theorem forM {f : β → Handler (Router T) PUnit} (hf : ∀ b, Quiet (f b)) (l : List β) :
    Quiet (l.forM f) :=
  Finishes.forM keeping hf l

theorem modify {f : Router T → Router T}
    (hf : ∀ r, (f r).netstackSide = r.netstackSide) :
    Quiet (modify f : Handler (Router T) PUnit) :=
  Finishes.modify hf

/-- A quiet handler hands nothing over. -/
theorem push_none {m : Handler (Router T) Unit} (hm : Quiet m) (r : Router T) :
    ∃ r', m r = .ok ((), r') ∧ r'.netstackSide = r.netstackSide.push none := by
  obtain ⟨u, r', hrun, hside⟩ := hm r
  exact ⟨r', hrun, hside⟩

end Quiet

/-! ## Handlers that do not reach the netstack -/

theorem updatePeer_quiet (key : Public) (f : PeerState → PeerState) :
    Quiet (updatePeer key f : Handler (Router T) Unit) :=
  .modify fun _ => rfl

theorem offer_quiet (via : Via) (payload : Payload) : Quiet (offer env via payload) := by
  refine .bind .get fun r => .bind (.modify fun _ => rfl) fun _ => .pure _

theorem tunnel_quiet (peer : Public) : Quiet (tunnel env peer) := by
  refine .bind .get fun r => ?_
  split
  · exact .pure _
  · refine .bind .get fun r => .bind (.modify fun _ => rfl) fun _ => .pure _

theorem sendUdp_quiet (addr : SocketAddr) (payload : Payload) :
    Quiet (sendUdp env addr payload) := by
  refine .bind .get fun r => ?_
  split
  · exact offer_quiet env _ _
  · exact .pure _

theorem connect_quiet (region : Nat) : Quiet (connect region : Handler (Router T) Unit) :=
  .modify fun _ => rfl

theorem startRegion_quiet (now region : Nat) (peer : Public) (payload : Payload) :
    Quiet (startRegion now region peer payload : Handler (Router T) Unit) := by
  refine .bind .get fun r => ?_
  split
  · exact .pure _
  · exact .bind (.modify fun _ => rfl) fun _ => connect_quiet region

theorem relay_quiet (now region : Nat) (peer : Public) (payload : Payload) :
    Quiet (relay env now region peer payload) := by
  refine .bind .get fun r => ?_
  split
  · refine .bind .get fun r => ?_
    split
    · exact startRegion_quiet now region peer payload
    · exact .bind (offer_quiet env _ _) fun _ => .pure _
  · split
    · exact .modify fun _ => rfl
    · exact .pure _
  · exact startRegion_quiet now region peer payload

variable (now : Nat)

theorem sendDerp_quiet (peer : Public) (payload : Payload) :
    Quiet (sendDerp env now peer payload) := by
  refine .bind .get fun r => ?_
  split
  · split
    · exact relay_quiet env now _ peer payload
    · exact .pure _
  · exact .pure _

theorem sendDisco_quiet (peer : Peer) (via : Via) (message : Disco.Message) :
    Quiet (sendDisco env now peer via message) := by
  unfold sendDisco
  split
  · exact .pure _
  · cases via with
    | udp addr => exact .bind (sendUdp_quiet env _ _) fun _ => .pure _
    | derp key => exact sendDerp_quiet env now key _

theorem ping_quiet (peer : Peer) (addr : SocketAddr) :
    Quiet (ping env now peer addr) := by
  refine .bind .get fun r => ?_
  split
  · exact .pure _
  · refine .bind .get fun r => .bind (.modify fun _ => rfl) fun _ => ?_
    exact .bind (updatePeer_quiet _ _) fun _ => sendDisco_quiet env now peer _ _

theorem discoverRound_quiet (key : Public) (peer : Peer) :
    Quiet (discoverRound env now key peer) := by
  refine .bind (updatePeer_quiet _ _) fun _ => .bind .get fun r => ?_
  refine .bind (.forM (ping_quiet env now peer) _) fun _ => .bind .get fun r => ?_
  dsimp only
  split
  · exact sendDisco_quiet env now peer _ _
  · exact .pure _

theorem discover_quiet (key : Public) (force : Bool) :
    Quiet (discover env now key force) := by
  refine .bind .get fun r => ?_
  split
  · exact .pure _
  · refine .bind .get fun r => ?_
    split
    · exact .pure _
    · refine .bind (updatePeer_quiet _ _) fun _ => .bind .get fun r => ?_
      split
      · exact .pure _
      · exact discoverRound_quiet env now key _

theorem sendUdpTo_quiet (addr : Option SocketAddr) (payload : Payload) :
    Quiet (sendUdpTo env addr payload) := by
  cases addr with
  | none => exact .pure _
  | some addr => exact sendUdp_quiet env addr payload

theorem send_quiet (peer : Public) (datagram : Bytes) : Quiet (send env now peer datagram) := by
  refine .bind (updatePeer_quiet _ _) fun _ => .bind .get fun r => ?_
  refine .bind (sendUdpTo_quiet env _ _) fun direct => ?_
  split
  · exact .pure _
  · refine .bind (sendUdpTo_quiet env _ _) fun _ => ?_
    exact .bind (discover_quiet env now peer false) fun _ => sendDerp_quiet env now peer _

theorem handlePing_quiet (via : Via) (peer : Peer) (tx : Stun.Tx) :
    Quiet (handlePing env now via peer tx) := by
  cases via with
  | udp addr =>
    refine .bind (sendDisco_quiet env now peer _ _) fun _ => ?_
    refine .bind (.modify fun _ => rfl) fun _ => .bind (updatePeer_quiet _ _) fun _ => ?_
    refine .bind .get fun r => ?_
    split
    · exact ping_quiet env now peer addr
    · exact .pure _
  | derp key => exact .bind .get fun r => sendDisco_quiet env now peer _ _

theorem confirm_quiet (peer : Peer) (addr : SocketAddr) (sentAt : Nat) :
    Quiet (confirm now peer addr sentAt : Handler (Router T) Unit) := by
  refine .bind .get fun r => ?_
  split
  · exact .bind (updatePeer_quiet _ _) fun _ => .modify fun _ => rfl
  · exact .pure _

theorem handlePong_quiet (via : Via) (peer : Peer) (tx : Stun.Tx) :
    Quiet (handlePong now via peer tx : Handler (Router T) Unit) := by
  refine .bind .get fun r => ?_
  split
  · exact .pure _
  · refine .bind (updatePeer_quiet _ _) fun _ => ?_
    cases via with
    | udp source =>
      dsimp only
      split
      · exact confirm_quiet now peer _ _
      · exact .pure _
    | derp key => exact confirm_quiet now peer _ _

theorem handleDisco_quiet (via : Via) (packet : Bytes) :
    Quiet (handleDisco env now via packet) := by
  unfold handleDisco
  split
  · exact .pure _
  · refine .bind .get fun r => ?_
    split
    · exact .pure _
    · split
      · exact handlePing_quiet env now via _ _
      · exact handlePong_quiet now via _ _
      · exact .bind (updatePeer_quiet _ _) fun _ => .forM (ping_quiet env now _) _

theorem publish_quiet : Quiet (publish : Handler (Router T) Unit) :=
  .modify fun _ => rfl

theorem stunRequest_quiet (server : SocketAddr) :
    Quiet (stunRequest env now server) := by
  refine .bind .get fun r => .bind (.modify fun _ => rfl) fun _ => ?_
  refine .bind (offer_quiet env _ _) fun taken => ?_
  split
  · exact .modify fun _ => rfl
  · exact .pure _

theorem closeRound_quiet : Quiet (closeRound : Handler (Router T) Unit) := by
  refine .bind .get fun r => .bind (.modify fun _ => rfl) fun _ => .bind .get fun r => ?_
  split
  · exact .bind (.modify fun _ => rfl) fun _ => publish_quiet
  · exact .pure _

theorem stun_quiet : Quiet (stun env now) := by
  refine .bind .get fun r => ?_
  split
  · exact .pure _
  · refine .bind closeRound_quiet fun _ => .bind (.modify fun _ => rfl) fun _ => ?_
    exact .bind .get fun r => .forM (stunRequest_quiet env now) _

variable (packet : Bytes)

theorem outbound_quiet :
    Quiet (outbound env now packet) := by
  refine .bind .get fun r => ?_
  split
  · exact .pure _
  · refine .bind (tunnel_quiet env _) fun t => .bind (.modify fun _ => rfl) fun _ => ?_
    split
    · exact send_quiet env now _ _
    · exact .pure _

theorem resume_quiet : Quiet (resume env now) := by
  refine .bind .get fun r => ?_
  split
  · exact stun_quiet env now
  · exact .pure _

theorem onStack_quiet :
    Quiet (onStack env now packet) := by
  refine .bind .get fun r => ?_
  split
  · refine .bind (.modify fun _ => rfl) fun _ => ?_
    exact .bind (resume_quiet env now) fun _ => outbound_quiet env now packet
  · exact outbound_quiet env now packet

theorem heartbeatPing_quiet (e : Public × SocketAddr) :
    Quiet (heartbeatPing env now e) := by
  refine .bind .get fun r => ?_
  split
  · exact ping_quiet env now _ _
  · exact .pure _

theorem timers_quiet : Quiet (timers env now) := by
  refine .bind (.modify fun _ => rfl) fun _ => .bind .get fun r => ?_
  refine .bind ?_ fun _ => .bind .get fun r => .bind .get fun r => ?_
  · exact .bind .get fun r => .bind (.modify fun _ => rfl) fun _ =>
      .forM (fun e => send_quiet env now _ _) _
  · refine .bind (.modify fun _ => rfl) fun _ => ?_
    refine .bind (.forM (heartbeatPing_quiet env now) _) fun _ => ?_
    exact .bind (.forM (fun key => discover_quiet env now key false) _) fun _ =>
      .modify fun _ => rfl

theorem derpResult_quiet (now region : Nat) (connected : Bool) :
    Quiet (derpResult now region connected : Handler (Router T) Unit) := by
  refine .modify fun r => ?_
  split
  · rfl
  · rfl

theorem onLink_quiet (now region : Nat) (link : Option Nat) :
    Quiet (onLink env now region link) := by
  refine .bind (derpResult_quiet now region _) fun _ => .bind .get fun r => ?_
  refine .bind (.modify fun _ => rfl) fun _ => ?_
  cases link with
  | none => exact .pure _
  | some link =>
    dsimp only
    split
    · refine .bind (.forM (fun e => ?_) _) fun _ => .modify fun _ => rfl
      exact .bind (offer_quiet env _ _) fun _ => .pure _
    · exact .modify fun _ => rfl

theorem connectHome_quiet : Quiet (connectHome : Handler (Router T) Unit) := by
  exact .bind .get fun r => .bind (.modify fun _ => rfl) fun _ => connect_quiet _

theorem homeCheck_quiet : Quiet (homeCheck now : Handler (Router T) Unit) := by
  refine .bind .get fun r => ?_
  split
  · exact .bind connectHome_quiet fun _ => .modify fun _ => rfl
  · exact .modify fun _ => rfl

theorem networkChanged_quiet : Quiet (networkChanged env now) := by
  refine .bind (.modify fun _ => rfl) fun _ => .bind publish_quiet fun _ => ?_
  refine .bind (stun_quiet env now) fun _ => .bind .get fun r => ?_
  split
  · exact connectHome_quiet
  · exact .pure _

/-! ## STUN responses -/

/-- A response that was read is handled without touching the netstack; one that
panics in the reader brings the handler down. -/
theorem stunResponse_eq :
    (∃ found, Stun.response packet = .ok found ∧
      Quiet (stunResponse packet : Handler (Router T) Unit)) ∨
    ∃ p, Stun.response packet = .error p ∧
      ∀ r : Router T, stunResponse packet r = .error p := by
  cases hresp : Stun.response packet with
  | error p =>
    refine .inr ⟨p, rfl, fun r => ?_⟩
    unfold stunResponse
    rw [hresp]
    rfl
  | ok found =>
    refine .inl ⟨found, rfl, ?_⟩
    unfold stunResponse
    rw [hresp]
    refine .bind (.pure found) fun found => ?_
    cases found with
    | none => exact .pure _
    | some found =>
      refine .bind .get fun r => .bind (.modify fun _ => rfl) fun _ => ?_
      split
      · exact .pure _
      · refine .bind (.modify fun _ => rfl) fun _ => .bind .get fun r => ?_
        split
        · exact .bind (.modify fun _ => rfl) fun _ => publish_quiet
        · exact .pure _

/-! ## WireGuard datagrams -/

/-- The tunnel of a peer, or the one it would get. -/
def tunnelOf (r : Router T) (peer : Public) : T :=
  (r.tunnels.lookup peer).getD (env.tun.new peer ((r.nextIndex + 1) % 2 ^ 24))

theorem tunnel_eq (r : Router T) (peer : Public) :
    ∃ r', tunnel env peer r = .ok (tunnelOf env r peer, r') ∧
      r'.netstackSide = r.netstackSide := by
  obtain ⟨t, r', hrun, hside⟩ := tunnel_quiet env peer r
  refine ⟨r', ?_, hside⟩
  rw [hrun]
  have hval : t = tunnelOf env r peer := by
    obtain ⟨r₁, r₂, hget, hrest⟩ := Handler.bind_inv hrun
    obtain ⟨rfl, rfl⟩ := Prod.mk.inj (Except.ok.inj hget)
    unfold tunnelOf
    cases hlook : r.tunnels.lookup peer with
    | some u =>
      rw [hlook] at hrest
      exact (Prod.mk.inj (Except.ok.inj hrest)).1.symm
    | none =>
      rw [hlook] at hrest
      exact (Prod.mk.inj (Except.ok.inj hrest)).1.symm
  rw [hval]

/-- The packet a datagram from `peer` decrypts to, for a peer of the map. -/
def decrypts (r : Router T) (peer : Public) (datagram : Bytes) :
    Option Bytes :=
  if r.routes.peers.lookup peer = none then none
  else (decapsulated env (tunnelOf env r peer) datagram).stack

/-- `deliver` hands the packet over when there is room. -/
theorem deliver_eq (peer : Public) (packet : Bytes) (r : Router T) :
    ∃ r', deliver peer packet r = .ok ((), r') ∧
      r'.netstackSide = r.netstackSide.push (some ⟨peer, packet, r.routes⟩) := by
  refine ⟨_, rfl, ?_⟩
  unfold NetstackSide.push stackTakes netstackSide
  dsimp only
  split
  · rfl
  · rfl

/-- **What a WireGuard datagram brings to the netstack**: the packet it decrypts
to. The packet's source address plays no part. -/
theorem wireguard_eq (peer : Public) (datagram : Bytes) (r : Router T) :
    ∃ r', wireguard env now peer datagram r = .ok ((), r') ∧
      r'.netstackSide = r.netstackSide.push
        ((decrypts env r peer datagram).map fun packet => ⟨peer, packet, r.routes⟩) := by
  unfold wireguard decrypts
  rw [Handler.bind_ok (t := r) (a := r) rfl]
  by_cases hknown : r.routes.peers.lookup peer = none
  · rw [if_pos hknown, if_pos hknown]
    exact ⟨r, rfl, rfl⟩
  · rw [if_neg hknown, if_neg hknown]
    obtain ⟨r₁, htun, hside₁⟩ := tunnel_eq env r peer
    rw [Handler.bind_ok htun]
    generalize decapsulated env (tunnelOf env r peer) datagram = out
    set r₂ : Router T := { r₁ with tunnels := r₁.tunnels.insert peer out.tunnel } with hr₂
    have hside₂ : r₂.netstackSide = r.netstackSide := hside₁
    rw [Handler.bind_ok (t := r₂) (a := ()) rfl]
    obtain ⟨u, r₃, hsend, hside₃⟩ := Quiet.forM (send_quiet env now peer) out.network r₂
    rw [Handler.bind_ok hsend]
    have hside : r₃.netstackSide = r.netstackSide := hside₃.trans hside₂
    cases out.stack with
    | none => exact ⟨r₃, rfl, hside⟩
    | some packet =>
      obtain ⟨r₄, hdel, hside₄⟩ := deliver_eq peer packet r₃
      have hroutes : r₃.routes = r.routes := congrArg NetstackSide.routes hside
      refine ⟨r₄, Handler.bind_ok hdel, ?_⟩
      rw [hside₄, hside, hroutes]
      rfl

/-! ## One event -/

/-- The packet an event decrypts, with the peer whose tunnel it came through. -/
def plaintext (r : Router T) : Event → Option Delivery
  | .derp peer packet =>
    if Disco.isDisco packet then none
    else (decrypts env r peer packet).map fun p => ⟨peer, p, r.routes⟩
  | .udp src packet =>
    if Stun.isStun packet = .ok true ∨ Disco.isDisco packet then none
    else (r.byAddr.lookup src).bind fun peer =>
      (decrypts env r peer packet).map fun p => ⟨peer, p, r.routes⟩
  | _ => none

/-- A datagram that is not a STUN response with cut-off padding is handled, and
hands over what it decrypts to. -/
theorem onUdp_eq (src : SocketAddr) {packet : Bytes} (h : ¬ Stun.CutShort packet) (r : Router T) :
    ∃ r', onUdp env now src packet r = .ok ((), r') ∧
      r'.netstackSide = r.netstackSide.push (plaintext env r (.udp src packet)) := by
  obtain ⟨b, hb⟩ := Stun.isStun_returns packet
  unfold onUdp
  rw [plaintext, hb, Handler.bind_ok (t := r) (a := b) rfl]
  cases b with
  | true =>
    rcases stunResponse_eq (T := T) packet with ⟨-, -, hquiet⟩ | ⟨p, hp, -⟩
    · exact hquiet.push_none r
    · exact absurd ((Stun.response_panics_iff packet).mp (by rw [hp]; simp)) h
  | false =>
    rw [if_neg Bool.false_ne_true]
    by_cases hdisco : Disco.isDisco packet = true
    · rw [if_pos hdisco, if_pos (.inr hdisco)]
      exact (handleDisco_quiet env now _ packet).push_none r
    · rw [if_neg hdisco, if_neg (by simp [hdisco]), Handler.bind_ok (t := r) (a := r) rfl]
      cases r.byAddr.lookup src with
      | none => exact ⟨r, rfl, rfl⟩
      | some peer => exact wireguard_eq env now peer packet r

/-- **The router handles a UDP datagram exactly when it is not a STUN response
with cut-off padding**, from every state and whoever sent it. -/
theorem onUdp_returns_iff (src : SocketAddr) (packet : Bytes)
    (r : Router T) :
    (onUdp env now src packet r).Returns ↔ ¬ Stun.CutShort packet := by
  constructor
  · rintro ⟨⟨u, r'⟩, hrun⟩ hcut
    unfold onUdp at hrun
    rw [hcut.toWalked.isStun, Handler.bind_ok (t := r) (a := true) rfl, if_pos rfl] at hrun
    rcases stunResponse_eq (T := T) packet with ⟨found, hfound, -⟩ | ⟨p, -, hp⟩
    · exact (Stun.response_panics_iff packet).mpr hcut ⟨found, hfound⟩
    · rw [hp r] at hrun
      cases hrun
  · intro h
    obtain ⟨r', hrun, -⟩ := onUdp_eq env now src h r
    exact ⟨_, hrun⟩

theorem onDerp_eq (peer : Public) (packet : Bytes) (r : Router T) :
    ∃ r', onDerp env now peer packet r = .ok ((), r') ∧
      r'.netstackSide = r.netstackSide.push (plaintext env r (.derp peer packet)) := by
  unfold onDerp
  rw [plaintext]
  by_cases hdisco : Disco.isDisco packet = true
  · rw [if_pos hdisco, if_pos hdisco]
    exact (handleDisco_quiet env now _ packet).push_none r
  · rw [if_neg hdisco, if_neg hdisco]
    exact wireguard_eq env now peer packet r

variable {r r' : Router T}

/-- What handing over a packet adds to the deliveries. -/
theorem delivered_of_push {d : Option Delivery}
    (h : r'.netstackSide = r.netstackSide.push d) :
    r'.delivered = r.delivered ++ if r.stackTakes then d.toList else [] := by
  have hdel : r'.delivered = (r.netstackSide.push d).delivered :=
    congrArg NetstackSide.delivered h
  rw [hdel]
  unfold NetstackSide.push stackTakes netstackSide
  cases d with
  | none => simp
  | some d =>
    dsimp only
    split
    · rfl
    · simp

/-- **One event delivers the packet it decrypts, if there is room for it**, and
nothing else. -/
theorem step_delivered {now : Nat} {e : Event}
    (h : step env now e r = .ok ((), r')) :
    r'.delivered = r.delivered ++ if r.stackTakes then (plaintext env r e).toList else [] := by
  have of_push : (∃ r'', step env now e r = .ok ((), r'') ∧
      r''.netstackSide = r.netstackSide.push (plaintext env r e)) →
      r'.delivered = r.delivered ++ if r.stackTakes then (plaintext env r e).toList else [] := by
    rintro ⟨r'', hrun, hside⟩
    rw [hrun] at h
    obtain rfl := (Prod.mk.inj (Except.ok.inj h)).2
    exact delivered_of_push hside
  cases e with
  | udp src packet =>
    exact of_push (onUdp_eq env now src ((onUdp_returns_iff env now src packet r).mp ⟨_, h⟩) r)
  | derp peer packet => exact of_push (onDerp_eq env now peer packet r)
  | link region link => exact of_push ((onLink_quiet env now region link).push_none r)
  | fromStack packet => exact of_push ((onStack_quiet env now packet).push_none r)
  | routesChanged =>
    refine of_push (Quiet.push_none (.bind .get fun r => ?_) r)
    split
    · exact stun_quiet env now
    · exact .pure _
  | network udp localIp =>
    refine of_push (Quiet.push_none (.bind (.modify fun _ => ?_) fun _ => ?_) r)
    · rfl
    · exact networkChanged_quiet env now
  | tick => exact of_push ((timers_quiet env now).push_none r)
  | stunTick =>
    refine of_push (Quiet.push_none (.bind .get fun r => ?_) r)
    split
    · exact stun_quiet env now
    · exact .pure _
  | homeCheck => exact of_push ((homeCheck_quiet now).push_none r)
  -- What other tasks do changes no delivery.
  | publishRoutes routes => cases h; simp [plaintext]
  | publishOpen addrs => cases h; simp [plaintext]
  | stackReads => cases h; simp [plaintext]
  | stackCloses => cases h; simp [plaintext]
  | linkCloses link => cases h; simp [plaintext]

end Router

/-! ## Cryptokey routing -/

/-- The packet's source address is routed to the peer it came from. -/
def Delivery.CryptokeyRouted (d : Delivery) : Prop :=
  ∃ source peer, srcAddress d.packet = some source ∧
    d.routes.lookup source = some peer ∧ peer.key = d.peer

/-- No gate admits the packet by an allow-list entry for another peer's address. -/
def Delivery.GateHonest (d : Delivery) : Prop :=
  ∀ (g : Gate) (a : IpAddr) (q : Peer),
    g.entryFor d.packet = some a → d.routes.lookup a = some q → q.key = d.peer

/-- The gate's allow-lists rest on cryptokey routing. -/
theorem Delivery.CryptokeyRouted.gateHonest {d : Delivery} (h : d.CryptokeyRouted) :
    d.GateHonest := by
  intro g a q hentry hq
  obtain ⟨source, peer, hsource, hpeer, hkey⟩ := h
  rw [Gate.srcAddress_of_entryFor hentry] at hsource
  obtain rfl := Option.some.inj hsource
  rw [hq] at hpeer
  obtain rfl := Option.some.inj hpeer
  exact hkey

namespace Router

variable {T : Type} (env : Env T)

/-- The peer behind an event keeps to its own addresses: the packet its datagram
decrypts to, if there is room for one, has a source routed to it. -/
def OwnSource (r : Router T) (e : Event) : Prop :=
  r.stackTakes → ∀ d, plaintext env r e = some d → d.CryptokeyRouted

/-- Every event of a run comes from a peer that keeps to its own addresses. -/
def OwnSources (r : Router T) : List (Nat × Event) → Prop
  | [] => True
  | e :: es => OwnSource env r e.2 ∧
      ∀ r', step env e.1 e.2 r = .ok ((), r') → OwnSources r' es

/-- One event adds only routed deliveries exactly when its peer keeps to its own
addresses. -/
theorem step_routed_iff {now : Nat} {e : Event} {r r' : Router T}
    (h : step env now e r = .ok ((), r')) :
    (∀ d ∈ r'.delivered, d.CryptokeyRouted) ↔
      (∀ d ∈ r.delivered, d.CryptokeyRouted) ∧ OwnSource env r e := by
  rw [step_delivered env h]
  unfold OwnSource
  by_cases htakes : r.stackTakes = true
  · simp [htakes, or_imp, forall_and]
  · simp [htakes]

/-- The run lemma, from any start: the induction is on the events. -/
theorem run_routed_iff {events : List (Nat × Event)} {r₀ r : Router T}
    (h : run env events r₀ = .ok ((), r)) :
    (∀ d ∈ r.delivered, d.CryptokeyRouted) ↔
      (∀ d ∈ r₀.delivered, d.CryptokeyRouted) ∧ OwnSources env r₀ events := by
  induction events generalizing r₀ with
  | nil =>
    cases h
    simp [OwnSources]
  | cons e es ih =>
    obtain ⟨u, r₁, hfirst, hrest⟩ := Handler.bind_inv h
    have hstep : step env e.1 e.2 r₀ = .ok ((), r₁) := hfirst
    rw [ih hrest, step_routed_iff env hstep, and_assoc]
    refine and_congr_right fun _ => and_congr_right fun _ => ?_
    constructor
    · intro hrun r' hr'
      rw [hstep] at hr'
      obtain rfl := (Prod.mk.inj (Except.ok.inj hr')).2
      exact hrun
    · intro hrun
      exact hrun r₁ hstep

/-- **Inbound cryptokey routing holds of a run exactly when the peers keep to
their own addresses**: the router itself never compares a decrypted packet's
source with the peer it came from. -/
theorem run_cryptokeyRouted_iff {events : List (Nat × Event)} {r₀ r : Router T}
    (h₀ : r₀.delivered = []) (h : run env events r₀ = .ok ((), r)) :
    (∀ d ∈ r.delivered, d.CryptokeyRouted ∧ d.GateHonest) ↔ OwnSources env r₀ events := by
  have hroute := run_routed_iff env h
  rw [h₀] at hroute
  constructor
  · intro hall
    exact (hroute.mp fun d hd => (hall d hd).1).2
  · intro hown d hd
    have hd' := hroute.mpr ⟨fun _ hmem => (nomatch hmem), hown⟩ d hd
    exact ⟨hd', hd'.gateHonest⟩

/-! ### A spoofed packet

A tailnet of two peers, and a `serve` port that only the phone may reach. The
laptop sends a SYN with the phone's address as its source. -/

/-- A peer with one tailnet address. -/
def peerNode (id : Nat) (addr : BitVec 32) : Node where
  id := id
  name := []
  key := BitVec.ofNat 256 id
  discoKey := 0
  addresses := [.v4 ⟨addr, 32, le_rfl⟩]
  allowedIps := none
  endpoints := []
  homeDerp := 0
  legacyDerp := []
  expired := false
  computedName := []

/-- The laptop is 100.64.0.2, the phone 100.64.0.9. -/
def tailnet : NetMap where
  me := none
  peers := [peerNode 1 0x64400002, peerNode 2 0x64400009]
  derp := []
  sorted := by decide

def tailnetRoutes : Routes := tailnet.routes ⟨false, none, []⟩ 0

theorem tailnetRoutes_table : tailnetRoutes.table =
    [(.v4 ⟨0x64400002, 32, le_rfl⟩, NetMap.peerOf (peerNode 1 0x64400002)),
      (.v4 ⟨0x64400009, 32, le_rfl⟩, NetMap.peerOf (peerNode 2 0x64400009))] :=
  mergeSort_of_pairwise (by decide)

/-- `serve` on port 47821 for the phone's address. -/
def phoneOnly : Gate := tailnet.gate [⟨47821, some ["100.64.0.9".toList]⟩]

theorem phoneOnly_lookup : phoneOnly.ports.lookup 47821 = some (some [.v4 0x64400009]) := by
  have hallow : (["100.64.0.9".toList].flatMap tailnet.allowedBy) = [.v4 0x64400009] := by
    decide
  unfold phoneOnly NetMap.gate
  simp only [foldl_cons, foldl_nil, Option.map_some, hallow,
    mergeSort_singleton, destutter_singleton, AList.lookup_insert]

/-- A TCP SYN to port 47821 of 100.64.0.1, from 100.64.0.`host`. -/
def syn (host : UInt8) : Bytes :=
  [0x45, 0, 0, 40, 0, 0, 0, 0, 64, 6, 0, 0, 100, 64, 0, host, 100, 64, 0, 1,
    0xc0, 0, 0xba, 0xcd, 0, 0, 0, 0, 0, 0, 0, 0, 0x50, 2, 0, 0, 0, 0, 0, 0]

/-- A tunnel that carries its packets in the clear. -/
def clearTunnel : Boringtun Unit where
  new _ _ := ()
  decapsulate _ datagram :=
    ((), match srcAddress datagram with
      | some source => .writeToTunnel datagram source
      | none => .done)
  encapsulate _ packet := ((), .writeToNetwork packet)
  updateTimers _ := ((), .done)
  pending _ := 0
  pending_lt h := nomatch h

def clearEnv : Env Unit where
  key := 3
  tun := clearTunnel
  unbox _ _ := none
  random _ := []
  takes _ := true

/-- The router of the tailnet before its first event. -/
def fresh : Router Unit := init tailnetRoutes none none 0

/-- A SYN from the laptop's tunnel is delivered, whatever its source. -/
theorem plaintext_syn (host : UInt8) :
    plaintext clearEnv fresh (.derp 1 (syn host)) = some ⟨1, syn host, tailnetRoutes⟩ := rfl

/-- The run of that one event. -/
theorem run_syn (host : UInt8) :
    ∃ r, run clearEnv [(0, .derp 1 (syn host))] fresh = .ok ((), r) ∧
      r.delivered = [⟨1, syn host, tailnetRoutes⟩] := by
  obtain ⟨r, hrun, hside⟩ := onDerp_eq clearEnv 0 1 (syn host) fresh
  refine ⟨r, Handler.bind_ok hrun, ?_⟩
  rw [delivered_of_push hside, plaintext_syn]
  rfl

/-- The laptop's packet with the phone's source address passes the phone's gate. -/
theorem run_spoofed_source :
    ∃ r d, run clearEnv [(0, .derp 1 (syn 9))] fresh = .ok ((), r) ∧ d ∈ r.delivered ∧
      ¬ d.CryptokeyRouted ∧ ¬ d.GateHonest ∧ phoneOnly.admits d.packet = .ok .pass := by
  obtain ⟨r, hrun, hdel⟩ := run_syn 9
  have hlookup : tailnetRoutes.lookup (.v4 0x64400009) =
      some (NetMap.peerOf (peerNode 2 0x64400009)) := by
    unfold Routes.lookup
    rw [tailnetRoutes_table]
    decide
  have hrestricted : phoneOnly.restricted (syn 9) =
      some (.v4 0x64400009, [.v4 0x64400009]) := by
    have hlook : lookAt (syn 9) = .ok (.tcp (.v4 0x64400009) (some ((syn 9).drop 20))) := rfl
    have hport : Gate.segmentPort ((syn 9).drop 20) = .ok 47821 := rfl
    unfold Gate.restricted
    rw [hlook]
    dsimp only
    rw [if_pos (by decide), hport]
    dsimp only
    rw [phoneOnly_lookup]
  have hentry : phoneOnly.entryFor (syn 9) = some (.v4 0x64400009) := by
    unfold Gate.entryFor
    rw [hrestricted]
    decide
  have hgate : ¬ Delivery.GateHonest ⟨1, syn 9, tailnetRoutes⟩ := by
    intro h
    exact absurd (h phoneOnly _ _ hentry hlookup) (by decide)
  refine ⟨r, ⟨1, syn 9, tailnetRoutes⟩, hrun, by simp [hdel], ?_, hgate, ?_⟩
  · exact fun h => hgate h.gateHonest
  · exact (Gate.admits_pass_of_restricted hrestricted).mpr hentry

/-- With its own source address the laptop's packet is delivered and routed. -/
theorem run_own_source :
    ∃ r, run clearEnv [(0, .derp 1 (syn 2))] fresh = .ok ((), r) ∧ r.delivered ≠ [] ∧
      ∀ d ∈ r.delivered, d.CryptokeyRouted ∧ d.GateHonest := by
  obtain ⟨r, hrun, hdel⟩ := run_syn 2
  refine ⟨r, hrun, by simp [hdel], ?_⟩
  refine (run_cryptokeyRouted_iff clearEnv rfl hrun).mpr ⟨?_, fun _ _ => trivial⟩
  intro _ d hd
  rw [plaintext_syn] at hd
  obtain rfl := Option.some.inj hd
  refine ⟨.v4 0x64400002, NetMap.peerOf (peerNode 1 0x64400002), by decide, ?_, by decide⟩
  unfold Routes.lookup
  rw [tailnetRoutes_table]
  decide

/-! ## STUN datagrams -/

/-- **Handling a datagram as STUN**: reading it and the router's whole handling
of it return exactly when it is not a binding response whose last attribute's
padding is cut off. -/
theorem stunDatagram_returns_iff (now : Nat) (src : SocketAddr) (packet : Bytes) (r : Router T) :
    ((Stun.response packet).Returns ∧ (onUdp env now src packet r).Returns) ↔
      ¬ Stun.CutShort packet := by
  rw [onUdp_returns_iff, ← Stun.response_panics_iff, not_not, and_self]

/-- A SOFTWARE attribute without its padding brings the router down. -/
theorem unpaddedResponse_panics :
    ¬ (Stun.response Stun.unpaddedResponse).Returns ∧
      ¬ (onUdp clearEnv 0 ⟨.v4 0x0a000001, 3478⟩ Stun.unpaddedResponse fresh).Returns := by
  constructor
  · exact (Stun.response_panics_iff _).mpr Stun.unpaddedResponse_cutShort
  · intro h
    exact (onUdp_returns_iff _ _ _ _ _).mp h Stun.unpaddedResponse_cutShort

end Router

end Clyntis.Tailscale
