import Clyntis.Lib.Handler
import Clyntis.Tailscale.Disco

/-!
# The router (`magic.rs`)

Moves IP packets between the netstack and the peers: one WireGuard tunnel per
peer, reached over a direct UDP path when disco finds one and through the peer's
home DERP region otherwise. The model is the router's event loop as a state
machine:

- `Router`: the state, with what the router handed to the netstack (`delivered`)
  and to the network (`sent`) on record;
- the methods of the source, as handlers on that state that may panic;
- `Event`, `Router.step`: one branch of the `select!` in `run`, or a change the
  tasks around the router make to what it shares with them;
- `Router.run`: the event loop over a list of timed events.

The WireGuard implementation (`Boringtun`), the disco box (`Unbox`), the random
generator and the answers of sockets and links to a send are parameters (`Env`).
The clock is read once per event, in nanoseconds, and a published route table is
seen from the next event on. The status snapshot (`paths`, `ticks`) is left out:
the router never reads it.
-/

namespace Clyntis.Tailscale

open Lib Net
open Stun (Tx)
open Disco (Message Unbox)

/-- `TunnResult`. -/
inductive TunnResult where
  | done
  | err
  | writeToNetwork (data : Bytes)
  /-- the plaintext packet, and the source address boringtun read in it -/
  | writeToTunnel (data : Bytes) (source : IpAddr)
  deriving DecidableEq, Repr

/-- The WireGuard implementation, with one state `T` per peer. A call without
input releases one queued packet; `pending` bounds how many such calls in a row
still have something to send. -/
structure Boringtun (T : Type) where
  new : (peer : Public) → (index : Nat) → T
  decapsulate : T → Bytes → T × TunnResult
  encapsulate : T → Bytes → T × TunnResult
  updateTimers : T → T × TunnResult
  pending : T → Nat
  pending_lt : ∀ {t t' : T} {data : Bytes},
    decapsulate t [] = (t', .writeToNetwork data) → pending t' < pending t

/-- What the router's code leaves to its environment. -/
structure Env (T : Type) where
  /-- this node's public key -/
  key : Public
  tun : Boringtun T
  unbox : Unbox
  /-- the `n`-th transaction id drawn -/
  random : Nat → Tx
  /-- whether the socket or link takes the `n`-th packet offered -/
  takes : Nat → Bool

/-! ## Constants -/

/-- A duration in milliseconds. -/
def millis (n : Nat) : Nat := n * 1000000

def pendingPerRegion : Nat := 64
def trust : Nat := millis 6500
def heartbeat : Nat := millis 3000
def linger : Nat := millis 10000
def discovery : Nat := millis 5000
def pingTimeout : Nat := millis 5000
def stunInterval : Nat := millis 23000
def stunIdle : Nat := millis 300000
def derpRetry : Nat := millis 5000
def derpRetryMax : Nat := millis 60000
def maxEndpoints : Nat := 8
def endpointLocal : UInt8 := 1
def endpointStun : UInt8 := 2
/-- DERP-relayed pongs report this as the source. -/
def derpMagicIp : IpAddr := .v4 0x7f030328
/-- Capacity of the channel to the netstack (`Node::start`). -/
def stackCapacity : Nat := 1024

/-! ## The state -/

/-- `Path`: a direct path and until when it is trusted. -/
structure Path where
  addr : SocketAddr
  rtt : Nat
  trustedUntil : Nat
  deriving DecidableEq, Repr

/-- `PeerState`. -/
structure PeerState where
  best : Option Path := none
  pings : Table Tx (SocketAddr × Nat) := ∅
  /-- candidates learned from call-me-maybe and incoming pings -/
  learned : List SocketAddr := []
  lastDiscovery : Option Nat := none
  lastHeartbeat : Option Nat := none
  lastSend : Option Nat := none

/-- `trusted`: the direct path while it is trusted. -/
def PeerState.trusted (st : PeerState) (now : Nat) : Option SocketAddr :=
  (st.best.filter fun path => decide (now < path.trustedUntil)).map Path.addr

/-- Where a packet came from, or goes to. -/
inductive Via where
  | udp (addr : SocketAddr)
  | derp (key : Public)
  deriving DecidableEq, Repr

/-- What the router hands to the network. Disco messages are kept in the clear,
with the disco key they are sealed for. -/
inductive Payload where
  | wireguard (datagram : Bytes)
  | disco (receiver : Public) (message : Message)
  | stunRequest (tx : Tx)
  deriving DecidableEq, Repr

/-- `Region`. Established links are told apart by a number. -/
inductive Region where
  | connecting (queue : List (Public × Payload))
  | up (link : Nat)
  deriving DecidableEq, Repr

/-- The UDP socket, as far as the router looks at it: its local port. -/
structure Socket where
  port : Option UInt16
  deriving DecidableEq, Repr

/-- A decrypted packet handed to the netstack: through which peer's tunnel it
came, and the route table at that moment. -/
structure Delivery where
  peer : Public
  packet : Bytes
  routes : Routes

/-- The router's state, with the loop variable `busy` of `run`. -/
structure Router (T : Type) where
  routes : Routes
  /-- peer addresses with open netstack connections -/
  openAddrs : List IpAddr := []
  regions : Table Nat Region := ∅
  /-- regions whose last connection failed: when to retry, and the wait so far -/
  derpRetryAt : Table Nat (Nat × Nat) := ∅
  tunnels : Table Public T := ∅
  states : Table Public PeerState := ∅
  byAddr : Table SocketAddr Public := ∅
  nextIndex : Nat := 0
  udp : Option Socket := none
  localIp : Option IpAddr := none
  stunPending : Table Tx Nat := ∅
  lastStun : Option Nat := none
  stunAddrs : List SocketAddr := []
  stunRound : List SocketAddr := []
  endpoints : List (SocketAddr × UInt8) := []
  busy : Bool := true
  /-- packets waiting in the channel to the netstack -/
  stackLoad : Nat := 0
  /-- the netstack has dropped its end of the channel -/
  stackClosed : Bool := false
  /-- links whose connection has ended -/
  closedLinks : List Nat := []
  delivered : List Delivery := []
  sent : List (Via × Payload) := []
  /-- connection attempts started, with the DERP node found for the region -/
  connects : List (Nat × Option DerpNode) := []
  /-- transaction ids drawn, and packets offered to a socket or link, so far -/
  drawn : Nat := 0
  offered : Nat := 0

namespace Router

variable {T : Type} (env : Env T)

/-! ## Sending -/

variable (r : Router T) (now : Nat)

/-- The state of a peer (`entry(..).or_default()`). -/
def peerState (key : Public) : PeerState :=
  (r.states.lookup key).getD {}

/-- Changes the state of a peer, creating it on first use. -/
def updatePeer (key : Public) (f : PeerState → PeerState) : Handler (Router T) Unit :=
  modify fun r => { r with states := r.states.insert key (f (r.peerState key)) }

/-- Offers a packet to a socket or link; whether it was taken. -/
def offer (via : Via) (payload : Payload) : Handler (Router T) Bool := do
  let taken := env.takes (← get).offered
  modify fun r => { r with
    offered := r.offered + 1
    sent := if taken then r.sent ++ [(via, payload)] else r.sent }
  return taken

/-- `tunnel`: makes sure the peer has a tunnel, and reads it. -/
def tunnel (peer : Public) : Handler (Router T) T := do
  match (← get).tunnels.lookup peer with
  | some t => return t
  | none =>
    let index := ((← get).nextIndex + 1) % 2 ^ 24
    let t := env.tun.new peer index
    modify fun r => { r with nextIndex := index, tunnels := r.tunnels.insert peer t }
    return t

/-- `send_udp`: whether the socket took the packet. -/
def sendUdp (addr : SocketAddr) (payload : Payload) : Handler (Router T) Bool := do
  if (← get).udp.isSome then offer env (.udp addr) payload else return false

/-- `connect`: starts a connection attempt to a region's first node that is not
for STUN only. Its result comes back as an event. -/
def connect (region : Nat) : Handler (Router T) Unit :=
  modify fun r =>
    let node := (r.routes.derp.find? fun d => d.regionId == region).bind fun d =>
      d.nodes.find? fun n => !n.stunOnly
    { r with connects := r.connects ++ [(region, node)] }

/-- `derp_waiting`: the region failed recently and must not be retried yet. -/
def derpWaiting (region : Nat) : Bool :=
  (r.derpRetryAt.lookup region).any fun e => decide (now < e.1)

/-- The last two cases of `send_derp`: no usable link and no attempt under way. -/
def startRegion (region : Nat) (peer : Public) (payload : Payload) :
    Handler (Router T) Unit := do
  if (← get).derpWaiting now region then return ()
  modify fun r => { r with
    regions := r.regions.insert region (.connecting [(peer, payload)]) }
  connect region

/-- `send_derp` on the peer's home region. -/
def relay (region : Nat) (peer : Public) (payload : Payload) :
    Handler (Router T) Unit := do
  match (← get).regions.lookup region with
  | some (.up link) =>
    if (← get).closedLinks.contains link then startRegion now region peer payload
    else
      let _ ← offer env (.derp peer) payload
      return ()
  | some (.connecting queue) =>
    if queue.length < pendingPerRegion then
      modify fun r => { r with
        regions := r.regions.insert region (.connecting (queue ++ [(peer, payload)])) }
  | none => startRegion now region peer payload

/-- `send_derp`: a peer without a home region is not reached. -/
def sendDerp (peer : Public) (payload : Payload) : Handler (Router T) Unit := do
  match (← get).routes.peers.lookup peer with
  | some p => if p.region ≠ 0 then relay env now p.region peer payload
  | none => return ()

/-- `send_disco`. -/
def sendDisco (peer : Peer) (via : Via) (message : Message) : Handler (Router T) Unit := do
  if peer.disco = 0 then return ()
  match via with
  | .udp addr =>
    let _ ← sendUdp env addr (.disco peer.disco message)
    return ()
  | .derp key => sendDerp env now key (.disco peer.disco message)

/-- `ping`: only IPv4 candidates with a host part, and only with a socket. -/
def ping (peer : Peer) (addr : SocketAddr) : Handler (Router T) Unit := do
  if (← get).udp.isNone || addr.ip.isIpv6 || addr.ip == .v4 0 then return ()
  let tx := env.random (← get).drawn
  modify fun r => { r with drawn := r.drawn + 1 }
  updatePeer peer.key fun st => { st with pings := st.pings.insert tx (addr, now) }
  sendDisco env now peer (.udp addr) (.ping tx (some env.key))

/-- The candidates of a discovery round: the peer's endpoints, then the learned
ones that are not among them. -/
def candidates (peer : Peer) (st : PeerState) : List SocketAddr :=
  (st.learned.foldl (fun cs addr => if cs.contains addr then cs else cs ++ [addr])
    peer.endpoints).take maxEndpoints

/-- A discovery round started less than `discovery` ago. -/
def recentlyDiscovered (st : PeerState) : Bool :=
  st.lastDiscovery.any fun t => decide (now - t < discovery)

/-- The rest of `discover`, once a round is due. -/
def discoverRound (key : Public) (peer : Peer) : Handler (Router T) Unit := do
  updatePeer key fun st => { st with lastDiscovery := some now }
  (candidates peer ((← get).peerState key)).forM (ping env now peer)
  let ours := (← get).endpoints.map Prod.fst
  if !ours.isEmpty then
    sendDisco env now peer (.derp key) (.callMeMaybe ours)

/-- `discover`: pings every candidate of a peer and asks it, through DERP, to
ping ours; at most every five seconds unless `force`. -/
def discover (key : Public) (force : Bool) : Handler (Router T) Unit := do
  if (← get).udp.isNone then return ()
  match (← get).routes.peers.lookup key with
  | none => return ()
  | some peer =>
    updatePeer key id
    if !force && recentlyDiscovered now ((← get).peerState key) then return ()
    discoverRound env now key peer

/-- Sends to an address if there is one; whether the packet was taken. -/
def sendUdpTo (addr : Option SocketAddr) (payload : Payload) : Handler (Router T) Bool :=
  match addr with
  | some addr => sendUdp env addr payload
  | none => return false

/-- `send`: a WireGuard datagram over the trusted direct path, or DERP while
discovery looks for one. -/
def send (peer : Public) (datagram : Bytes) : Handler (Router T) Unit := do
  updatePeer peer fun st => { st with lastSend := some now }
  let st := (← get).peerState peer
  if ← sendUdpTo env (st.trusted now) (.wireguard datagram) then return ()
  -- An untrusted best path may still work; send there too.
  let _ ← sendUdpTo env (st.best.map Path.addr) (.wireguard datagram)
  discover env now peer false
  sendDerp env now peer (.wireguard datagram)

/-! ## Disco -/

/-- Adds an address to the learned candidates, once. -/
def learn (addr : SocketAddr) (st : PeerState) : PeerState :=
  if st.learned.contains addr then st else { st with learned := st.learned ++ [addr] }

/-- Whether a pong for `addr` replaces the best path. -/
def better (now rtt : Nat) (addr : SocketAddr) (best : Option Path) : Bool :=
  best.all fun b =>
    b.addr == addr || decide (b.trustedUntil ≤ now) || decide (rtt + millis 5 < b.rtt)

/-- The `Ping` case of `handle_disco`. -/
def handlePing (via : Via) (peer : Peer) (tx : Tx) : Handler (Router T) Unit := do
  match via with
  | .udp addr =>
    sendDisco env now peer via (.pong tx addr)
    modify fun r => { r with byAddr := r.byAddr.insert addr peer.key }
    updatePeer peer.key (learn addr)
    -- They reached us: confirm the path in our direction too.
    if (((← get).peerState peer.key).trusted now).isNone then ping env now peer addr
  | .derp _ =>
    let home := UInt16.ofNat (← get).routes.home
    sendDisco env now peer via (.pong tx ⟨derpMagicIp, home⟩)

/-- A pong that answers the ping we sent to `addr` at `sentAt`. -/
def confirm (peer : Peer) (addr : SocketAddr) (sentAt : Nat) : Handler (Router T) Unit := do
  let rtt := now - sentAt
  if better now rtt addr ((← get).peerState peer.key).best then
    updatePeer peer.key fun st => { st with best := some ⟨addr, rtt, now + trust⟩ }
    modify fun r => { r with byAddr := r.byAddr.insert addr peer.key }

/-- The `Pong` case of `handle_disco`. Over UDP the pong has to come from the
address that was pinged. -/
def handlePong (via : Via) (peer : Peer) (tx : Tx) : Handler (Router T) Unit := do
  match ((← get).states.lookup peer.key).bind fun st => st.pings.lookup tx with
  | none => return ()
  | some (addr, sentAt) =>
    updatePeer peer.key fun st => { st with pings := st.pings.erase tx }
    match via with
    | .udp source => if source = addr then confirm now peer addr sentAt
    | .derp _ => confirm now peer addr sentAt

/-- The `CallMeMaybe` case of `handle_disco`. -/
def handleCallMeMaybe (peer : Peer) (endpoints : List SocketAddr) : Handler (Router T) Unit := do
  updatePeer peer.key fun st =>
    let st := endpoints.foldl (fun st addr => learn addr st) st
    { st with learned := st.learned.take (maxEndpoints * 2) }
  (endpoints.take maxEndpoints).forM (ping env now peer)

/-- `handle_disco`. -/
def handleDisco (via : Via) (packet : Bytes) : Handler (Router T) Unit := do
  match Disco.openPacket env.unbox packet with
  | none => return ()
  | some (sender, message) =>
    match (← get).routes.peers.values.find? fun p => p.disco == sender with
    | none => return ()
    | some peer =>
      match message with
      | .ping tx _ => handlePing env now via peer tx
      | .pong tx _ => handlePong now via peer tx
      | .callMeMaybe endpoints => handleCallMeMaybe env now peer endpoints

/-! ## WireGuard -/

/-- What a tunnel made of a datagram: datagrams for the network, and at most one
packet for the netstack. -/
structure Decapsulated (T : Type) where
  tunnel : T
  network : List Bytes
  stack : Option Bytes

/-- The rounds of the `decapsulate` loop that have no input. -/
def release (t : T) : Decapsulated T :=
  match _h : env.tun.decapsulate t [] with
  | (t', .writeToNetwork data) =>
    let rest := release t'
    { rest with network := data :: rest.network }
  | (t', .writeToTunnel data _) => ⟨t', [], some data⟩
  | (t', .err) => ⟨t', [], none⟩
  | (t', .done) => ⟨t', [], none⟩
termination_by env.tun.pending t
decreasing_by exact env.tun.pending_lt _h

/-- The `decapsulate` loop: the datagram, then what its handling releases. The
source address boringtun reports is not looked at. -/
def decapsulated (t : T) (datagram : Bytes) : Decapsulated T :=
  match env.tun.decapsulate t datagram with
  | (t', .writeToNetwork data) =>
    let rest := release env t'
    { rest with network := data :: rest.network }
  | (t', .writeToTunnel data _) => ⟨t', [], some data⟩
  | (t', .err) => ⟨t', [], none⟩
  | (t', .done) => ⟨t', [], none⟩

/-- There is room in the channel to the netstack, and someone to read it. -/
def stackTakes : Bool := !r.stackClosed && decide (r.stackLoad < stackCapacity)

/-- `to_stack.try_send(packet)`: a packet that finds no room is dropped. -/
def deliver (peer : Public) (packet : Bytes) : Handler (Router T) Unit :=
  modify fun r =>
    if r.stackTakes then
      { r with
        stackLoad := r.stackLoad + 1
        delivered := r.delivered ++ [⟨peer, packet, r.routes⟩] }
    else r

/-- `wireguard`: feeds a datagram from `peer` into its tunnel. -/
def wireguard (peer : Public) (datagram : Bytes) : Handler (Router T) Unit := do
  if (← get).routes.peers.lookup peer = none then return ()
  let out := decapsulated env (← tunnel env peer) datagram
  modify fun r => { r with tunnels := r.tunnels.insert peer out.tunnel }
  out.network.forM (send env now peer)
  out.stack.toList.forM (deliver peer)

/-- `on_derp`. -/
def onDerp (peer : Public) (packet : Bytes) : Handler (Router T) Unit :=
  if Disco.isDisco packet then handleDisco env now (.derp peer) packet
  else wireguard env now peer packet

/-! ## STUN and our endpoints -/

/-- `publish`: the STUN-mapped addresses, and the LAN address if it is not among
them. -/
def publish : Handler (Router T) Unit :=
  modify fun r =>
    let mapped := r.stunAddrs.map fun a => (a, endpointStun)
    let lan := match r.localIp, r.udp.bind Socket.port with
      | some ip, some port =>
        if r.stunAddrs.contains ⟨ip, port⟩ then [] else [(⟨ip, port⟩, endpointLocal)]
      | _, _ => []
    { r with endpoints := mapped ++ lan }

/-- `stun_response`. -/
def stunResponse (packet : Bytes) : Handler (Router T) Unit := do
  match ← StateT.lift (Stun.response packet) with
  | none => return ()
  | some (tx, mapped) =>
    let expected := ((← get).stunPending.lookup tx).isSome
    modify fun r => { r with stunPending := r.stunPending.erase tx }
    if !expected || !mapped.ip.isIpv4 then return ()
    modify fun r => { r with
      stunRound := if r.stunRound.contains mapped then r.stunRound
        else r.stunRound ++ [mapped] }
    -- The first answer is published at once; later rounds when they end.
    if (← get).stunAddrs.isEmpty then
      modify fun r => { r with stunAddrs := r.stunRound }
      publish

/-- The order of `SocketAddr`. -/
def socketLe (a b : SocketAddr) : Bool :=
  if a.ip = b.ip then decide (a.port ≤ b.port) else NetMap.addrLe a.ip b.ip

/-- The STUN server of a DERP node. -/
def stunServer (node : DerpNode) : Option SocketAddr :=
  if node.stunPort < 0 then none
  else
    let port := if node.stunPort = 0 then 3478 else UInt16.ofNat (node.stunPort.toNat % 2 ^ 16)
    match IpAddr.parse node.ipv4 with
    | some (.v4 ip) => some ⟨.v4 ip, port⟩
    | _ => none

/-- The servers of a list of regions, up to the region that brings them to three. -/
def stunServers : List DerpRegion → List SocketAddr → List SocketAddr
  | [], servers => servers
  | region :: regions, servers =>
    let servers := (region.nodes.filterMap stunServer).foldl
      (fun ss addr => if ss.contains addr then ss else ss ++ [addr]) servers
    if 3 ≤ servers.length then servers else stunServers regions servers

/-- Sends one STUN request. -/
def stunRequest (server : SocketAddr) : Handler (Router T) Unit := do
  let tx := env.random (← get).drawn
  modify fun r => { r with drawn := r.drawn + 1 }
  if ← offer env (.udp server) (.stunRequest tx) then
    modify fun r => { r with stunPending := r.stunPending.insert tx now }

/-- Closes the previous round: its addresses are published if they changed. -/
def closeRound : Handler (Router T) Unit := do
  let round := (← get).stunRound.mergeSort socketLe
  modify fun r => { r with stunRound := [] }
  if !round.isEmpty && round != (← get).stunAddrs.mergeSort socketLe then
    modify fun r => { r with stunAddrs := round }
    publish

/-- `stun`: asks the home region's STUN servers, then others, for our address. -/
def stun : Handler (Router T) Unit := do
  if (← get).udp.isNone then return ()
  closeRound
  modify fun r => { r with
    lastStun := some now
    stunPending := r.stunPending.retain fun _ sentAt => decide (now - sentAt < pingTimeout) }
  let routes := (← get).routes
  let preferred := routes.derp.filter fun d => d.regionId == routes.home
  ((stunServers (preferred ++ routes.derp) []).take 3).forM (stunRequest env now)

/-- `on_udp`. -/
def onUdp (src : SocketAddr) (packet : Bytes) : Handler (Router T) Unit := do
  if ← StateT.lift (Stun.isStun packet) then stunResponse packet
  else if Disco.isDisco packet then handleDisco env now (.udp src) packet
  else
    match (← get).byAddr.lookup src with
    | some peer => wireguard env now peer packet
    | none => return ()

/-! ## Outbound packets and timers -/

/-- `Tunn::dst_address`: the destination of an IP packet. -/
def dstAddress (packet : Bytes) : Option IpAddr :=
  match packet.head?.map fun b : UInt8 => b >>> 4 with
  | some 4 => if 20 ≤ packet.length then some (.ofOctets4 ((packet.drop 16).take 4)) else none
  | some 6 => if 40 ≤ packet.length then some (.ofOctets16 ((packet.drop 24).take 16)) else none
  | _ => none

/-- `outbound`: encrypts a packet for the peer that routes its destination. -/
def outbound (packet : Bytes) : Handler (Router T) Unit := do
  match (dstAddress packet).bind (← get).routes.lookup with
  | none => return ()
  | some peer =>
    let (t, result) := env.tun.encapsulate (← tunnel env peer.key) packet
    modify fun r => { r with tunnels := r.tunnels.insert peer.key t }
    match result with
    | .writeToNetwork datagram => send env now peer.key datagram
    | _ => return ()

/-- `in_use`: peers with an open connection, or sent to within `linger`. -/
def inUse : List Public :=
  let opened := r.openAddrs.filterMap fun ip => (r.routes.lookup ip).map Peer.key
  r.states.entries.foldl (fun keys e =>
    if (e.2.lastSend.any fun t => decide (now - t < linger)) && !keys.contains e.1
    then keys ++ [e.1] else keys) opened

/-- `resume`: refreshes our endpoints if the idle STUN rounds left them stale. -/
def resume : Handler (Router T) Unit := do
  if (← get).lastStun.all fun t => decide (stunInterval ≤ now - t) then stun env now

/-- Drops what belongs to peers that left the map. -/
def forgetUnknown : Handler (Router T) Unit :=
  modify fun r =>
    let known := fun key => (r.routes.peers.lookup key).isSome
    { r with
      tunnels := r.tunnels.retain fun key _ => known key
      states := r.states.retain fun key _ => known key
      byAddr := r.byAddr.retain fun _ key => known key }

/-- The WireGuard timers of every tunnel, and what they send. -/
def updateTimers : Handler (Router T) Unit := do
  let out := (← get).tunnels.entries.filterMap fun e =>
    match (env.tun.updateTimers e.2).2 with
    | .writeToNetwork data => some (e.1, data)
    | _ => none
  modify fun r => { r with
    tunnels := r.tunnels.mapValues fun _ t => (env.tun.updateTimers t).1 }
  out.forM fun e => send env now e.1 e.2

/-- A heartbeat is due on the peer's best path. -/
def heartbeatDue (st : PeerState) : Bool :=
  st.best.isSome && st.lastHeartbeat.all fun t => decide (heartbeat ≤ now - t)

/-- One peer's turn in the loop over the states: old pings time out, and the
heartbeat of a peer in use is noted. -/
def refresh (used : List Public) (key : Public) (st : PeerState) : PeerState :=
  let st := { st with
    pings := st.pings.retain fun _ p => decide (now - p.2 < pingTimeout) }
  if used.contains key && heartbeatDue now st then { st with lastHeartbeat := some now }
  else st

/-- The paths to ping in this round. -/
def heartbeats (used : List Public) : List (Public × SocketAddr) :=
  r.states.entries.filterMap fun e =>
    if used.contains e.1 && heartbeatDue now e.2 then e.2.best.map fun p => (e.1, p.addr)
    else none

/-- The peers in use to rediscover in this round: those without a path, and
those whose heartbeat is due on a path no longer trusted. -/
def rediscoveries (used : List Public) : List Public :=
  (r.states.entries.filter fun e =>
    used.contains e.1 &&
      (e.2.best.isNone || heartbeatDue now e.2 && (e.2.trusted now).isNone)).map Sigma.fst

/-- Pings the best path of a peer that is still in the map. -/
def heartbeatPing (e : Public × SocketAddr) : Handler (Router T) Unit := do
  match (← get).routes.peers.lookup e.1 with
  | some peer => ping env now peer e.2
  | none => return ()

/-- `timers`, with the assignment to `busy` in `run`. -/
def timers : Handler (Router T) Unit := do
  forgetUnknown
  let used := (← get).inUse now
  updateTimers env now
  let beats := (← get).heartbeats now used
  let lost := (← get).rediscoveries now used
  modify fun r => { r with states := r.states.mapValues (refresh now used) }
  beats.forM (heartbeatPing env now)
  lost.forM fun key => discover env now key false
  modify fun r => { r with busy := !used.isEmpty }

/-! ## DERP connections and network changes -/

/-- `derp_result`: the wait doubles with every failure. -/
def derpResult (region : Nat) (connected : Bool) : Handler (Router T) Unit :=
  modify fun r =>
    if connected then { r with derpRetryAt := r.derpRetryAt.erase region }
    else
      let wait := match r.derpRetryAt.lookup region with
        | some e => min (e.2 * 2) derpRetryMax
        | none => derpRetry
      { r with derpRetryAt := r.derpRetryAt.insert region (now + wait, wait) }

/-- The `links` branch of `run`: a connection attempt ended. Packets queued for
the region go out over the new link. -/
def onLink (region : Nat) (link : Option Nat) : Handler (Router T) Unit := do
  derpResult now region link.isSome
  let old := (← get).regions.lookup region
  modify fun r => { r with regions := r.regions.erase region }
  match link with
  | none => return ()
  | some link =>
    match old with
    | some (.connecting queue) =>
      queue.forM fun e => do
        let _ ← offer env (.derp e.1) e.2
        return ()
    | _ => pure ()
    modify fun r => { r with regions := r.regions.insert region (.up link) }

/-- The home region is connected or being connected. -/
def homeUp : Bool :=
  match r.regions.lookup r.routes.home with
  | some (.up link) => !r.closedLinks.contains link
  | some (.connecting _) => true
  | none => false

/-- Starts connecting to the home region with nothing queued. -/
def connectHome : Handler (Router T) Unit := do
  let home := (← get).routes.home
  modify fun r => { r with regions := r.regions.insert home (.connecting []) }
  connect home

/-- The `home_check` branch of `run`. -/
def homeCheck : Handler (Router T) Unit := do
  let r ← get
  if r.routes.home ≠ 0 ∧ !r.homeUp ∧ !r.derpWaiting now r.routes.home then connectHome
  modify fun r => { r with
    regions := r.regions.retain fun _ region =>
      match region with
      | .up link => !r.closedLinks.contains link
      | .connecting _ => true }

/-- `network_changed`: forgets what belonged to the previous network. -/
def networkChanged : Handler (Router T) Unit := do
  modify fun r => { r with
    regions := ∅
    derpRetryAt := ∅
    byAddr := ∅
    states := r.states.mapValues fun _ st =>
      { st with best := none, pings := ∅, learned := [], lastDiscovery := none }
    stunAddrs := []
    stunRound := []
    stunPending := ∅ }
  publish
  stun env now
  if (← get).routes.home ≠ 0 then connectHome

end Router

/-! ## The event loop -/

/-- What can happen to a router: the branches of the `select!` in `run`, and
what the tasks around it do to the values and channels it shares with them. -/
inductive Event where
  /-- a datagram on the UDP socket -/
  | udp (src : SocketAddr) (packet : Bytes)
  /-- a packet relayed from `peer` -/
  | derp (peer : Public) (packet : Bytes)
  /-- a connection attempt ended -/
  | link (region : Nat) (link : Option Nat)
  /-- a packet from the netstack -/
  | fromStack (packet : Bytes)
  /-- the loop notices that the route table was published -/
  | routesChanged
  /-- the device moved to another network, with the new socket and address -/
  | network (udp : Option Socket) (localIp : Option IpAddr)
  | tick
  | stunTick
  | homeCheck
  /-- the control task publishes a route table -/
  | publishRoutes (routes : Routes)
  /-- the netstack publishes its open connections -/
  | publishOpen (addrs : List IpAddr)
  /-- the netstack takes a packet from its channel -/
  | stackReads
  /-- the netstack ends -/
  | stackCloses
  /-- a DERP connection ends -/
  | linkCloses (link : Nat)

namespace Router

variable {T : Type} (env : Env T) (now : Nat)

/-- The `from_stack` branch of `run`. -/
def onStack (packet : Bytes) : Handler (Router T) Unit := do
  if !(← get).busy then
    modify fun r => { r with busy := true }
    resume env now
  outbound env now packet

/-- One event at time `now`. -/
def step : Event → Handler (Router T) Unit
  | .udp src packet => onUdp env now src packet
  | .derp peer packet => onDerp env now peer packet
  | .link region link => onLink env now region link
  | .fromStack packet => onStack env now packet
  | .routesChanged => do
    if (← get).stunAddrs.isEmpty then stun env now
  | .network udp localIp => do
    modify fun r => { r with udp := udp, localIp := localIp }
    networkChanged env now
  | .tick => timers env now
  | .stunTick => do
    let r ← get
    if r.busy || r.lastStun.all fun t => decide (stunIdle ≤ now - t) then stun env now
  | .homeCheck => homeCheck now
  | .publishRoutes routes => modify fun r => { r with routes := routes }
  | .publishOpen addrs => modify fun r => { r with openAddrs := addrs }
  | .stackReads => modify fun r => { r with stackLoad := r.stackLoad - 1 }
  | .stackCloses => modify fun r => { r with stackClosed := true }
  | .linkCloses link => modify fun r => { r with closedLinks := link :: r.closedLinks }

/-- The event loop over timed events; a panic ends it. -/
def run (events : List (Nat × Event)) : Handler (Router T) Unit :=
  events.forM fun e => step env e.1 e.2

/-- The router as `run` sets it up, before its first event. -/
def init (routes : Routes) (udp : Option Socket) (localIp : Option IpAddr)
    (index : Nat) : Router T :=
  let r : Router T := { routes, udp, localIp, nextIndex := index % 2 ^ 24 }
  { r with endpoints := match localIp, udp.bind Socket.port with
      | some ip, some port => [(⟨ip, port⟩, endpointLocal)]
      | _, _ => [] }

end Router

end Clyntis.Tailscale
