import Clyntis.Lib.Table
import Clyntis.Net.Addr
import Mathlib.Data.List.Destutter

/-!
# The network map and the route table (`node.rs`, `tailcfg.rs`, `magic.rs`)

The control server sends a map of the tailnet. From it the node derives the
route table the router looks destinations up in, and the allow-list of each
`serve` port.

- `NetMap.routes`, `Routes.lookup`: the longest-prefix table and its lookup;
- `NetMap.Permits`: which networks go into the table, and `lookup_longest`;
- `NetMap.gate`: the peer addresses admitted to each `serve` port.

Parts of the map no modelled function reads are left out: online marks, host
information, the names of DERP regions and nodes.
-/

namespace Clyntis.Tailscale

open Lib Net List

/-- A node or disco public key, `[u8; 32]`. -/
abbrev Public : Type := BitVec 256

/-- `tailcfg::Node`. -/
structure Node where
  id : Int
  name : Text
  key : Public
  discoKey : Public
  addresses : List IpNet
  /-- `None` means the same as `addresses`. -/
  allowedIps : Option (List IpNet)
  endpoints : List Text
  homeDerp : Nat
  legacyDerp : Text
  expired : Bool
  computedName : Text
  deriving DecidableEq, Repr

namespace Node

/-- `derp_region`: the home region, or the legacy `127.3.3.40:<region>` form. -/
def derpRegion (n : Node) : Nat :=
  if n.homeDerp ≠ 0 then n.homeDerp
  else
    let legacy := "127.3.3.40:".toList
    if legacy.isPrefixOf n.legacyDerp then
      (parseU32 (n.legacyDerp.drop legacy.length)).getD 0
    else 0

/-- `allowed`. -/
def allowed (n : Node) : List IpNet := n.allowedIps.getD n.addresses

/-- `fqdn`: the MagicDNS name without the trailing dot. -/
def fqdn (n : Node) : Text := n.name.trimEndMatches '.'

end Node

/-- A `serve` rule; where it forwards to does not matter for admission. -/
structure ServeRule where
  port : UInt16
  /-- MagicDNS names or tailnet addresses; `none`: every peer. -/
  allow : Option (List Text)
  deriving DecidableEq, Repr

/-- The options of a node that shape its routes. -/
structure Options where
  acceptRoutes : Bool
  exitNode : Option Text
  serve : List ServeRule
  deriving DecidableEq, Repr

/-- A peer reachable for the destinations in its routes. -/
structure Peer where
  key : Public
  region : Nat
  disco : Public
  endpoints : List SocketAddr
  deriving DecidableEq, Repr

/-- `DerpNode`. -/
structure DerpNode where
  ipv4 : Text
  /-- 0 means 3478; negative disables STUN on this node -/
  stunPort : Int
  stunOnly : Bool
  deriving DecidableEq, Repr

/-- `DerpRegion`. -/
structure DerpRegion where
  regionId : Nat
  nodes : List DerpNode
  deriving DecidableEq, Repr

/-- What the router needs from the network map. -/
structure Routes where
  /-- longest prefix first -/
  table : List (IpNet × Peer)
  peers : Table Public Peer
  /-- the regions of the DERP map, in the order of its `BTreeMap` -/
  derp : List DerpRegion
  home : Nat

/-- `Routes::lookup`: the first network of the table that contains `ip`. -/
def Routes.lookup (r : Routes) (ip : IpAddr) : Option Peer :=
  (r.table.find? fun e => e.1.contains ip).map Prod.snd

/-- The `serve` ports and the peer addresses allowed on each (`none`: every
peer). -/
structure Gate where
  ports : Table UInt16 (Option (List IpAddr))

/-- The network map. Peers are kept in the order of their ids, as the source's
`BTreeMap` iterates. -/
structure NetMap where
  me : Option Node
  peers : List Node
  derp : List DerpRegion
  sorted : peers.Pairwise fun a b => a.id < b.id

namespace NetMap

/-- `find`: a node by full name, by first label or by computed name. -/
def find (m : NetMap) (name : Text) : Option Node :=
  let name := (name.trimEndMatches '.').toAsciiLowercase
  (m.peers ++ m.me.toList).find? fun node =>
    let fqdn := node.fqdn.toAsciiLowercase
    fqdn == name || fqdn.takeWhile (· != '.') == name ||
      (!node.computedName.isEmpty && node.computedName.toAsciiLowercase == name)

/-- The order of `IpAddr`: IPv4 before IPv6, then by value. -/
def addrLe : IpAddr → IpAddr → Bool
  | .v4 a, .v4 b => decide (a.toNat ≤ b.toNat)
  | .v4 _, .v6 _ => true
  | .v6 _, .v4 _ => false
  | .v6 a, .v6 b => decide (a.toNat ≤ b.toNat)

/-- The addresses an allow entry stands for: itself, or those of the node it
names (nobody while the name is unknown). -/
def allowedBy (m : NetMap) (entry : Text) : List IpAddr :=
  match IpAddr.parse entry.trim with
  | some ip => [ip]
  | none =>
    match m.find entry.trim with
    | some node => node.addresses.map IpNet.addr
    | none => []

/-- `gate`: who may reach each `serve` port. -/
def gate (m : NetMap) (serve : List ServeRule) : Gate where
  ports := serve.foldl (fun ports rule =>
    ports.insert rule.port (rule.allow.map fun allow =>
      ((allow.flatMap m.allowedBy).mergeSort addrLe).destutter (· ≠ ·))) ∅

/-- The exit node the options ask for, by address or by name. -/
def exit (m : NetMap) (options : Options) : Option Node :=
  options.exitNode.bind fun wanted =>
    m.peers.find? fun peer =>
      match IpAddr.parse wanted with
      | some ip => peer.addresses.any fun a => a.addr == ip
      | none => (m.find wanted).any fun found => found.id == peer.id

/-- The peer entry of a node. -/
def peerOf (node : Node) : Peer where
  key := node.key
  region := node.derpRegion
  disco := node.discoKey
  endpoints := node.endpoints.filterMap SocketAddr.parse

/-- Whether `net` of `node` goes into the table: its own addresses, a default
route of the chosen exit node, other routes when the options accept them. -/
def routed (m : NetMap) (options : Options) (node : Node) (net : IpNet) : Bool :=
  let own := node.addresses.contains net
  let default := net.prefixLen == 0
  let exitRoute := default && (m.exit options).any fun e => e.id == node.id
  own || exitRoute || (!default && options.acceptRoutes)

/-- `routes`: the table, longest prefix first, and the peers of the map. -/
def routes (m : NetMap) (options : Options) (home : Nat) : Routes :=
  let nodes := m.peers.filter fun node => !(node.key == 0 || node.expired)
  { table := (nodes.flatMap fun node =>
      (node.allowed.filter (m.routed options node)).map fun net => (net, peerOf node)).mergeSort
        fun a b => decide (b.1.prefixLen ≤ a.1.prefixLen)
    peers := nodes.foldl (fun peers node => peers.insert node.key (peerOf node)) ∅
    derp := m.derp
    home := home }

/-! ## Longest prefix -/

variable (m : NetMap) (options : Options)

/-- A network whose packets may go to this peer. -/
structure Permits (node : Node) (net : IpNet) : Prop where
  peer : node ∈ m.peers
  key : node.key ≠ 0
  current : node.expired = false
  allowed : net ∈ node.allowed
  granted : net ∈ node.addresses ∨ net.prefixLen ≠ 0 ∧ options.acceptRoutes = true ∨
    net.prefixLen = 0 ∧ m.exit options = some node

variable {m options}

/-- Nodes of the map are told apart by their ids. -/
theorem exit_eq_some {node : Node} (hnode : node ∈ m.peers) :
    ((m.exit options).any fun e => e.id == node.id) = true ↔ m.exit options = some node := by
  cases hexit : m.exit options with
  | none => simp
  | some e =>
    obtain ⟨wanted, -, hfind⟩ := Option.bind_eq_some_iff.mp hexit
    have he : e ∈ m.peers := mem_of_find?_eq_some hfind
    simp only [Option.any_some, beq_iff_eq, Option.some.injEq]
    refine ⟨fun hid => ?_, fun heq => congrArg Node.id heq⟩
    have hids : (m.peers.map Node.id).Nodup :=
      pairwise_map.mpr (m.sorted.imp Int.ne_of_lt)
    exact inj_on_of_nodup_map hids he hnode hid

theorem mem_table (home : Nat) {net : IpNet} {peer : Peer} :
    (net, peer) ∈ (m.routes options home).table ↔
      ∃ node, m.Permits options node net ∧ peerOf node = peer := by
  simp only [routes, mem_mergeSort, mem_flatMap, mem_filter, mem_map, Prod.mk.injEq]
  constructor
  · rintro ⟨node, ⟨hnode, hkept⟩, net', ⟨hnet, hrouted⟩, rfl, rfl⟩
    simp only [Bool.not_eq_true', Bool.or_eq_false_iff, beq_eq_false_iff_ne] at hkept
    refine ⟨node, ⟨hnode, hkept.1, hkept.2, hnet, ?_⟩, rfl⟩
    simp only [routed, Bool.or_eq_true, Bool.and_eq_true, exit_eq_some hnode, beq_iff_eq,
      contains_iff_mem, Bool.not_eq_true', beq_eq_false_iff_ne] at hrouted
    tauto
  · rintro ⟨node, h, rfl⟩
    refine ⟨node, ⟨h.peer, ?_⟩, net, ⟨h.allowed, ?_⟩, rfl, rfl⟩
    · rw [h.current, beq_eq_false_iff_ne.mpr h.key]
      rfl
    · have hgranted := h.granted
      simp only [routed, Bool.or_eq_true, Bool.and_eq_true, exit_eq_some h.peer, beq_iff_eq,
        contains_iff_mem, Bool.not_eq_true', beq_eq_false_iff_ne]
      tauto

/-- **Routing is by the longest prefix among the permitted networks**: an address has a peer
exactly when a peer has such a network with it, and the peer found has one of greatest length. -/
theorem lookup_longest (m : NetMap) (options : Options) (home : Nat) (ip : IpAddr) :
    ((m.routes options home).lookup ip ≠ none ↔
      ∃ node net, m.Permits options node net ∧ net.contains ip = true) ∧
    ∀ peer, (m.routes options home).lookup ip = some peer →
      ∃ node net, m.Permits options node net ∧ peerOf node = peer ∧ net.contains ip = true ∧
        ∀ node' net', m.Permits options node' net' → net'.contains ip = true →
          net'.prefixLen ≤ net.prefixLen := by
  have hsorted : (m.routes options home).table.Pairwise
      fun a b => b.1.prefixLen ≤ a.1.prefixLen := by
    refine (pairwise_mergeSort ?_ ?_ _).imp of_decide_eq_true
    · intro a b c hab hbc
      exact decide_eq_true ((of_decide_eq_true hbc).trans (of_decide_eq_true hab))
    · intro a b
      simpa using Nat.le_total b.1.prefixLen a.1.prefixLen
  unfold Routes.lookup
  constructor
  · rw [ne_eq, Option.map_eq_none_iff, find?_eq_none, not_forall]
    constructor
    · rintro ⟨⟨net, peer⟩, hfound⟩
      obtain ⟨hmem, hin⟩ := Classical.not_imp.mp hfound
      obtain ⟨node, h, -⟩ := (mem_table home).mp hmem
      exact ⟨node, net, h, not_not.mp hin⟩
    · rintro ⟨node, net, h, hin⟩
      exact ⟨(net, peerOf node), fun hnone => hnone ((mem_table home).mpr ⟨node, h, rfl⟩) hin⟩
  · intro peer hpeer
    obtain ⟨⟨net, peer⟩, hfind, rfl⟩ := Option.map_eq_some_iff.mp hpeer
    obtain ⟨hin, before, after, htable, hbefore⟩ := find?_eq_some_iff_append.mp hfind
    obtain ⟨node, h, rfl⟩ := (mem_table home).mp (mem_of_find?_eq_some hfind)
    refine ⟨node, net, h, rfl, hin, fun node' net' h' hin' => ?_⟩
    have hmem' := (mem_table home).mpr ⟨node', h', rfl⟩
    rw [htable] at hmem' hsorted
    rcases mem_append.mp hmem' with hfront | htail
    · have hno := hbefore _ hfront
      rw [hin'] at hno
      cases hno
    · rcases mem_cons.mp htail with heq | hback
      · rw [(Prod.mk.inj heq).1]
      · exact (pairwise_cons.mp (pairwise_append.mp hsorted).2.1).1 _ hback

end NetMap

end Clyntis.Tailscale
