import Clyntis.Config.DomainSet
import Clyntis.Net.Addr

/-!
# The ad-block filter (`adblock.rs`, `Filter`)

- `Filter`: compiled block and allow sets, listed addresses and the built-in
  endpoints of resolvers that bypass DNS filtering;
- `Filter.refusesName` is what the DNS path asks, `Filter.refuses` what the
  connection path asks;
- `FilterLists`: the entries a filter is compiled from, and what they say about a
  name. `refusesName_eq_iff` connects the two.
-/

namespace Clyntis.Core

open Lib Net Config

/-- `Block`: why a connection was refused. -/
inductive Block where
  | list
  | endpoint
  | address
  | quic
  deriving DecidableEq, Repr

/-- `matched`. -/
def Block.matched : Block → Text
  | list => "Adblock".toList
  | endpoint => "Adblock(HTTPDNS)".toList
  | address => "Adblock(IP)".toList
  | quic => "Adblock(QUIC)".toList

/-- `Endpoints`. -/
structure Endpoints where
  domains : DomainSet
  addresses : List IpNet

/-- `Filter`. -/
structure Filter where
  block : DomainSet
  listAllow : DomainSet
  userAllow : DomainSet
  addresses : List IpNet
  endpoints : Endpoints
  blockHttpdns : Bool
  quicFallback : Bool

/-- `HTTPDNS_PORTS`. -/
def httpdnsPorts : List UInt16 := [80, 443, 853]

namespace Filter

variable (hash : Text → Hash) (f : Filter) (host : Text)

/-- `blocks`. -/
def blocks : Bool :=
  let host := Text.trimEndMatches '.' host
  if (IpAddr.parse host).isSome || !f.block.matchesHost hash host then false
  else !(f.listAllow.matchesHost hash host || f.userAllow.matchesHost hash host)

/-- `endpoint_name`. -/
def endpointName : Bool :=
  let host := Text.trimEndMatches '.' host
  f.blockHttpdns && f.endpoints.domains.matchesHost hash host &&
    !f.userAllow.matchesHost hash host

/-- `refuses_name`. -/
def refusesName : Option Block :=
  if f.blocks hash host then some .list
  else if f.endpointName hash host then some .endpoint
  else none

/-- `refuses`. -/
def refuses (port : UInt16) (network : Text) : Option Block :=
  match IpAddr.parse (Text.trimEndMatches ']' (Text.trimStartMatches '[' host)) with
  | none => f.refusesName hash host
  | some ip =>
    let ip := ip.toCanonical
    if f.blockHttpdns && httpdnsPorts.contains port &&
        f.endpoints.addresses.any (fun net => net.contains ip) then some .endpoint
    else if f.addresses.any (fun net => net.contains ip) then some .address
    else if f.quicFallback && network == "udp".toList && port == 443 then some .quic
    else none

end Filter

/-! ## What a filter is compiled from -/

/-- The entries of a filter's sets, and its options. -/
structure FilterLists where
  block : DomainSetBuilder := {}
  listAllow : DomainSetBuilder := {}
  userAllow : DomainSetBuilder := {}
  endpoints : DomainSetBuilder := {}
  addresses : List IpNet := []
  endpointAddresses : List IpNet := []
  blockHttpdns : Bool := true
  quicFallback : Bool := true

namespace FilterLists

/-- The filter of these lists. -/
def compile (hash : Text → Hash) (regex : RegexLib) (lists : FilterLists) : Filter where
  block := lists.block.build hash regex
  listAllow := lists.listAllow.build hash regex
  userAllow := lists.userAllow.build hash regex
  addresses := lists.addresses
  endpoints := ⟨lists.endpoints.build hash regex, lists.endpointAddresses⟩
  blockHttpdns := lists.blockHttpdns
  quicFallback := lists.quicFallback

/-- The name is on a block list and on no allow list. -/
def Blocked (regex : RegexLib) (lists : FilterLists) (name : Text) : Prop :=
  lists.block.Covers regex name ∧ ¬lists.listAllow.Covers regex name ∧
    ¬lists.userAllow.Covers regex name

/-- The name is a refused endpoint that the user does not allow. -/
def Endpoint (regex : RegexLib) (lists : FilterLists) (name : Text) : Prop :=
  lists.blockHttpdns = true ∧ lists.endpoints.Covers regex name ∧
    ¬lists.userAllow.Covers regex name

/-- The names the lists were hashed from. -/
def hashed (lists : FilterLists) : List Text :=
  lists.block.hashed ++ lists.listAllow.hashed ++ lists.userAllow.hashed ++ lists.endpoints.hashed

/-- No name of the lists shares its hash with the host or a parent domain of it. -/
def NoCollision (hash : Text → Hash) (lists : FilterLists) (host : Text) : Prop :=
  ∀ label ∈ host :: parentDomains host, ∀ d ∈ lists.hashed, hash d = hash label → d = label

variable {hash : Text → Hash} {regex : RegexLib} {lists : FilterLists} {host : Text}

theorem NoCollision.of_subset (h : NoCollision hash lists host) {b : DomainSetBuilder}
    (hb : ∀ d ∈ b.hashed, d ∈ lists.hashed) : b.NoCollision hash host :=
  fun label hlabel d hd heq => h label hlabel d (hb d hd) heq

/-- Each set of a compiled filter is exact on a host without collisions. -/
theorem matchesHost_compile (regex : RegexLib) (h : NoCollision hash lists host) :
    ((lists.compile hash regex).block.matchesHost hash host = true ↔
      lists.block.Covers regex host) ∧
    ((lists.compile hash regex).listAllow.matchesHost hash host = true ↔
      lists.listAllow.Covers regex host) ∧
    ((lists.compile hash regex).userAllow.matchesHost hash host = true ↔
      lists.userAllow.Covers regex host) ∧
    ((lists.compile hash regex).endpoints.domains.matchesHost hash host = true ↔
      lists.endpoints.Covers regex host) := by
  refine ⟨DomainSetBuilder.matchesHost_build_iff (h.of_subset ?_),
    DomainSetBuilder.matchesHost_build_iff (h.of_subset ?_),
    DomainSetBuilder.matchesHost_build_iff (h.of_subset ?_),
    DomainSetBuilder.matchesHost_build_iff (h.of_subset ?_)⟩
  all_goals simp +contextual [hashed]

/-- A compiled filter blocks what its lists block. -/
theorem blocks_compile (h : NoCollision hash lists (Text.trimEndMatches '.' host))
    (hip : IpAddr.parse (Text.trimEndMatches '.' host) = none) :
    (lists.compile hash regex).blocks hash host = true ↔
      lists.Blocked regex (Text.trimEndMatches '.' host) := by
  obtain ⟨hblock, hallow, huser, -⟩ := matchesHost_compile regex h
  simp [Filter.blocks, hip, Blocked, ← hblock, ← hallow, ← huser]

theorem endpointName_compile (h : NoCollision hash lists (Text.trimEndMatches '.' host)) :
    (lists.compile hash regex).endpointName hash host = true ↔
      lists.Endpoint regex (Text.trimEndMatches '.' host) := by
  obtain ⟨-, -, huser, hend⟩ := matchesHost_compile regex h
  simp [Filter.endpointName, Endpoint, ← hend, ← huser, compile, and_assoc]

/-- The lists say the same of both names. -/
def SameListing (regex : RegexLib) (lists : FilterLists) (s t : Text) : Prop :=
  (lists.Blocked regex s ↔ lists.Blocked regex t) ∧
    (¬lists.Blocked regex t → (lists.Endpoint regex s ↔ lists.Endpoint regex t))

/-- **The compiled filter refuses by its lists**: two names that are no addresses and
meet no hash collision get the same answer exactly if the lists say the same of them. -/
theorem refusesName_eq_iff (regex : RegexLib) {s t : Text}
    (hs : NoCollision hash lists (Text.trimEndMatches '.' s))
    (ht : NoCollision hash lists (Text.trimEndMatches '.' t))
    (hsip : IpAddr.parse (Text.trimEndMatches '.' s) = none)
    (htip : IpAddr.parse (Text.trimEndMatches '.' t) = none) :
    (lists.compile hash regex).refusesName hash s = (lists.compile hash regex).refusesName hash t ↔
      lists.SameListing regex (Text.trimEndMatches '.' s) (Text.trimEndMatches '.' t) := by
  unfold Filter.refusesName SameListing
  rw [← blocks_compile hs hsip, ← blocks_compile ht htip, ← endpointName_compile hs,
    ← endpointName_compile ht]
  cases (lists.compile hash regex).blocks hash s <;>
    cases (lists.compile hash regex).blocks hash t <;>
    cases (lists.compile hash regex).endpointName hash s <;>
    cases (lists.compile hash regex).endpointName hash t <;> decide

end FilterLists

end Clyntis.Core
