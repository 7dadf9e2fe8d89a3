import Clyntis.Lib.Exec
import Clyntis.Lib.Table
import Clyntis.Net.Addr

/-!
# The fake-IP map (`dns.rs`, `FakeMap` and its callers in `Resolver`)

In fake-IP mode the resolver answers a name with an address of a private pool and
remembers which name it stands for. The map is bounded: past its capacity the
least recently queried name gives up its address.

- `FakeMap`: two tables that mirror each other and a queue of (address, stamp)
  pairs, cleaned lazily: a query pushes a new pair and leaves the old one stale;
- `fakeAddress`, `setFakeCapacity`, `importFake`: the callers. The `while` loops
  that evict down to the capacity run on fuel and give `none` when it runs out,
  so that their termination is something to prove.

Stamps and the generation are `u64` counters in the source, one up for every query;
they are unbounded here, so fewer than 2^64 queries are meant. `queries` is the history
the stamps count and `evictions` the record of the evictions, which the source does not
keep. `absoluteName` stands for the DNS library's name parser.
-/

namespace Clyntis.Core

open Lib Net

/-- A name and whether its IPv6 address is meant. -/
abbrev FakeKey : Type := Text × Bool

/-- One call of `evict`: the tables before and after it, and the queries so far. -/
structure Eviction where
  queries : List FakeKey
  byName : Table FakeKey (IpAddr × Nat)
  byIp : Table IpAddr Text
  byNameAfter : Table FakeKey (IpAddr × Nat)
  byIpAfter : Table IpAddr Text

/-- `FakeMap`. -/
structure FakeMap where
  /-- address and the use stamp of its latest query -/
  byName : Table FakeKey (IpAddr × Nat) := ∅
  byIp : Table IpAddr Text := ∅
  /-- (address, stamp) in use order, oldest first, with stale entries -/
  order : List (IpAddr × Nat) := []
  stamp : Nat := 0
  next4 : Nat := 2
  next6 : Nat := 2
  capacity : Nat
  generation : Nat := 0
  /-- every query that was stamped, oldest first -/
  queries : List FakeKey := []
  /-- every eviction, oldest first -/
  evictions : List Eviction := []

/-- The parts of the configuration the map depends on. -/
structure FakeConfig where
  fakeIpRange : CidrNet 32
  fakeIpRange6 : CidrNet 128
  /-- `absolute_name(host).is_ok()` -/
  absoluteName : Text → Bool

/-- `FAKE_CAPACITY`. -/
def fakeCapacity : Nat := 32768

namespace FakeMap

/-- `new`. -/
def new (capacity : Nat) : FakeMap := { capacity }

/-- `compact`: keeps the live pairs only, in stamp order. -/
def compact (m : FakeMap) : FakeMap :=
  { m with order := m.byName.values.mergeSort fun a b => decide (a.2 ≤ b.2) }

/-- Whether `order` has grown past `2 * capacity.max(64)`, in `usize` arithmetic. -/
def overgrown (m : FakeMap) : Bool :=
  decide (2 * max m.capacity 64 % 2 ^ 64 < m.order.length)

/-- Stamps the latest query of a mapped name. -/
def touch (m : FakeMap) (key : FakeKey) (ip : IpAddr) : FakeMap :=
  { m with
    stamp := m.stamp + 1
    byName := m.byName.insert key (ip, m.stamp + 1)
    order := m.order ++ [(ip, m.stamp + 1)]
    queries := m.queries ++ [key] }

/-- `get`: the address of a mapped name, whose query is stamped. -/
def get (m : FakeMap) (key : FakeKey) : Option (IpAddr × FakeMap) :=
  match m.byName.lookup key with
  | none => none
  | some (ip, _) =>
    let m := m.touch key ip
    some (ip, if m.overgrown then m.compact else m)

/-- `insert`. -/
def insert (m : FakeMap) (name : Text) (ip : IpAddr) : FakeMap :=
  { m with
    stamp := m.stamp + 1
    generation := m.generation + 1
    order := m.order ++ [(ip, m.stamp + 1)]
    byIp := m.byIp.insert ip name
    byName := m.byName.insert (name, ip.isIpv6) (ip, m.stamp + 1)
    queries := m.queries ++ [(name, ip.isIpv6)] }

/-- The loop of `evict` on the queue. -/
def evictFrom (m : FakeMap) : List (IpAddr × Nat) → FakeMap
  | [] => { m with order := [] }
  | (ip, stamp) :: rest =>
    match m.byIp.lookup ip with
    | none => evictFrom m rest
    | some name =>
      let key := (name, ip.isIpv6)
      if (m.byName.lookup key).any fun entry => entry.2 == stamp then
        { m with
          order := rest
          byName := m.byName.erase key
          byIp := m.byIp.erase ip
          generation := m.generation + 1 }
      else evictFrom m rest

/-- `evict`: drops the least recently queried mapping. -/
def evict (m : FakeMap) : FakeMap :=
  let after := m.evictFrom m.order
  { after with
    evictions := m.evictions ++ [⟨m.queries, m.byName, m.byIp, after.byName, after.byIp⟩] }

/-- One try of `allocate` for IPv6: offsets `2..=size-1`. -/
def nextV6 (m : FakeMap) (net : CidrNet 128) : Except String (IpAddr × FakeMap) :=
  let last := net.size - 1
  if last < 2 then .error "fake-IP v6 pool exhausted"
  else
    let next := if last < m.next6 then 2 else m.next6
    .ok (.v6 (BitVec.ofNat 128 (net.network + next)),
      { m with next6 := (next + 1) % 2 ^ 128 })

/-- One try of `allocate` for IPv4: offsets `2..=size-2`. -/
def nextV4 (m : FakeMap) (net : CidrNet 32) : Except String IpAddr × FakeMap :=
  let last := net.size - 2
  if last < 2 then (.error "fake-IP v4 pool exhausted", m)
  else
    let next := if last < m.next4 then 2 else m.next4
    if 2 ^ 32 ≤ net.network + next then
      (.error "fake-IP v4 pool exhausted", { m with next4 := next })
    else (.ok (.v4 (BitVec.ofNat 32 (net.network + next))), { m with next4 := next + 1 })

/-- One try of `allocate`. -/
def nextAddress (cfg : FakeConfig) (v6 : Bool) (m : FakeMap) : Except String IpAddr × FakeMap :=
  if v6 then
    match m.nextV6 cfg.fakeIpRange6 with
    | .error e => (.error e, m)
    | .ok (ip, m) => (.ok ip, m)
  else m.nextV4 cfg.fakeIpRange

/-- The `for _ in 0..=self.by_ip.len()` of `allocate`, with the tries left. -/
def allocateLoop (cfg : FakeConfig) (v6 : Bool) : Nat → FakeMap → Except String IpAddr × FakeMap
  | 0, m => (.error "fake-IP pool exhausted", m)
  | tries + 1, m =>
    match nextAddress cfg v6 m with
    | (.error e, m) => (.error e, m)
    | (.ok ip, m) =>
      if (m.byIp.lookup ip).isNone then (.ok ip, m) else allocateLoop cfg v6 tries m

/-- `allocate`: the next unmapped address, wrapping around the pool. -/
def allocate (cfg : FakeConfig) (m : FakeMap) (v6 : Bool) : Except String IpAddr × FakeMap :=
  allocateLoop cfg v6 (m.byIp.size + 1) m

/-- `while map.by_name.len() > map.capacity { map.evict() }`; `none`: the loop is
still running when the fuel is used up. -/
def shrink : (fuel : Nat) → FakeMap → Option FakeMap
  | 0, m => if m.capacity < m.byName.size then none else some m
  | fuel + 1, m => if m.capacity < m.byName.size then shrink fuel m.evict else some m

end FakeMap

/-! ## The resolver's operations -/

section

variable (cfg : FakeConfig)

/-- `fake_address`. -/
def fakeAddress (m : FakeMap) (host : Text) (v6 : Bool) : Except String IpAddr × FakeMap :=
  if !cfg.absoluteName host then (.error "unsupported fake-IP hostname", m)
  else
    match m.get (host, v6) with
    | some (ip, m) => (.ok ip, m)
    | none =>
      let m := if m.capacity ≤ m.byName.size then m.evict else m
      match m.allocate cfg v6 with
      | (.error e, m) => (.error e, m)
      | (.ok ip, m) => (.ok ip, m.insert host ip)

/-- `set_fake_capacity`. -/
def setFakeCapacity (fuel : Nat) (m : FakeMap) (capacity : Nat) : Option FakeMap :=
  FakeMap.shrink fuel { m with capacity := max capacity 1 }

/-- Whether a saved address lies in the configured pools. -/
def inPool : IpAddr → Bool
  | .v4 ip => cfg.fakeIpRange.contains ip && ip.toNat != cfg.fakeIpRange.broadcast
  | .v6 ip => cfg.fakeIpRange6.contains ip

/-- Lets the pool's counter advance past a saved address. -/
def advancePast (m : FakeMap) : IpAddr → Except String FakeMap
  | .v4 ip =>
    let n := ip.toNat - cfg.fakeIpRange.network
    if n < 2 then .error "reserved fake-IP" else .ok { m with next4 := max m.next4 (n + 1) }
  | .v6 ip =>
    let n := ip.toNat - cfg.fakeIpRange6.network
    if n < 2 then .error "reserved fake-IP"
    else if 2 ^ 128 ≤ n + 1 then .error "saved pool overflow"
    else .ok { m with next6 := max m.next6 (n + 1) }

/-- One saved entry of `import_fake`. -/
def importEntry (m : FakeMap) (entry : Text × IpAddr) : Except String FakeMap :=
  let name := (entry.1.trimEndMatches '.').toAsciiLowercase
  if !inPool cfg entry.2 then .ok m
  else
    match advancePast cfg m entry.2 with
    | .error e => .error e
    | .ok m =>
      if !cfg.absoluteName name then .ok m
      else if (m.byIp.lookup entry.2).isSome ||
          (m.byName.lookup (name, entry.2.isIpv6)).isSome then
        .error "duplicate saved fake-IP"
      else .ok (m.insert name entry.2)

/-- The map `import_fake` builds before it evicts down to the capacity. -/
def importEntries (m : FakeMap) (entries : List (Text × IpAddr)) : Except String FakeMap :=
  if fakeCapacity < entries.length then .error "saved fake-IP capacity exceeded"
  else entries.foldlM (importEntry cfg) (FakeMap.new m.capacity)

/-- `import_fake`: on an error the map stays as it was. -/
def importFake (fuel : Nat) (m : FakeMap) (entries : List (Text × IpAddr)) :
    Option (Except String Unit × FakeMap) :=
  match importEntries cfg m entries with
  | .error e => some (.error e, m)
  | .ok built => (FakeMap.shrink fuel built).map fun m => (.ok (), { m with generation := 0 })

end

end Clyntis.Core
