import Clyntis.Lib.Exec
import Clyntis.Lib.Table
import Clyntis.Net.Addr
import Mathlib.Data.List.MinMax

/-!
# UDP bookkeeping of the packet loop (`udp_table.rs`)

The TUN loop keeps one session per UDP source and target, and one socket per
target that its sessions share. `UdpTable` counts the sessions of each target and
the hijacked DNS sessions as it goes; some sessions and some sockets are kept free
for DNS.

- `admitPort`, `reclaimPort`, `admitSession`, `insert`, `ended`, `remove`,
  `superseded`, `notice`, `expire`, `purge`: the functions of the source. Where it
  subtracts without saturating, `none` stands for an underflow;
- `Change`: what the functions that grant nothing are made of;
- `Counted`, `Bounded`: the DNS counter is exact, and what each class of flows may
  use; every operation keeps both (`bounded_of_admitted`);
- `Consistent`: the counters of the targets are exact too, every session has its
  target's socket, and no two sessions share a generation.

An input queue and a task are known by the generation of the session they belong
to, a `u64` of which fewer than 2^64 are taken to be used. Times are in nanoseconds.
-/

namespace Clyntis.Core

open Lib Net List Option Table AList

/-- `smoltcp::wire::IpEndpoint`. -/
abbrev IpEndpoint : Type := SocketAddr

/-- `Flow`. -/
structure Flow where
  source : IpEndpoint
  target : IpEndpoint
  tcp : Bool
  deriving DecidableEq, Repr

/-- `UdpFlow`. -/
structure UdpFlow where
  generation : Nat
  dns : Bool
  deriving DecidableEq, Repr

/-- `UdpPort`. -/
structure UdpPort where
  last : Nat
  sessions : Nat
  dns : Bool
  deriving DecidableEq, Repr

/-- `Refusal`. -/
inductive Refusal where
  /-- the memory guard refuses new flows -/
  | memory
  /-- every session slot is in use -/
  | sessions
  /-- every target socket is in use by sessions or recent traffic -/
  | ports
  deriving DecidableEq, Repr

def dnsReserve : Nat := 16
def dnsPortReserve : Nat := 4
def reuseAfter : Nat := 2 * 10 ^ 9
def refusalNoticeEvery : Nat := 10 ^ 9

/-- `a - b` on `usize`. -/
def usizeSub (a b : Nat) : Option Nat := if b ≤ a then some (a - b) else none

theorem usizeSub_of_le {a b : Nat} (h : b ≤ a) : usizeSub a b = some (a - b) := if_pos h

/-- `UdpTable`. -/
structure UdpTable where
  flows : Table Flow UdpFlow
  ports : Table IpEndpoint UdpPort
  maxSessions : Nat
  maxPorts : Nat
  dnsSessions : Nat
  nextGeneration : Nat
  noticed : Table Flow Nat

namespace UdpTable

/-- `UdpTable::new`. -/
def new (maxSessions maxPorts : Nat) : UdpTable where
  flows := ∅
  ports := ∅
  maxSessions := maxSessions
  maxPorts := maxPorts
  dnsSessions := 0
  nextGeneration := 0
  noticed := ∅

/-! ## The functions -/

variable (t : UdpTable)

/-- The entries `ports.iter()` yields when the map iterates over its keys in this
order. -/
def iterPorts (order : List IpEndpoint) : List (IpEndpoint × UdpPort) :=
  order.filterMap fun e => (t.ports.lookup e).map fun port => (e, port)

/-- `UdpTable::reclaim_port`: the table without the socket it freed. -/
def reclaimPort (order : List IpEndpoint) (now : Nat) : Option UdpTable :=
  let candidates := (t.iterPorts order).filter fun e =>
    e.2.sessions == 0 && !e.2.dns && decide (reuseAfter ≤ now - e.2.last)
  match candidates.argmin fun e => e.2.last with
  | none => none
  | some (endpoint, _) => some { t with ports := t.ports.erase endpoint }

/-- How many sockets a target of this class may bring the table to. -/
def portLimit (dns : Bool) : Nat :=
  t.maxPorts + if dns then dnsPortReserve else 0

/-- `UdpTable::admit_port`. -/
def admitPort (target : IpEndpoint) (dns shedding : Bool)
    (order : List IpEndpoint) (now : Nat) : Except Refusal UdpTable :=
  if target ∈ t.ports then .ok t
  else if shedding && !dns then .error .memory
  else
    -- with every socket in use, one is freed first
    match if t.portLimit dns ≤ t.ports.size then t.reclaimPort order now else some t with
    | none => .error .ports
    | some t => .ok { t with ports := t.ports.insert target ⟨now, 0, dns⟩ }

/-- How many sessions may count for a new one of this class. -/
def sessionLimit (dns : Bool) : Nat :=
  if dns then t.maxSessions else t.maxSessions - dnsReserve

/-- `UdpTable::admit_session`. -/
def admitSession (flow : Flow) (dns shedding : Bool) :
    Option (Except Refusal Bool) :=
  if flow ∈ t.flows then some (.ok false)
  else if shedding && !dns then some (.error .memory)
  else
    let used := t.flows.size
    (if dns then some used else usizeSub used t.dnsSessions).map fun counted =>
      if t.sessionLimit dns ≤ counted ∨ t.maxSessions ≤ used then .error .sessions else .ok true

/-- `UdpTable::insert`: the generation of the new session. -/
def insert (t : UdpTable) (flow : Flow) (dns : Bool) : Nat × UdpTable :=
  let generation := t.nextGeneration + 1
  (generation,
    { t with
      nextGeneration := generation
      ports := t.ports.modify flow.target fun port => { port with sessions := port.sessions + 1 }
      dnsSessions := if dns then t.dnsSessions + 1 else t.dnsSessions
      flows := t.flows.insert flow ⟨generation, dns⟩ })

/-- `UdpTable::remove`. -/
def remove (flow : Flow) (now : Nat) : Option (Option UdpFlow × UdpTable) :=
  match t.flows.lookup flow with
  | none => some (none, t)
  | some state =>
    (if state.dns then usizeSub t.dnsSessions 1 else some t.dnsSessions).map fun dnsSessions =>
      (some state,
        { t with
          flows := t.flows.erase flow
          dnsSessions := dnsSessions
          ports := t.ports.modify flow.target fun port =>
            { port with sessions := port.sessions - 1, last := max port.last now } })

/-- `UdpTable::ended`. -/
def ended (flow : Flow) (generation now : Nat) : Option (Bool × UdpTable) :=
  if (t.flows.lookup flow).all fun f => f.generation != generation then some (false, t)
  else (t.remove flow now).map fun r => (true, r.2)

/-- `UdpTable::superseded`. -/
def superseded (flow : Flow) (generation : Nat) : Bool :=
  (t.flows.lookup flow).any fun f => f.generation != generation

/-- `UdpTable::notice`. -/
def notice (flow : Flow) (now : Nat) : Bool × UdpTable :=
  if (t.noticed.lookup flow).any fun at_ => decide (now - at_ < refusalNoticeEvery) then (false, t)
  else (true, { t with noticed := t.noticed.insert flow now })

/-- The flows of one target. -/
def flowsOn (endpoint : IpEndpoint) : List Flow :=
  t.flows.keys.filter fun flow => flow.target == endpoint

/-- One turn of the loop over the stale targets in `UdpTable::expire`. -/
def expirePort (now : Nat) (t : UdpTable) (endpoint : IpEndpoint) : Option UdpTable :=
  ((t.flowsOn endpoint).foldlM (fun t flow => (remove t flow now).map Prod.snd) t).map fun t =>
    { t with ports := t.ports.erase endpoint }

/-- The targets idle past `idle`. -/
def stale (idle now : Nat) : List IpEndpoint :=
  (t.ports.entries.filter fun e => decide (idle < now - e.2.last)).map Sigma.fst

/-- `UdpTable::expire`. -/
def expire (idle now : Nat) : Option UdpTable :=
  ((t.stale idle now).foldlM (expirePort now) t).map fun t =>
    { t with noticed := t.noticed.retain fun _ at_ => decide (now - at_ < refusalNoticeEvery) }

/-- The loop's note that a target's socket was used. -/
def touch (now : Nat) (t : UdpTable) (endpoint : IpEndpoint) : UdpTable :=
  { t with ports := t.ports.modify endpoint fun port => { port with last := now } }

/-- `UdpTable::purge`. -/
def purge : (Nat × Nat) × UdpTable :=
  ((t.flows.size, t.ports.size), { t with flows := ∅, dnsSessions := 0, ports := ∅ })

/-! ## What each function does -/

variable {t t' : UdpTable} {order : List IpEndpoint} {target e : IpEndpoint} {flow : Flow}
  {dns shedding : Bool} {now : Nat} {ports : Table IpEndpoint UdpPort}

/-- A socket is freed only when it is an idle data socket without sessions. -/
theorem reclaimPort_eq_some (h : t.reclaimPort order now = some t') :
    ∃ e port, t.ports.lookup e = some port ∧ port.sessions = 0 ∧ port.dns = false ∧
      t' = { t with ports := t.ports.erase e } := by
  unfold reclaimPort at h
  dsimp only at h
  split at h
  · cases h
  · next e port hmin =>
    obtain rfl := Option.some.inj h
    have hmem := argmin_mem hmin
    simp only [mem_filter, iterPorts, mem_filterMap, map_eq_some_iff, Bool.and_eq_true, beq_iff_eq,
      Bool.not_eq_true'] at hmem
    obtain ⟨⟨e', -, port', hport, heq⟩, ⟨hsessions, hdns⟩, -⟩ := hmem
    obtain ⟨rfl, rfl⟩ := Prod.mk.inj heq
    exact ⟨e', port', hport, hsessions, hdns, rfl⟩

/-- The sockets after room was made for one more: there was some below the limit, or
an idle data socket without sessions was freed. -/
inductive Room (t : UdpTable) (limit : Nat) : Table IpEndpoint UdpPort → Prop where
  | spare (below : t.ports.size < limit) : Room t limit t.ports
  | freed {e port} (found : t.ports.lookup e = some port)
      (unused : port.sessions = 0) (data : port.dns = false) : Room t limit (t.ports.erase e)

/-- An admitted target has its socket already, or gets one in the room made for it. -/
theorem admitPort_eq_ok (h : t.admitPort target dns shedding order now = .ok t') :
    target ∈ t.ports ∧ t' = t ∨
    target ∉ t.ports ∧ ∃ ports, t.Room (t.portLimit dns) ports ∧
      t' = { t with ports := ports.insert target ⟨now, 0, dns⟩ } := by
  unfold admitPort at h
  split at h
  · next hmem => exact .inl ⟨hmem, (Except.ok.inj h).symm⟩
  · next hnot =>
    refine .inr ⟨hnot, ?_⟩
    split at h
    · cases h
    · split at h
      · cases h
      · next t₁ hroom =>
        obtain rfl := Except.ok.inj h
        split at hroom
        · obtain ⟨e, port, hport, hunused, hdata, rfl⟩ := reclaimPort_eq_some hroom
          exact ⟨_, .freed hport hunused hdata, rfl⟩
        · next hbelow =>
          obtain rfl := Option.some.inj hroom
          exact ⟨_, .spare (Nat.lt_of_not_le hbelow), rfl⟩

/-- A session is granted to a new flow, below the limit of its class. -/
theorem admitSession_granted (h : t.admitSession flow dns shedding = some (.ok true)) :
    flow ∉ t.flows ∧ t.flows.size < t.maxSessions ∧
      (dns = false → t.dnsSessions ≤ t.flows.size →
        t.flows.size - t.dnsSessions < t.maxSessions - dnsReserve) := by
  unfold admitSession at h
  split at h
  · cases h
  · next hnot =>
    split at h
    · cases h
    · refine ⟨hnot, ?_⟩
      cases dns with
      | true =>
        obtain ⟨counted, -, h⟩ := map_eq_some_iff.mp h
        split at h
        · cases h
        · next hroom => exact ⟨by omega, by simp⟩
      | false =>
        obtain ⟨counted, hcounted, h⟩ := map_eq_some_iff.mp h
        split at h
        · cases h
        · next hroom =>
          refine ⟨by omega, fun _ hle => ?_⟩
          rw [usizeSub_of_le hle] at hcounted
          obtain rfl := Option.some.inj hcounted
          have hlimit : t.sessionLimit false = t.maxSessions - dnsReserve := rfl
          omega

/-! ## The DNS counter, and what each class may use -/

/-- The sessions that serve hijacked DNS. -/
def dnsFlow (_ : Flow) (f : UdpFlow) : Bool := f.dns

/-- The other sessions. -/
def dataFlow (_ : Flow) (f : UdpFlow) : Bool := !f.dns

/-- The sockets of hijacked DNS targets. -/
def dnsPort (_ : IpEndpoint) (port : UdpPort) : Bool := port.dns

/-- The other sockets. -/
def dataPort (_ : IpEndpoint) (port : UdpPort) : Bool := !port.dns

/-- The sessions of one target. -/
def onTarget (e : IpEndpoint) (f : Flow) (_ : UdpFlow) : Bool := f.target == e

/-- The DNS counter is the number of DNS sessions. -/
def Counted (t : UdpTable) : Prop := t.dnsSessions = t.flows.count dnsFlow

/-- Admitting a session does not underflow. -/
theorem Counted.admitSession (h : Counted t) (flow : Flow) (dns shedding : Bool) :
    ∃ answer, t.admitSession flow dns shedding = some answer := by
  have hle : t.dnsSessions ≤ t.flows.size := by
    rw [h]
    exact count_le_size
  unfold UdpTable.admitSession
  split
  · exact ⟨_, rfl⟩
  · split
    · exact ⟨_, rfl⟩
    · dsimp only
      rw [usizeSub_of_le hle]
      cases dns <;> exact ⟨_, rfl⟩

/-- The second table has at most what the first has, under the same limits. -/
structure Shrinks (t t' : UdpTable) : Prop where
  maxSessions : t'.maxSessions = t.maxSessions
  maxPorts : t'.maxPorts = t.maxPorts
  flows : ∀ p, t'.flows.count p ≤ t.flows.count p
  size : t'.flows.size ≤ t.flows.size
  live : ∀ {f u}, t'.flows.lookup f = some u → t.flows.lookup f = some u
  generation : t'.nextGeneration = t.nextGeneration
  dataPorts : t'.ports.count dataPort ≤ t.ports.count dataPort
  ports : t'.ports.size ≤ t.ports.size

theorem Shrinks.refl (t : UdpTable) : Shrinks t t :=
  ⟨rfl, rfl, fun _ => le_rfl, le_rfl, id, rfl, le_rfl, le_rfl⟩

theorem Shrinks.trans {t₁ t₂ t₃ : UdpTable} (h : Shrinks t₁ t₂) (h' : Shrinks t₂ t₃) :
    Shrinks t₁ t₃ where
  maxSessions := h'.maxSessions.trans h.maxSessions
  maxPorts := h'.maxPorts.trans h.maxPorts
  flows p := (h'.flows p).trans (h.flows p)
  size := h'.size.trans h.size
  live hf := h.live (h'.live hf)
  generation := h'.generation.trans h.generation
  dataPorts := h'.dataPorts.trans h.dataPorts
  ports := h'.ports.trans h.ports

/-- One change of a table that grants nothing. -/
inductive Change (t : UdpTable) : UdpTable → Prop where
  | flow {flow state dnsSessions} (now : Nat)
      (there : t.flows.lookup flow = some state)
      (count : dnsSessions + state.dns.toNat = t.dnsSessions) :
      Change t { t with
        flows := t.flows.erase flow
        dnsSessions := dnsSessions
        ports := t.ports.modify flow.target fun port =>
          { port with sessions := port.sessions - 1, last := max port.last now } }
  | port {e : IpEndpoint} (unused : ∀ f ∈ t.flows, f.target ≠ e) :
      Change t { t with ports := t.ports.erase e }
  | touch (now : Nat) (e : IpEndpoint) : Change t (t.touch now e)
  | noticed (noticed : Table Flow Nat) : Change t { t with noticed := noticed }
  | purge : Change t t.purge.2

theorem Change.counted (hchange : Change t t') (h : Counted t) : Counted t' := by
  cases hchange with
  | flow now there count =>
    have hcount := count_erase (p := dnsFlow) there
    exact Nat.add_right_cancel ((count.trans h).trans hcount.symm)
  | purge => rfl
  | port | touch | noticed => exact h

theorem Change.shrinks (hchange : Change t t') : Shrinks t t' := by
  -- sockets that are marked as used are as many as before
  have hmarked : ∀ (f : UdpPort → UdpPort) (e : IpEndpoint), (∀ port, (f port).dns = port.dns) →
      (t.ports.modify e f).count dataPort ≤ t.ports.count dataPort ∧
        (t.ports.modify e f).size ≤ t.ports.size := by
    intro f e hdns
    rw [count_modify fun port => congrArg not (hdns port), size_modify]
    exact ⟨le_rfl, le_rfl⟩
  cases hchange with
  | @flow flow _ _ now there count =>
    obtain ⟨hdata, hports⟩ := hmarked (fun port =>
      { port with sessions := port.sessions - 1, last := max port.last now }) flow.target
      fun _ => rfl
    exact ⟨rfl, rfl, fun _ => count_erase_le, size_erase_le,
      fun hf => (lookup_erase_iff.mp hf).2, rfl, hdata, hports⟩
  | port unused =>
    exact ⟨rfl, rfl, fun _ => le_rfl, le_rfl, id, rfl, count_erase_le, size_erase_le⟩
  | touch now e =>
    obtain ⟨hdata, hports⟩ := hmarked (fun port => { port with last := now }) e fun _ => rfl
    exact ⟨rfl, rfl, fun _ => le_rfl, le_rfl, id, rfl, hdata, hports⟩
  | noticed => exact ⟨rfl, rfl, fun _ => le_rfl, le_rfl, id, rfl, le_rfl, le_rfl⟩
  | purge =>
    exact ⟨rfl, rfl, fun _ => Nat.zero_le _, Nat.zero_le _, (fun hf => by cases hf), rfl,
      Nat.zero_le _, Nat.zero_le _⟩

/-- Any number of changes. -/
abbrev Changes : UdpTable → UdpTable → Prop := Relation.ReflTransGen Change

theorem Changes.counted (hchanges : Changes t t') (h : Counted t) : Counted t' := by
  induction hchanges with
  | refl => exact h
  | tail _ hchange ih => exact hchange.counted ih

theorem Changes.shrinks (hchanges : Changes t t') : Shrinks t t' := by
  induction hchanges with
  | refl => exact .refl t
  | tail _ hchange ih => exact ih.trans hchange.shrinks

/-- A removal does not underflow. -/
theorem Counted.remove (h : Counted t) (flow : Flow) (now : Nat) :
    ∃ r t', t.remove flow now = some (r, t') ∧ Changes t t' ∧ t'.flows = t.flows.erase flow := by
  unfold UdpTable.remove
  cases hflow : t.flows.lookup flow with
  | none =>
    refine ⟨none, t, rfl, .refl, (AList.ext ?_).symm⟩
    exact kerase_of_notMem_keys (lookup_eq_none.mp hflow)
  | some state =>
    have hcount := count_erase (p := dnsFlow) hflow
    unfold Counted at h
    dsimp only
    cases hdns : state.dns with
    | false => exact ⟨some state, _, rfl, .single (.flow now hflow (by rw [hdns]; rfl)), rfl⟩
    | true =>
      rw [dnsFlow, hdns, Bool.toNat_true] at hcount
      have hpos : 1 ≤ t.dnsSessions := by omega
      rw [usizeSub_of_le hpos]
      refine ⟨some state, _, rfl, .single (.flow now hflow ?_), rfl⟩
      rw [hdns]
      exact Nat.sub_add_cancel hpos

/-- A completed session shrinks the table, or nothing happens. -/
theorem Counted.ended (h : Counted t) (flow : Flow) (generation now : Nat) :
    ∃ current t', t.ended flow generation now = some (current, t') ∧ Changes t t' := by
  unfold UdpTable.ended
  split
  · exact ⟨false, t, rfl, .refl⟩
  · obtain ⟨r, t', hremove, hchanges, -⟩ := h.remove flow now
    refine ⟨true, t', ?_, hchanges⟩
    rw [hremove]
    rfl

/-- Expiring a target ends its sessions before its socket goes. -/
theorem Counted.expirePort (h : Counted t) (now : Nat) (e : IpEndpoint) :
    ∃ t', UdpTable.expirePort now t e = some t' ∧ Changes t t' := by
  obtain ⟨t₁, hloop, ⟨hchanges, hsub⟩, hgone, -⟩ := foldlM_returns
    (f := fun t flow => (UdpTable.remove t flow now).map Prod.snd)
    (P := fun t₁ => Changes t t₁ ∧ ∀ f ∈ t₁.flows, f ∈ t.flows)
    (Q := fun flow t₁ => flow ∉ t₁.flows)
    (fun t₁ flow ⟨hchanges, hsub⟩ => by
      obtain ⟨r, t₂, hremove, hremoved, hflows⟩ := (hchanges.counted h).remove flow now
      have hmem : ∀ {f}, f ∈ t₂.flows ↔ f ≠ flow ∧ f ∈ t₁.flows := by
        rw [hflows]
        exact mem_erase
      refine ⟨t₂, ?_, ⟨hchanges.trans hremoved, fun f hf => hsub f (hmem.mp hf).2⟩, ?_, ?_⟩
      · rw [hremove]
        rfl
      · exact fun hf => (hmem.mp hf).1 rfl
      · exact fun f hf hf' => hf (hmem.mp hf').2)
    (t.flowsOn e) t ⟨.refl, fun _ hf => hf⟩
  refine ⟨_, map_eq_some_iff.mpr ⟨t₁, hloop, rfl⟩, hchanges.tail (.port ?_)⟩
  intro f hf htarget
  refine hgone f (mem_filter.mpr ⟨mem_keys.mp (hsub f hf), ?_⟩) hf
  exact beq_iff_eq.mpr htarget

/-- Expiring does not underflow. -/
theorem Counted.expire (h : Counted t) (idle now : Nat) :
    ∃ t', t.expire idle now = some t' ∧ Changes t t' := by
  obtain ⟨t₁, hloop, hchanges, -⟩ := foldlM_returns
    (f := UdpTable.expirePort now) (P := Changes t) (Q := fun _ _ => True)
    (fun t₁ e hchanges => by
      obtain ⟨t₂, hexpire, hexpired⟩ := (hchanges.counted h).expirePort now e
      exact ⟨t₂, hexpire, hchanges.trans hexpired, trivial, fun _ _ => trivial⟩)
    (t.stale idle now) t .refl
  exact ⟨_, map_eq_some_iff.mpr ⟨t₁, hloop, rfl⟩, hchanges.tail (.noticed _)⟩

theorem changes_notice (t : UdpTable) (flow : Flow) (now : Nat) :
    Changes t (t.notice flow now).2 := by
  unfold UdpTable.notice
  split
  · exact .refl
  · exact .single (.noticed _)

/-- The sessions and sockets each class has are within its share. -/
structure Bounded (t : UdpTable) : Prop where
  counted : Counted t
  data_le : t.flows.count dataFlow ≤ t.maxSessions - dnsReserve
  sessions_le : t.flows.size ≤ t.maxSessions
  dataPorts_le : t.ports.count dataPort ≤ t.maxPorts
  ports_le : t.ports.size ≤ t.maxPorts + dnsPortReserve

namespace Bounded

theorem new (maxSessions maxPorts : Nat) : Bounded (UdpTable.new maxSessions maxPorts) :=
  ⟨rfl, Nat.zero_le _, Nat.zero_le _, Nat.zero_le _, Nat.zero_le _⟩

variable (h : Bounded t)
include h

theorem of_shrinks (hcounted : Counted t') (hshrinks : Shrinks t t') : Bounded t' where
  counted := hcounted
  data_le := by
    rw [hshrinks.maxSessions]
    exact (hshrinks.flows _).trans h.data_le
  sessions_le := by
    rw [hshrinks.maxSessions]
    exact hshrinks.size.trans h.sessions_le
  dataPorts_le := by
    rw [hshrinks.maxPorts]
    exact hshrinks.dataPorts.trans h.dataPorts_le
  ports_le := by
    rw [hshrinks.maxPorts]
    exact hshrinks.ports.trans h.ports_le

/-- The number of data sessions that `admit_session` computes. -/
theorem size_sub_dnsSessions :
    t.dnsSessions ≤ t.flows.size ∧ t.flows.size - t.dnsSessions = t.flows.count dataFlow := by
  have hcounted : t.dnsSessions = t.flows.count dnsFlow := h.counted
  have hsplit : t.flows.count dnsFlow + t.flows.count dataFlow = t.flows.size :=
    count_add_count_not dnsFlow t.flows
  omega

theorem insert (hgrant : t.admitSession flow dns shedding = some (.ok true)) :
    Bounded (t.insert flow dns).2 := by
  obtain ⟨hnot, hsize, hdata⟩ := admitSession_granted hgrant
  obtain ⟨hle, hsub⟩ := h.size_sub_dnsSessions
  have hcounted : t.dnsSessions = t.flows.count dnsFlow := h.counted
  refine ⟨?_, ?_, ?_, ?_, ?_⟩
  · show (if dns then t.dnsSessions + 1 else t.dnsSessions) = _
    rw [UdpTable.insert, count_insert_of_notMem hnot, hcounted]
    cases dns <;> rfl
  · show Table.count dataFlow (t.flows.insert flow ⟨t.nextGeneration + 1, dns⟩) ≤ _
    rw [count_insert_of_notMem hnot]
    cases dns with
    | true => exact h.data_le
    | false =>
      have hroom := hdata rfl hle
      rw [hsub] at hroom
      exact hroom
  · show Table.size (t.flows.insert flow ⟨t.nextGeneration + 1, dns⟩) ≤ _
    rw [size_insert_of_notMem _ hnot]
    exact hsize
  · show Table.count dataPort (t.ports.modify flow.target _) ≤ _
    rw [count_modify]
    · exact h.dataPorts_le
    · exact fun _ => rfl
  · show Table.size (t.ports.modify flow.target _) ≤ _
    rw [size_modify]
    exact h.ports_le

/-- After room was made, one more socket of the class fits. -/
theorem room (hroom : t.Room (t.portLimit dns) ports) :
    ports.size < t.maxPorts + dnsPortReserve ∧
      ports.count dataPort + (!dns).toNat ≤ t.maxPorts := by
  have hdata := h.dataPorts_le
  cases hroom with
  | spare below =>
    have hcount : t.ports.count dataPort ≤ t.ports.size := count_le_size
    cases dns with
    | true => exact ⟨below, hdata⟩
    | false =>
      have hlimit : t.portLimit false = t.maxPorts := rfl
      simp only [Bool.not_false, Bool.toNat_true]
      omega
  | @freed e port found unused data =>
    have hsize := size_erase_of_mem (mem_iff_lookup.mpr ⟨port, found⟩)
    have hcount := count_erase (p := dataPort) found
    rw [dataPort, data, Bool.not_false, Bool.toNat_true] at hcount
    have hports := h.ports_le
    have hdns : (!dns).toNat ≤ 1 := Bool.toNat_le _
    omega

theorem admitPort (hadmits : t.admitPort target dns shedding order now = .ok t') : Bounded t' := by
  obtain ⟨-, rfl⟩ | ⟨hnot, ports, hroom, rfl⟩ := admitPort_eq_ok hadmits
  · exact h
  · obtain ⟨hsize, hdata⟩ := h.room hroom
    have hnew : target ∉ ports := by
      cases hroom with
      | spare _ => exact hnot
      | freed => exact fun hmem => hnot (mem_erase.mp hmem).2
    refine ⟨h.counted, h.data_le, h.sessions_le, ?_, ?_⟩
    · show Table.count dataPort (ports.insert target ⟨now, 0, dns⟩) ≤ _
      rw [count_insert_of_notMem hnew]
      exact hdata
    · show Table.size (ports.insert target ⟨now, 0, dns⟩) ≤ _
      rw [size_insert_of_notMem _ hnew]
      exact hsize

end Bounded

/-! ## Every history of admitted operations -/

/-- The tables that operations can lead to, when a session is inserted only after
it was admitted. -/
inductive Admitted (maxSessions maxPorts : Nat) : UdpTable → Prop where
  | new : Admitted maxSessions maxPorts (.new maxSessions maxPorts)
  | admitPort {t t' : UdpTable} {target : IpEndpoint} {dns shedding : Bool}
      {order : List IpEndpoint} {now : Nat} (before : Admitted maxSessions maxPorts t)
      (run : t.admitPort target dns shedding order now = .ok t') :
      Admitted maxSessions maxPorts t'
  | insert {t : UdpTable} {flow : Flow} {dns shedding : Bool}
      (before : Admitted maxSessions maxPorts t)
      (granted : t.admitSession flow dns shedding = some (.ok true)) :
      Admitted maxSessions maxPorts (t.insert flow dns).2
  | ended {t t' flow generation now current} (before : Admitted maxSessions maxPorts t)
      (run : t.ended flow generation now = some (current, t')) : Admitted maxSessions maxPorts t'
  | notice {t : UdpTable} (before : Admitted maxSessions maxPorts t) (flow : Flow) (now : Nat) :
      Admitted maxSessions maxPorts (t.notice flow now).2
  | touch {t : UdpTable} (before : Admitted maxSessions maxPorts t) (e : IpEndpoint) (now : Nat) :
      Admitted maxSessions maxPorts (t.touch now e)
  | expire {t t' idle now} (before : Admitted maxSessions maxPorts t)
      (run : t.expire idle now = some t') : Admitted maxSessions maxPorts t'
  | purge {t : UdpTable} (before : Admitted maxSessions maxPorts t) :
      Admitted maxSessions maxPorts t.purge.2

/-- Every history keeps each class within its share: the induction is on the
operations. -/
theorem bounded_of_admitted {maxSessions maxPorts : Nat}
    (h : Admitted maxSessions maxPorts t) :
    Bounded t ∧ t.maxSessions = maxSessions ∧ t.maxPorts = maxPorts := by
  -- an operation that only shrinks the table
  have shrunk : ∀ {t t' : UdpTable}, Changes t t' →
      Bounded t ∧ t.maxSessions = maxSessions ∧ t.maxPorts = maxPorts →
      Bounded t' ∧ t'.maxSessions = maxSessions ∧ t'.maxPorts = maxPorts :=
    fun hchanges ⟨hb, hs, hp⟩ => ⟨hb.of_shrinks (hchanges.counted hb.counted) hchanges.shrinks,
      hchanges.shrinks.maxSessions.trans hs, hchanges.shrinks.maxPorts.trans hp⟩
  induction h with
  | new => exact ⟨.new _ _, rfl, rfl⟩
  | admitPort _ run ih =>
    refine ⟨ih.1.admitPort run, ?_⟩
    obtain ⟨-, rfl⟩ | ⟨-, ports, -, rfl⟩ := admitPort_eq_ok run <;> exact ih.2
  | insert _ granted ih => exact ⟨ih.1.insert granted, ih.2⟩
  | @ended t t' flow generation now current _ run ih =>
    obtain ⟨b, t₁, hended, hchanges⟩ := ih.1.counted.ended flow generation now
    obtain ⟨-, rfl⟩ := Prod.mk.inj (Option.some.inj (run.symm.trans hended))
    exact shrunk hchanges ih
  | notice _ flow now ih => exact shrunk (changes_notice _ flow now) ih
  | touch _ e now ih => exact shrunk (.single (.touch now e)) ih
  | @expire t t' idle now _ run ih =>
    obtain ⟨t₁, hexpire, hchanges⟩ := ih.1.counted.expire idle now
    obtain rfl := Option.some.inj (run.symm.trans hexpire)
    exact shrunk hchanges ih
  | purge _ ih => exact shrunk (.single .purge) ih

/-- A DNS session fits while fewer than the reserve exist. -/
theorem Bounded.admitSession_dns (h : Bounded t) (hreserve : dnsReserve ≤ t.maxSessions)
    (hnew : flow ∉ t.flows) (hfew : t.flows.count dnsFlow < dnsReserve) (shedding : Bool) :
    t.admitSession flow true shedding = some (.ok true) := by
  have hsplit : t.flows.count dnsFlow + t.flows.count dataFlow = t.flows.size :=
    count_add_count_not dnsFlow t.flows
  have hdata := h.data_le
  have hroom : t.flows.size < t.maxSessions := by omega
  unfold admitSession
  rw [if_neg hnew]
  simp [sessionLimit, hroom]

/-- A DNS target fits while fewer than the reserve exist. -/
theorem Bounded.admitPort_dns (h : Bounded t) (hnew : target ∉ t.ports)
    (hfew : t.ports.count dnsPort < dnsPortReserve) (shedding : Bool) (order : List IpEndpoint)
    (now : Nat) :
    t.admitPort target true shedding order now =
      .ok { t with ports := t.ports.insert target ⟨now, 0, true⟩ } := by
  have hsplit : t.ports.count dnsPort + t.ports.count dataPort = t.ports.size :=
    count_add_count_not dnsPort t.ports
  have hdata := h.dataPorts_le
  have hroom : ¬ t.portLimit true ≤ t.ports.size := by
    show ¬ t.maxPorts + dnsPortReserve ≤ _
    omega
  unfold UdpTable.admitPort
  simp [hnew, hroom]

/-- **Data traffic cannot starve DNS**: after every history of admitted operations the
data sessions and the data sockets are within their shares, a new DNS flow or DNS
target is granted its session or socket while the reserve is not used up, whether or
not the memory guard is refusing, and the totals are bounded. -/
theorem dns_not_starved {maxSessions maxPorts : Nat} (hmax : 16 ≤ maxSessions)
    (h : Admitted maxSessions maxPorts t) :
    t.flows.count dataFlow ≤ maxSessions - 16 ∧ t.ports.count dataPort ≤ maxPorts ∧
    (∀ flow shedding, flow ∉ t.flows → t.flows.count dnsFlow < 16 →
      t.admitSession flow true shedding = some (.ok true)) ∧
    (∀ target shedding order now, target ∉ t.ports → t.ports.count dnsPort < 4 →
      ∃ t', t.admitPort target true shedding order now = .ok t' ∧ target ∈ t'.ports) ∧
    t.flows.size ≤ maxSessions ∧ t.ports.size ≤ maxPorts + 4 := by
  obtain ⟨hb, rfl, rfl⟩ := bounded_of_admitted h
  refine ⟨hb.data_le, hb.dataPorts_le, ?_, ?_, hb.sessions_le, hb.ports_le⟩
  · intro flow shedding hnew hfew
    exact hb.admitSession_dns hmax hnew hfew shedding
  · intro target shedding order now hnew hfew
    refine ⟨_, hb.admitPort_dns hnew hfew shedding order now, ?_⟩
    exact (mem_insert _).mpr (.inl rfl)

/-- With one data session the share of the data flows is used up, and DNS still gets
its session and its socket. -/
theorem dns_not_starved_full :
    ∃ t : UdpTable, Admitted 17 1 t ∧ t.flows.count dataFlow = 1 ∧ t.ports.count dataPort = 1 ∧
      t.admitSession ⟨⟨.v4 1, 5⟩, ⟨.v4 9, 443⟩, false⟩ false false = some (.error .sessions) ∧
      t.admitSession ⟨⟨.v4 1, 1⟩, ⟨.v4 8, 53⟩, false⟩ true true = some (.ok true) ∧
      ∃ t', t.admitPort ⟨.v4 8, 53⟩ true true [] 0 = .ok t' ∧ ⟨.v4 8, 53⟩ ∈ t'.ports := by
  have hport : Admitted 17 1 _ := .admitPort .new
    (show (UdpTable.new 17 1).admitPort ⟨.v4 9, 443⟩ false false [] 0 = .ok _ from rfl)
  have hsession := @Admitted.insert 17 1 _ ⟨⟨.v4 1, 4⟩, ⟨.v4 9, 443⟩, false⟩ false false hport rfl
  obtain ⟨-, -, hgrant, hsocket, -⟩ := dns_not_starved (by decide) hsession
  refine ⟨_, hsession, rfl, rfl, rfl, ?_, ?_⟩
  · exact hgrant _ true (by decide) (by decide)
  · exact hsocket _ true [] 0 (by decide) (by decide)

/-! ## Exact counters -/

/-- Every counter is exact, every session has its target's socket, and a session is
known by its generation. -/
structure Consistent (t : UdpTable) : Prop where
  counted : Counted t
  sessions : ∀ {e port}, t.ports.lookup e = some port → port.sessions = t.flows.count (onTarget e)
  ported : ∀ {f}, f ∈ t.flows → f.target ∈ t.ports
  issued : ∀ {f u}, t.flows.lookup f = some u → u.generation ≤ t.nextGeneration
  distinct : ∀ {f f' u u'}, t.flows.lookup f = some u → t.flows.lookup f' = some u' →
    u.generation = u'.generation → f = f'

namespace Consistent

theorem new (maxSessions maxPorts : Nat) : Consistent (UdpTable.new maxSessions maxPorts) where
  counted := rfl
  sessions h := by cases h
  ported h := by cases h
  issued h := by cases h
  distinct h := by cases h

variable (h : Consistent t)
include h

/-- A socket without sessions has no flow on it. -/
theorem target_ne {port : UdpPort} (hport : t.ports.lookup e = some port)
    (hunused : port.sessions = 0) {f : Flow} (hf : f ∈ t.flows) : f.target ≠ e := by
  intro htarget
  obtain ⟨u, hu⟩ := mem_iff_lookup.mp hf
  have hzero := count_eq_zero.mp ((h.sessions hport).symm.trans hunused) f u hu
  rw [onTarget, htarget, beq_self_eq_true] at hzero
  cases hzero

/-- A socket that no flow is on may go. -/
theorem erasePort (hfree : ∀ f ∈ t.flows, f.target ≠ e) :
    Consistent { t with ports := t.ports.erase e } where
  counted := h.counted
  sessions hport := h.sessions (lookup_erase_iff.mp hport).2
  ported hf := mem_erase.mpr ⟨hfree _ hf, h.ported hf⟩
  issued := h.issued
  distinct := h.distinct

/-- A new socket has no sessions yet. -/
theorem insertPort (hnew : target ∉ t.ports) (now : Nat) (dns : Bool) :
    Consistent { t with ports := t.ports.insert target ⟨now, 0, dns⟩ } where
  counted := h.counted
  sessions {e port} hport := by
    rcases lookup_insert_iff.mp hport with ⟨rfl, rfl⟩ | ⟨-, hport⟩
    · refine (count_eq_zero.mpr fun f u hu => ?_).symm
      have hf := h.ported (mem_iff_lookup.mpr ⟨u, hu⟩)
      refine beq_eq_false_iff_ne.mpr fun htarget => hnew ?_
      rwa [← htarget]
    · exact h.sessions hport
  ported hf := (mem_insert _).mpr (.inr (h.ported hf))
  issued := h.issued
  distinct := h.distinct

theorem admitPort
    (hadmits : t.admitPort target dns shedding order now = .ok t') : Consistent t' := by
  obtain ⟨-, rfl⟩ | ⟨hnot, ports, hroom, rfl⟩ := admitPort_eq_ok hadmits
  · exact h
  · cases hroom with
    | spare _ => exact h.insertPort hnot now dns
    | @freed e port found unused _ =>
      have hfreed := h.erasePort fun f hf => h.target_ne found unused hf
      exact hfreed.insertPort (fun hmem => hnot (mem_erase.mp hmem).2) now dns

/-- Only the sessions in the entries of the sockets matter. -/
theorem of_ports
    (hsame : ∀ e, (ports.lookup e).map UdpPort.sessions = (t.ports.lookup e).map UdpPort.sessions) :
    Consistent { t with ports := ports } where
  counted := h.counted
  sessions {e port} hport := by
    have heq := hsame e
    rw [hport, map_some, eq_comm, map_eq_some_iff] at heq
    obtain ⟨port', hport', hsessions⟩ := heq
    rw [← hsessions]
    exact h.sessions hport'
  ported {f} hf := by
    obtain ⟨port, hport⟩ := mem_iff_lookup.mp (h.ported hf)
    have heq := hsame f.target
    rw [hport, map_some, map_eq_some_iff] at heq
    obtain ⟨port', hport', -⟩ := heq
    exact mem_iff_lookup.mpr ⟨port', hport'⟩
  issued := h.issued
  distinct := h.distinct

theorem touch (e : IpEndpoint) (now : Nat) : Consistent (t.touch now e) := by
  refine h.of_ports fun e' => ?_
  rw [lookup_modify]
  split
  · next heq =>
    subst heq
    simp [Function.comp_def]
  · rfl

/-- A new session on a target that has its socket. -/
theorem insert (hnew : flow ∉ t.flows) (hport : flow.target ∈ t.ports)
    (dns : Bool) : Consistent (t.insert flow dns).2 where
  counted := by
    show (if dns then t.dnsSessions + 1 else t.dnsSessions) = _
    rw [UdpTable.insert, count_insert_of_notMem hnew, show t.dnsSessions = _ from h.counted]
    cases dns <;> rfl
  sessions {e port} he := by
    have hlookup : (t.ports.modify flow.target fun port =>
        { port with sessions := port.sessions + 1 }).lookup e = some port := he
    show port.sessions = Table.count (onTarget e) (t.flows.insert flow ⟨_, dns⟩)
    rw [count_insert_of_notMem hnew]
    rw [lookup_modify] at hlookup
    split at hlookup
    · next heq =>
      subst heq
      obtain ⟨port₀, hport₀, rfl⟩ := map_eq_some_iff.mp hlookup
      simp [onTarget, h.sessions hport₀]
    · next hne => simp [onTarget, h.sessions hlookup, Ne.symm hne]
  ported {f} hf := by
    rcases (mem_insert _).mp hf with rfl | hf
    · exact mem_modify.mpr hport
    · exact mem_modify.mpr (h.ported hf)
  issued {f u} hf := by
    show u.generation ≤ t.nextGeneration + 1
    rcases lookup_insert_iff.mp hf with ⟨rfl, rfl⟩ | ⟨-, hf⟩
    · exact le_rfl
    · exact (h.issued hf).trans (Nat.le_succ _)
  distinct {f f' u u'} hf hf' hgen := by
    -- the generation of the new session is above every other
    have hfresh : ∀ {f u}, t.flows.lookup f = some u → u.generation ≠ t.nextGeneration + 1 :=
      fun hf => Nat.ne_of_lt (Nat.lt_succ_of_le (h.issued hf))
    rcases lookup_insert_iff.mp hf with ⟨rfl, rfl⟩ | ⟨-, hold⟩
    · rcases lookup_insert_iff.mp hf' with ⟨rfl, -⟩ | ⟨-, hold'⟩
      · rfl
      · exact absurd hgen.symm (hfresh hold')
    · rcases lookup_insert_iff.mp hf' with ⟨rfl, rfl⟩ | ⟨-, hold'⟩
      · exact absurd hgen (hfresh hold)
      · exact h.distinct hold hold' hgen

theorem change (hchange : Change t t') : Consistent t' := by
  have hcounted := hchange.counted h.counted
  cases hchange with
  | @flow flow state n now there count =>
    refine ⟨hcounted, ?_, ?_, ?_, ?_⟩
    · intro e port he
      have hcount := count_erase (p := onTarget e) there
      have hlookup : (t.ports.modify flow.target fun port =>
          { port with sessions := port.sessions - 1, last := max port.last now }).lookup e =
          some port := he
      show port.sessions = Table.count (onTarget e) (t.flows.erase flow)
      rw [lookup_modify] at hlookup
      split at hlookup
      · next heq =>
        subst heq
        obtain ⟨port₀, hport₀, rfl⟩ := map_eq_some_iff.mp hlookup
        have hsessions := h.sessions hport₀
        simp only [onTarget, beq_self_eq_true, Bool.toNat_true] at hcount
        show port₀.sessions - 1 = _
        omega
      · next hne =>
        have hother : onTarget e flow state = false := beq_eq_false_iff_ne.mpr (Ne.symm hne)
        rw [hother, Bool.toNat_false, Nat.add_zero] at hcount
        rw [h.sessions hlookup, hcount]
    · intro f hf
      exact mem_modify.mpr (h.ported (mem_erase.mp hf).2)
    · intro f u hf
      exact h.issued (lookup_erase_iff.mp hf).2
    · intro f f' u u' hf hf' hgen
      exact h.distinct (lookup_erase_iff.mp hf).2 (lookup_erase_iff.mp hf').2 hgen
  | port unused => exact h.erasePort unused
  | touch now e => exact h.touch e now
  | noticed => exact ⟨h.counted, h.sessions, h.ported, h.issued, h.distinct⟩
  | purge =>
    exact ⟨rfl, (fun h => by cases h), (fun h => by cases h), (fun h => by cases h),
      fun h => by cases h⟩

theorem changes (hchanges : Changes t t') : Consistent t' := by
  induction hchanges with
  | refl => exact h
  | tail _ hchange ih => exact ih.change hchange

end Consistent

end UdpTable

end Clyntis.Core
