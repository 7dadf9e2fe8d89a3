import Clyntis.Core.FakeCursor
import Clyntis.Lib.Sorted

/-!
# Invariants of the fake-IP map

- `LastAt`: where a name was last queried in the history;
- `Inv`: the two tables mirror each other, every live pair is in the queue, the
  queue is sorted, and the stamps tell when a name was last queried;
- `Eviction.DropsOldest`: what one eviction should do;
- `Reachable`: the maps a resolver can get to, and `reachable_inv` over all of
  them.
-/

namespace Clyntis.Core

open Lib Net List Option Table

/-- The last occurrence of `k` in a history is at index `i`. -/
def LastAt {K : Type} (history : List K) (k : K) (i : Nat) : Prop :=
  history[i]? = some k ∧ ∀ j, i < j → history[j]? ≠ some k

namespace LastAt

variable {K : Type} {history : List K} {k k' : K} {i : Nat}

/-- The newest entry of a history is its own last occurrence. -/
theorem concat (history : List K) (k : K) : LastAt (history ++ [k]) k history.length := by
  refine ⟨by simp, fun j hj hget => ?_⟩
  have hlt := (List.getElem?_eq_some_iff.mp hget).1
  rw [List.length_append, List.length_singleton] at hlt
  omega

/-- A new entry leaves the last occurrences of the others where they were. -/
theorem append_ne (h : LastAt history k i) (hne : k ≠ k') :
    LastAt (history ++ [k']) k i := by
  have hlt := (List.getElem?_eq_some_iff.mp h.1).1
  refine ⟨by rw [List.getElem?_append_left hlt]; exact h.1, fun j hj hget => ?_⟩
  by_cases hold : j < history.length
  · rw [List.getElem?_append_left hold] at hget
    exact h.2 j hj hget
  · rw [List.getElem?_append_right (by omega)] at hget
    have hmem := List.mem_of_getElem? hget
    exact hne (List.mem_singleton.mp hmem)

/-- One place of a history holds one entry. -/
theorem unique_key (h : LastAt history k i) (h' : LastAt history k' i) : k = k' :=
  Option.some.inj (h.1.symm.trans h'.1)

end LastAt

/-- The eviction dropped exactly the mapping that was queried longest ago. -/
def Eviction.DropsOldest (e : Eviction) : Prop :=
  ∃ key ip, (∃ stamp, e.byName.lookup key = some (ip, stamp)) ∧
    (∀ key' ip' stamp', e.byName.lookup key' = some (ip', stamp') → key' ≠ key →
      ∃ i j, LastAt e.queries key i ∧ LastAt e.queries key' j ∧ i < j) ∧
    e.byNameAfter = e.byName.erase key ∧ e.byIpAfter = e.byIp.erase ip

namespace FakeMap

/-- The invariant that every operation keeps. -/
structure Inv (m : FakeMap) : Prop where
  mirror : ∀ name v6 ip, (∃ stamp, m.byName.lookup (name, v6) = some (ip, stamp)) ↔
    m.byIp.lookup ip = some name ∧ ip.isIpv6 = v6
  queued : ∀ {key ip stamp}, m.byName.lookup key = some (ip, stamp) → (ip, stamp) ∈ m.order
  sorted : m.order.Pairwise fun a b => a.2 < b.2
  stamped : ∀ e ∈ m.order, e.2 ≤ m.stamp
  counted : m.queries.length = m.stamp
  latest : ∀ {key ip stamp}, m.byName.lookup key = some (ip, stamp) →
    0 < stamp ∧ LastAt m.queries key (stamp - 1)
  dropped : ∀ e ∈ m.evictions, e.DropsOldest

theorem inv_new (capacity : Nat) : Inv (new capacity) where
  mirror name v6 ip := by
    constructor
    · rintro ⟨stamp, h⟩
      cases h
    · rintro ⟨h, -⟩
      cases h
  queued h := nomatch h
  sorted := .nil
  stamped e he := nomatch he
  counted := rfl
  latest h := nomatch h
  dropped e he := nomatch he

namespace Inv

variable {m : FakeMap} {stamp : Nat} {ip' : IpAddr} {key' : FakeKey} {ip : IpAddr} {key : FakeKey}
  (h : Inv m)
include h

variable (hkey : m.byName.lookup key = some (ip, stamp))
include hkey

/-- The name behind a live address. -/
theorem byIp_of_byName : m.byIp.lookup ip = some key.1 ∧ ip.isIpv6 = key.2 :=
  (h.mirror key.1 key.2 ip).mp ⟨stamp, hkey⟩

/-- Two mappings with one stamp are the same mapping. -/
theorem key_of_stamp (hkey' : m.byName.lookup key' = some (ip', stamp)) : key = key' :=
  (h.latest hkey).2.unique_key (h.latest hkey').2

/-- A stamp of a live mapping has been given out. -/
theorem stamp_le : stamp ≤ m.stamp :=
  h.stamped _ (h.queued hkey)

omit hkey

/-- A query is stamped: its name gets the newest stamp and the others keep theirs. -/
theorem query {byIp : Table IpAddr Text} (generation : Nat)
    (hmirror : ∀ name v6 ip', (∃ stamp, (m.byName.insert key (ip, m.stamp + 1)).lookup (name, v6) =
      some (ip', stamp)) ↔ byIp.lookup ip' = some name ∧ ip'.isIpv6 = v6) :
    Inv { m with
      stamp := m.stamp + 1
      generation := generation
      order := m.order ++ [(ip, m.stamp + 1)]
      byIp := byIp
      byName := m.byName.insert key (ip, m.stamp + 1)
      queries := m.queries ++ [key] } where
  mirror := hmirror
  queued h' := by
    rcases lookup_insert_iff.mp h' with ⟨-, hval⟩ | ⟨-, hold⟩
    · rw [hval]
      exact mem_append_right _ (mem_singleton_self _)
    · exact mem_append_left _ (h.queued hold)
  sorted := by
    refine pairwise_append.mpr ⟨h.sorted, pairwise_singleton _ _, fun a ha b hb => ?_⟩
    rw [mem_singleton.mp hb]
    exact Nat.lt_succ_of_le (h.stamped a ha)
  stamped e he := by
    rcases mem_append.mp he with hold | hnew
    · exact Nat.le_succ_of_le (h.stamped e hold)
    · rw [mem_singleton.mp hnew]
  counted := by
    rw [length_append, h.counted]
    rfl
  latest h' := by
    rcases lookup_insert_iff.mp h' with ⟨rfl, hval⟩ | ⟨hne, hold⟩
    · obtain ⟨-, rfl⟩ := Prod.mk.inj hval
      refine ⟨Nat.succ_pos _, ?_⟩
      rw [← h.counted]
      exact .concat _ _
    · obtain ⟨hpos, hlast⟩ := h.latest hold
      exact ⟨hpos, hlast.append_ne hne⟩
  dropped := h.dropped

/-- A query of a mapped name. -/
theorem touch (hkey : m.byName.lookup key = some (ip, stamp)) : Inv (m.touch key ip) := by
  refine h.query m.generation fun name v6 ip' => Iff.trans ?_ (h.mirror name v6 ip')
  constructor
  · rintro ⟨stamp', h'⟩
    rcases lookup_insert_iff.mp h' with ⟨rfl, hval⟩ | ⟨-, hold⟩
    · obtain ⟨rfl, -⟩ := Prod.mk.inj hval
      exact ⟨stamp, hkey⟩
    · exact ⟨stamp', hold⟩
  · rintro ⟨stamp', hold⟩
    by_cases hsame : (name, v6) = key
    · -- the queried name keeps its address under the new stamp
      subst hsame
      rw [hkey] at hold
      obtain ⟨rfl, -⟩ := Prod.mk.inj (Option.some.inj hold)
      exact ⟨m.stamp + 1, lookup_insert_iff.mpr (.inl ⟨rfl, rfl⟩)⟩
    · exact ⟨stamp', lookup_insert_iff.mpr (.inr ⟨hsame, hold⟩)⟩

/-- A new mapping of an unmapped name to an unmapped address. -/
theorem insert {name : Text} (hip : m.byIp.lookup ip = none)
    (hname : m.byName.lookup (name, ip.isIpv6) = none) : Inv (m.insert name ip) := by
  refine h.query (m.generation + 1) fun name' v6 ip' => ?_
  constructor
  · rintro ⟨stamp, h'⟩
    rcases lookup_insert_iff.mp h' with ⟨hkey, hval⟩ | ⟨-, hold⟩
    · obtain ⟨rfl, rfl⟩ := Prod.mk.inj hkey
      obtain ⟨rfl, -⟩ := Prod.mk.inj hval
      exact ⟨lookup_insert_iff.mpr (.inl ⟨rfl, rfl⟩), rfl⟩
    · obtain ⟨hby, hv6⟩ := h.byIp_of_byName hold
      refine ⟨lookup_insert_iff.mpr (.inr ⟨?_, hby⟩), hv6⟩
      rintro rfl
      rw [hip] at hby
      cases hby
  · rintro ⟨hby, rfl⟩
    rcases lookup_insert_iff.mp hby with ⟨rfl, rfl⟩ | ⟨-, hold⟩
    · exact ⟨m.stamp + 1, lookup_insert_iff.mpr (.inl ⟨rfl, rfl⟩)⟩
    · obtain ⟨stamp, hkey⟩ := (h.mirror name' ip'.isIpv6 ip').mpr ⟨hold, rfl⟩
      refine ⟨stamp, lookup_insert_iff.mpr (.inr ⟨?_, hkey⟩)⟩
      intro hsame
      rw [hsame, hname] at hkey
      cases hkey

/-- The stamps of the live mappings are distinct. -/
theorem nodup_stamps : m.byName.values.Pairwise fun a b => a.2 ≠ b.2 := by
  have hkeys : m.byName.entries.Pairwise fun a b => a.1 ≠ b.1 :=
    nodupKeys_iff_pairwise.mp m.byName.nodupKeys
  show (m.byName.entries.map Sigma.snd).Pairwise _
  rw [pairwise_map]
  refine hkeys.imp_of_mem fun {a b} ha hb hne hstamp => hne ?_
  have hka : m.byName.lookup a.1 = some (a.2.1, a.2.2) := lookup_eq_some_iff.mpr ha
  have hkb : m.byName.lookup b.1 = some (b.2.1, a.2.2) := by
    rw [hstamp]
    exact lookup_eq_some_iff.mpr hb
  exact h.key_of_stamp hka hkb

/-- `compact` keeps the live pairs, sorted. -/
theorem compact : Inv m.compact where
  mirror := h.mirror
  queued hkey := mem_mergeSort.mpr (mem_values.mpr ⟨_, hkey⟩)
  sorted := pairwise_mergeSort_lt Prod.snd h.nodup_stamps
  stamped e he := by
    obtain ⟨key, hkey⟩ := mem_values.mp (mem_mergeSort.mp he)
    exact h.stamp_le hkey
  counted := h.counted
  latest := h.latest
  dropped := h.dropped

end Inv

/-! ## Eviction -/

/-- What the loop of `evict` comes to on the queue `order`: the mapping of its
first live pair is dropped, and every live pair is there or behind it. -/
structure FirstLiveDropped (m : FakeMap) (order : List (IpAddr × Nat)) (key : FakeKey)
    (ip : IpAddr) (stamp : Nat) (rest : List (IpAddr × Nat)) : Prop where
  mapped : m.byName.lookup key = some (ip, stamp)
  suffix : (ip, stamp) :: rest <:+ order
  behind : ∀ {key' ip' stamp'}, m.byName.lookup key' = some (ip', stamp') →
    (ip', stamp') ∈ (ip, stamp) :: rest
  result : m.evictFrom order =
    { m with
      order := rest
      byName := m.byName.erase key
      byIp := m.byIp.erase ip
      generation := m.generation + 1 }

variable {m m' : FakeMap} {key : FakeKey} {ip : IpAddr} (h : Inv m)
include h

/-- The loop of `evict` on a queue that still holds every live pair. The induction
is on the queue: a stale pair in front is no live mapping's, so the rest holds
them all. -/
theorem Inv.evictFrom (hsome : ∃ key, key ∈ m.byName) :
    ∀ order : List (IpAddr × Nat),
      (∀ {key ip stamp}, m.byName.lookup key = some (ip, stamp) → (ip, stamp) ∈ order) →
      ∃ key ip stamp rest, FirstLiveDropped m order key ip stamp rest := by
  intro order hqueued
  induction order with
  | nil =>
    obtain ⟨key, hkey⟩ := hsome
    obtain ⟨⟨ip, stamp⟩, hlook⟩ := mem_iff_lookup.mp hkey
    exact absurd (hqueued hlook) not_mem_nil
  | cons e rest ih =>
    obtain ⟨ip, stamp⟩ := e
    -- what to do once the front pair is known to be stale
    have skip : (∀ key, m.byName.lookup key ≠ some (ip, stamp)) →
        m.evictFrom ((ip, stamp) :: rest) = m.evictFrom rest →
        ∃ key ip' stamp' rest',
          FirstLiveDropped m ((ip, stamp) :: rest) key ip' stamp' rest' := by
      intro hstale hnext
      have hrest : ∀ {key ip' stamp'}, m.byName.lookup key = some (ip', stamp') →
          (ip', stamp') ∈ rest := by
        intro key ip' stamp' hkey
        rcases mem_cons.mp (hqueued hkey) with heq | hmem
        · rw [heq] at hkey
          exact absurd hkey (hstale key)
        · exact hmem
      obtain ⟨key, ip', stamp', rest', hdrop⟩ := ih hrest
      exact ⟨key, ip', stamp', rest', hdrop.mapped,
        hdrop.suffix.trans (suffix_cons _ _), hdrop.behind, hnext.trans hdrop.result⟩
    cases hby : m.byIp.lookup ip with
    | none =>
      refine skip (fun key hkey => ?_) (by simp only [FakeMap.evictFrom, hby])
      rw [(h.byIp_of_byName hkey).1] at hby
      cases hby
    | some name =>
      obtain ⟨stamp', hkey⟩ := (h.mirror name ip.isIpv6 ip).mpr ⟨hby, rfl⟩
      by_cases hlive : stamp' = stamp
      · subst hlive
        refine ⟨(name, ip.isIpv6), ip, stamp', rest, hkey, suffix_refl _, hqueued, ?_⟩
        simp only [FakeMap.evictFrom, hby, hkey, any_some, beq_self_eq_true, if_true]
      · refine skip (fun key hkey' => ?_) ?_
        · -- a live pair with this address belongs to this name
          obtain ⟨hname, hv6⟩ := h.byIp_of_byName hkey'
          rw [hby] at hname
          have hsame : key = (name, ip.isIpv6) :=
            Prod.ext (Option.some.inj hname).symm hv6.symm
          rw [hsame, hkey] at hkey'
          exact hlive (Prod.mk.inj (Option.some.inj hkey')).2
        · have hbeq : (stamp' == stamp) = false := by simpa using hlive
          simp only [FakeMap.evictFrom, hby, hkey, any_some, hbeq, Bool.false_eq_true, if_false]

/-- The first live pair of the queue is the mapping queried longest ago. -/
theorem Inv.oldest {stamp : Nat}
    {rest : List (IpAddr × Nat)} (hdrop : FirstLiveDropped m m.order key ip stamp rest)
    {key' : FakeKey} {ip' : IpAddr} {stamp' : Nat}
    (hkey' : m.byName.lookup key' = some (ip', stamp')) (hne : key' ≠ key) :
    ∃ i j, LastAt m.queries key i ∧ LastAt m.queries key' j ∧ i < j := by
  obtain ⟨hpos, hlast⟩ := h.latest hdrop.mapped
  obtain ⟨hpos', hlast'⟩ := h.latest hkey'
  refine ⟨stamp - 1, stamp' - 1, hlast, hlast', ?_⟩
  rcases mem_cons.mp (hdrop.behind hkey') with heq | hmem
  · obtain ⟨-, rfl⟩ := Prod.mk.inj heq
    exact absurd (h.key_of_stamp hkey' hdrop.mapped) hne
  · have hsorted := h.sorted.sublist hdrop.suffix.sublist
    have hlt : stamp < stamp' := (pairwise_cons.mp hsorted).1 _ hmem
    omega

/-- Without one mapping the tables still mirror each other: any other mapping has
another name and another address. -/
theorem Inv.mirror_erase {stamp : Nat}
    (hkey : m.byName.lookup key = some (ip, stamp)) (name : Text) (v6 : Bool) (ip' : IpAddr) :
    (∃ stamp, (m.byName.erase key).lookup (name, v6) = some (ip', stamp)) ↔
      (m.byIp.erase ip).lookup ip' = some name ∧ ip'.isIpv6 = v6 := by
  obtain ⟨hname, hv6⟩ := h.byIp_of_byName hkey
  constructor
  · rintro ⟨stamp', h'⟩
    obtain ⟨hne, hold⟩ := lookup_erase_iff.mp h'
    obtain ⟨hby, hv6'⟩ := h.byIp_of_byName hold
    refine ⟨lookup_erase_iff.mpr ⟨?_, hby⟩, hv6'⟩
    rintro rfl
    rw [hname] at hby
    exact hne (Prod.ext (Option.some.inj hby).symm (hv6'.symm.trans hv6))
  · rintro ⟨h', rfl⟩
    obtain ⟨hne, hby⟩ := lookup_erase_iff.mp h'
    obtain ⟨stamp', hkey'⟩ := (h.mirror name ip'.isIpv6 ip').mpr ⟨hby, rfl⟩
    refine ⟨stamp', lookup_erase_iff.mpr ⟨?_, hkey'⟩⟩
    intro hsame
    rw [hsame, hkey] at hkey'
    exact hne (Prod.mk.inj (Option.some.inj hkey')).1.symm

/-- **One eviction drops exactly the least recently queried mapping**: it keeps
the invariant, and the number of mappings goes down by one. -/
theorem Inv.evict (hsome : ∃ key, key ∈ m.byName) :
    Inv m.evict ∧ m.evict.byName.size + 1 = m.byName.size ∧ m.evict.capacity = m.capacity ∧
      ∀ key, m.byName.lookup key = none → m.evict.byName.lookup key = none := by
  obtain ⟨key, ip, stamp, rest, hdrop⟩ := h.evictFrom hsome m.order h.queued
  unfold FakeMap.evict
  rw [hdrop.result]
  refine ⟨?_, ?_, rfl, ?_⟩
  · constructor
    case mirror => exact h.mirror_erase hdrop.mapped
    case queued =>
      intro key' ip' stamp' h'
      obtain ⟨hne, hold⟩ := lookup_erase_iff.mp h'
      rcases mem_cons.mp (hdrop.behind hold) with heq | hmem
      · obtain ⟨-, rfl⟩ := Prod.mk.inj heq
        exact absurd (h.key_of_stamp hold hdrop.mapped) hne
      · exact hmem
    case sorted => exact (h.sorted.sublist hdrop.suffix.sublist).of_cons
    case stamped =>
      intro e he
      exact h.stamped e (hdrop.suffix.subset (mem_cons_of_mem _ he))
    case counted => exact h.counted
    case latest =>
      intro key' ip' stamp' h'
      exact h.latest (lookup_erase_iff.mp h').2
    case dropped =>
      intro e he
      rcases mem_append.mp he with hold | hnew
      · exact h.dropped e hold
      · rw [mem_singleton] at hnew
        subst hnew
        refine ⟨key, ip, ⟨stamp, hdrop.mapped⟩, ?_, rfl, rfl⟩
        intro key' ip' stamp' hkey' hne
        exact h.oldest hdrop hkey' hne
  · exact size_erase_of_mem (mem_iff_lookup.mpr ⟨_, hdrop.mapped⟩)
  · intro key' hnone
    by_cases hsame : key' = key
    · rw [hsame, hdrop.mapped] at hnone
      cases hnone
    · exact (AList.lookup_erase_ne hsame).trans hnone

/-! ## Allocation -/

/-- The invariant does not look at the pool counters, the capacity and the generation. -/
theorem Inv.of_counters (next4 next6 capacity generation : Nat) : Inv { m with
      next4 := next4, next6 := next6, capacity := capacity, generation := generation } :=
  ⟨h.mirror, h.queued, h.sorted, h.stamped, h.counted, h.latest, h.dropped⟩

theorem Inv.sameMappings (hsame : SameMappings m m') : Inv m' := by
  obtain ⟨next4, next6, rfl⟩ := hsame
  exact h.of_counters next4 next6 m.capacity m.generation

/-! ## Shrinking -/

/-- The shrinking loop ends: each round drops one mapping, so as many rounds as
there are mappings are enough. -/
theorem Inv.shrink_returns :
    ∃ m', ∀ fuel, m.byName.size ≤ fuel → FakeMap.shrink fuel m = some m' := by
  generalize hn : m.byName.size = n
  induction n generalizing m with
  | zero =>
    have hfits : ¬ m.capacity < m.byName.size := by omega
    refine ⟨m, fun fuel _ => ?_⟩
    cases fuel with
    | zero | succ => exact if_neg hfits
  | succ n ih =>
    by_cases hover : m.capacity < m.byName.size
    · obtain ⟨hinv, hsize, -⟩ := h.evict (exists_mem_of_size_pos (by omega))
      obtain ⟨m', hrun⟩ := ih hinv (by omega)
      refine ⟨m', fun fuel hfuel => ?_⟩
      cases fuel with
      | zero => omega
      | succ fuel => exact (if_pos hover).trans (hrun fuel (by omega))
    · refine ⟨m, fun fuel _ => ?_⟩
      cases fuel with
      | zero | succ => exact if_neg hover

omit h

variable {fuel : Nat}

/-- What every eviction keeps, the loop keeps, and it stops within the capacity. -/
theorem shrink_keeps {P : FakeMap → Prop}
    (hevict : ∀ m, P m → m.capacity < m.byName.size → P m.evict) (h : P m)
    (hrun : FakeMap.shrink fuel m = some m') : P m' ∧ m'.byName.size ≤ m'.capacity := by
  induction fuel generalizing m with
  | zero =>
    unfold FakeMap.shrink at hrun
    split at hrun
    · cases hrun
    · next hfits =>
      cases hrun
      exact ⟨h, Nat.le_of_not_lt hfits⟩
  | succ fuel ih =>
    unfold FakeMap.shrink at hrun
    split at hrun
    · next hover => exact ih (hevict m h hover) hrun
    · next hfits =>
      cases hrun
      exact ⟨h, Nat.le_of_not_lt hfits⟩

theorem Inv.shrink (h : Inv m) (hrun : FakeMap.shrink fuel m = some m') :
    (Inv m' ∧ m'.capacity = m.capacity) ∧ m'.byName.size ≤ m'.capacity := by
  refine shrink_keeps (P := fun m' => Inv m' ∧ m'.capacity = m.capacity) (fun m₁ hm₁ hover => ?_)
    ⟨h, rfl⟩ hrun
  obtain ⟨hinv, -, hcap, -⟩ := hm₁.1.evict (exists_mem_of_size_pos (by omega))
  exact ⟨hinv, hcap.trans hm₁.2⟩

/-- The invariant, within the capacity. -/
structure Bounded (m : FakeMap) : Prop extends Inv m where
  size_le : m.byName.size ≤ m.capacity
  capacity_pos : 1 ≤ m.capacity

/-- Making room for one mapping. -/
theorem Bounded.makeRoom (h : Bounded m) (hkey : m.byName.lookup key = none) :
    Inv m.room ∧ m.room.byName.size < m.capacity ∧ m.room.capacity = m.capacity ∧
      m.room.byName.lookup key = none := by
  have hle := h.size_le
  have hpos := h.capacity_pos
  unfold room
  split
  · have hsome : ∃ key, key ∈ m.byName := exists_mem_of_size_pos (by omega)
    obtain ⟨hinv, hsize, hcap, hnone⟩ := h.toInv.evict hsome
    exact ⟨hinv, by omega, hcap, hnone key hkey⟩
  · exact ⟨h.toInv, by omega, rfl, hkey⟩

end FakeMap

open FakeMap

/-! ## The resolver's operations -/

variable {cfg : FakeConfig} {m built : FakeMap} {entries : List (Text × IpAddr)}
  {entry : Text × IpAddr} {r : Except String Unit}

/-- `fake_address` keeps the invariant and the bound, also when it fails. -/
theorem bounded_fakeAddress (h : Bounded m) (host : Text) (v6 : Bool) :
    Bounded (fakeAddress cfg m host v6).2 := by
  have hanswer := fakeAddress_answer cfg m host v6
  have hle := h.size_le
  have hpos := h.capacity_pos
  generalize fakeAddress cfg m host v6 = out at hanswer
  cases hanswer with
  | unsupported hname => exact h
  | @known ip stamp hname hkey =>
    have hsize : Table.size (m.touch (host, v6) ip).byName = m.byName.size :=
      size_insert_of_mem _ (mem_iff_lookup.mpr ⟨_, hkey⟩)
    have htouch := h.toInv.touch hkey
    split
    · exact ⟨htouch.compact, hsize.trans_le hle, hpos⟩
    · exact ⟨htouch, hsize.trans_le hle, hpos⟩
  | @failed e got hname hkey htried =>
    obtain ⟨hinv, hsize, hcap, -⟩ := h.makeRoom hkey
    have hgot := hinv.sameMappings htried.same
    obtain ⟨next4, next6, rfl⟩ := htried.same
    exact ⟨hgot, by show m.room.byName.size ≤ m.room.capacity; omega,
      by show 1 ≤ m.room.capacity; omega⟩
  | @added ip got hname hkey htried =>
    obtain ⟨hinv, hsize, hcap, hnone⟩ := h.makeRoom hkey
    obtain ⟨hv6, hfree⟩ := htried.fresh
    have hgot := hinv.sameMappings htried.same
    obtain ⟨next4, next6, rfl⟩ := htried.same
    subst hv6
    refine ⟨hgot.insert hfree hnone, ?_, by show 1 ≤ m.room.capacity; omega⟩
    have hnew : Table.size (m.room.byName.insert (host, ip.isIpv6) (ip, m.room.stamp + 1))
        = m.room.byName.size + 1 := by
      refine size_insert_of_notMem _ fun hmem => ?_
      obtain ⟨v, hv⟩ := mem_iff_lookup.mp hmem
      rw [hnone] at hv
      cases hv
    show Table.size (m.room.byName.insert (host, ip.isIpv6) (ip, m.room.stamp + 1))
      ≤ m.room.capacity
    omega

/-- `set_fake_capacity` keeps the invariant and the bound. -/
theorem bounded_setFakeCapacity (h : Bounded m) {capacity fuel : Nat} {m' : FakeMap}
    (hrun : setFakeCapacity fuel m capacity = some m') : Bounded m' := by
  obtain ⟨⟨hinv, hcap⟩, hle⟩ :=
    (h.toInv.of_counters m.next4 m.next6 (max capacity 1) m.generation).shrink hrun
  exact ⟨hinv, hle, (le_max_right capacity 1).trans_eq hcap.symm⟩

/-- An address that `import_fake` takes back. -/
def Savable (cfg : FakeConfig) (ip : IpAddr) : Prop :=
  inPool cfg ip = true ∧
    match ip with
    | .v4 ip => cfg.fakeIpRange.network + 2 ≤ ip.toNat
    | .v6 ip => cfg.fakeIpRange6.network + 2 ≤ ip.toNat ∧
        ip.toNat - cfg.fakeIpRange6.network + 1 < 2 ^ 128

/-- Advancing past a saved address moves a cursor only. -/
theorem advancePast_eq_ok {ip : IpAddr} {got : FakeMap} (h : advancePast cfg m ip = .ok got) :
    SameMappings m got ∧ (m.Cursors cfg → got.Cursors cfg) ∧
      (inPool cfg ip = true → Savable cfg ip) := by
  cases ip with
  | v4 ip =>
    simp only [advancePast] at h
    split at h
    · cases h
    · next hlow =>
      cases h
      refine ⟨⟨_, m.next6, rfl⟩, fun hm => ⟨hm.next4.trans (le_max_left _ _), hm.next6⟩,
        fun hpool => ⟨hpool, ?_⟩⟩
      omega
  | v6 ip =>
    simp only [advancePast] at h
    split at h
    · cases h
    · split at h
      · cases h
      · next hlow hhigh =>
        cases h
        refine ⟨⟨m.next4, _, rfl⟩,
          fun hm => ⟨hm.next4, fun hrange => (hm.next6 hrange).trans (le_max_left _ _)⟩,
          fun hpool => ⟨hpool, ?_⟩⟩
        omega

/-- What becomes of a saved entry: it lies outside the pool, has an unsupported name, or is
added. -/
theorem importEntry_cases {m' : FakeMap} (h : importEntry cfg m entry = .ok m') :
    m' = m ∨ ∃ got, SameMappings m got ∧ (m.Cursors cfg → got.Cursors cfg) ∧
      (m' = got ∨ m' = got.insert entry.1.normalize entry.2 ∧ Savable cfg entry.2 ∧
        cfg.absoluteName entry.1.normalize = true ∧ got.byIp.lookup entry.2 = none ∧
        got.byName.lookup (entry.1.normalize, entry.2.isIpv6) = none) := by
  unfold importEntry at h
  split at h
  · cases h
    exact .inl rfl
  · next hpool =>
    rw [Bool.not_eq_true, Bool.not_eq_false'] at hpool
    cases hpast : advancePast cfg m entry.2 with
    | error e =>
      rw [hpast] at h
      cases h
    | ok got =>
      obtain ⟨hsame, hcursors, hsavable⟩ := advancePast_eq_ok hpast
      rw [hpast] at h
      dsimp only at h
      refine .inr ⟨got, hsame, hcursors, ?_⟩
      split at h
      · cases h
        exact .inl rfl
      · next hname =>
        split at h
        · cases h
        · next hfresh =>
          cases h
          rw [Bool.not_eq_true, Bool.not_eq_false'] at hname
          simp only [Bool.or_eq_true, not_or, not_isSome_iff_eq_none] at hfresh
          exact .inr ⟨rfl, hsavable hpool, hname, hfresh⟩

/-- One saved entry keeps the invariant and the capacity. -/
theorem inv_importEntry {m' : FakeMap} (h : Inv m)
    (hrun : importEntry cfg m entry = .ok m') : Inv m' ∧ m'.capacity = m.capacity := by
  obtain rfl | ⟨got, hsame, -, hadded⟩ := importEntry_cases hrun
  · exact ⟨h, rfl⟩
  · have hgot := h.sameMappings hsame
    obtain ⟨next4, next6, rfl⟩ := hsame
    obtain rfl | ⟨rfl, -, -, hip, hname⟩ := hadded
    · exact ⟨hgot, rfl⟩
    · exact ⟨hgot.insert hip hname, rfl⟩

/-- What a new map has and every entry keeps, the map built from saved entries has. -/
theorem importEntries_keeps {P : FakeMap → Prop} (hnew : P (.new m.capacity))
    (hentry : ∀ {m entry m'}, P m → importEntry cfg m entry = .ok m' → P m')
    (hrun : importEntries cfg m entries = .ok built) : P built := by
  unfold importEntries at hrun
  split at hrun
  · cases hrun
  · exact foldlM_keeps (fun hm hone => hentry hm hone) hnew hrun

theorem inv_importEntries
    (hrun : importEntries cfg m entries = .ok built) : Inv built ∧ built.capacity = m.capacity := by
  refine importEntries_keeps (P := fun got => Inv got ∧ got.capacity = m.capacity)
    ⟨inv_new m.capacity, rfl⟩ (fun hgot hone => ?_) hrun
  obtain ⟨hnext, hcap⟩ := inv_importEntry hgot.1 hone
  exact ⟨hnext, hcap.trans hgot.2⟩

/-- `import_fake` leaves the map alone, or shrinks one that was built from the entries. -/
theorem importFake_cases {fuel : Nat} {m' : FakeMap}
    (hrun : importFake cfg fuel m entries = some (r, m')) :
    m' = m ∨ ∃ built shrunk, importEntries cfg m entries = .ok built ∧
      FakeMap.shrink fuel built = some shrunk ∧ m' = { shrunk with generation := 0 } := by
  unfold importFake at hrun
  split at hrun
  · cases hrun
    exact .inl rfl
  · next built hbuild =>
    obtain ⟨shrunk, hshrunk, hout⟩ := map_eq_some_iff.mp hrun
    cases hout
    exact .inr ⟨built, shrunk, hbuild, hshrunk, rfl⟩

/-- `import_fake` keeps the invariant and the bound. -/
theorem bounded_importFake (h : Bounded m) {fuel : Nat} {m' : FakeMap}
    (hrun : importFake cfg fuel m entries = some (r, m')) : Bounded m' := by
  obtain rfl | ⟨built, shrunk, hbuild, hshrunk, rfl⟩ := importFake_cases hrun
  · exact h
  · obtain ⟨hinv, hcap⟩ := inv_importEntries hbuild
    obtain ⟨⟨hinv', hcap'⟩, hle⟩ := hinv.shrink hshrunk
    exact ⟨hinv'.of_counters _ _ _ 0, hle, h.capacity_pos.trans_eq (hcap'.trans hcap).symm⟩

/-- And it ends. -/
theorem importFake_returns (cfg : FakeConfig) (m : FakeMap) (entries : List (Text × IpAddr)) :
    ∃ n r m', ∀ fuel, n ≤ fuel → importFake cfg fuel m entries = some (r, m') := by
  unfold importFake
  cases hbuild : importEntries cfg m entries with
  | error e => exact ⟨0, .error e, m, fun _ _ => rfl⟩
  | ok built =>
    obtain ⟨m', hrun⟩ := (inv_importEntries hbuild).1.shrink_returns
    exact ⟨built.byName.size, .ok (), { m' with generation := 0 }, fun fuel hfuel =>
      congrArg (Option.map _) (hrun fuel hfuel)⟩

/-- What a new map has, and every entry and every eviction keeps, an import keeps. -/
theorem importFake_keeps {P : FakeMap → Prop} (hnew : ∀ capacity, P (.new capacity))
    (hentry : ∀ {m entry m'}, P m → importEntry cfg m entry = .ok m' → P m')
    (hevict : ∀ m, P m → P m.evict) (hgeneration : ∀ m n, P m → P { m with generation := n })
    {m' : FakeMap} {entries : List (Text × IpAddr)} {r : Except String Unit} {fuel : Nat} (h : P m)
    (hrun : importFake cfg fuel m entries = some (r, m')) : P m' := by
  obtain rfl | ⟨built, shrunk, hbuild, hshrunk, rfl⟩ := importFake_cases hrun
  · exact h
  · have hbuilt : P built := importEntries_keeps (hnew _) hentry hbuild
    exact hgeneration _ _ (shrink_keeps (fun m hm _ => hevict m hm) hbuilt hshrunk).1

/-! ## Every reachable map -/

/-- The maps a new resolver can get to. -/
inductive Reachable (cfg : FakeConfig) : FakeMap → Prop where
  | new : Reachable cfg (FakeMap.new fakeCapacity)
  | fakeAddress {m : FakeMap} (before : Reachable cfg m) (host : Text) (v6 : Bool) :
      Reachable cfg (fakeAddress cfg m host v6).2
  | setFakeCapacity {m m'} (before : Reachable cfg m) {capacity fuel}
      (run : setFakeCapacity fuel m capacity = some m') : Reachable cfg m'
  | importFake {m m'} (before : Reachable cfg m) {entries fuel r}
      (run : importFake cfg fuel m entries = some (r, m')) : Reachable cfg m'

/-- Every reachable map is bounded: the induction is on the calls. -/
theorem bounded_of_reachable (h : Reachable cfg m) : Bounded m := by
  induction h with
  | new => exact ⟨inv_new _, Nat.zero_le _, by decide⟩
  | fakeAddress _ host v6 ih => exact bounded_fakeAddress ih host v6
  | setFakeCapacity _ run ih => exact bounded_setFakeCapacity ih run
  | importFake _ run ih => exact bounded_importFake ih run

/-- **The fake-IP map over every history of calls**: the tables mirror each other,
every live mapping is queued under the stamp of its latest query, the queue is
sorted by stamp, the map stays within its capacity, every eviction dropped exactly
the mapping queried longest ago, and the loops that evict come to an end. -/
theorem reachable_inv {m : FakeMap} (h : Reachable cfg m) :
    (∀ name v6 ip, (∃ stamp, m.byName.lookup (name, v6) = some (ip, stamp)) ↔
      m.byIp.lookup ip = some name ∧ ip.isIpv6 = v6) ∧
    (∀ key ip stamp, m.byName.lookup key = some (ip, stamp) →
      (ip, stamp) ∈ m.order ∧ 0 < stamp ∧ LastAt m.queries key (stamp - 1)) ∧
    (m.order.Pairwise fun a b => a.2 < b.2) ∧
    m.byName.size ≤ m.capacity ∧
    (∀ e ∈ m.evictions, e.DropsOldest) ∧
    (∀ capacity, ∃ m', ∀ fuel, m.byName.size ≤ fuel →
      setFakeCapacity fuel m capacity = some m') ∧
    (∀ entries, ∃ n r m', ∀ fuel, n ≤ fuel → importFake cfg fuel m entries = some (r, m')) := by
  have hm := bounded_of_reachable h
  refine ⟨hm.mirror, ?_, hm.sorted, hm.size_le, hm.dropped, ?_, importFake_returns cfg m⟩
  · intro key ip stamp hkey
    exact ⟨hm.queued hkey, hm.latest hkey⟩
  · intro capacity
    exact (hm.toInv.of_counters m.next4 m.next6 (max capacity 1) m.generation).shrink_returns

/-- With room for one name, the second name evicts the first. -/
theorem reachable_eviction :
    ∃ (cfg : FakeConfig) (m : FakeMap), Reachable cfg m ∧ m.evictions.length = 1 ∧
      m.capacity = 1 ∧ m.byName.size ≤ m.capacity ∧ ∀ e ∈ m.evictions, e.DropsOldest := by
  let cfg : FakeConfig :=
    ⟨⟨0xC6120000, 16, by decide⟩, ⟨0xFC00 <<< 112, 18, by decide⟩, fun _ => true⟩
  have hnew : Reachable cfg { FakeMap.new fakeCapacity with capacity := 1 } :=
    @Reachable.setFakeCapacity cfg _ _ .new 1 0 rfl
  have hfirst := hnew.fakeAddress ['a'] false
  have hsecond := hfirst.fakeAddress ['b'] false
  obtain ⟨-, -, -, hsize, hdrop, -⟩ := reachable_inv hsecond
  exact ⟨cfg, _, hsecond, by decide +kernel, by decide +kernel, hsize, hdrop⟩

/-- **An answer leads back to its name**, and is given again. -/
theorem fake_answer_sticks (h : Reachable cfg m) {host v6 ip m'}
    (hrun : fakeAddress cfg m host v6 = (.ok ip, m')) : m'.byIp.lookup ip = some host ∧
      ip.isIpv6 = v6 ∧ (fakeAddress cfg m' host v6).1 = .ok ip := by
  have hm' := (bounded_of_reachable (h.fakeAddress host v6)).toInv
  have hanswer := fakeAddress_answer cfg m host v6
  rw [hrun] at hm' hanswer
  obtain ⟨hname, stamp, hkey⟩ : cfg.absoluteName host = true ∧
      ∃ stamp, m'.byName.lookup (host, v6) = some (ip, stamp) := by
    cases hanswer with
    | known hname =>
      refine ⟨hname, m.stamp + 1, ?_⟩
      split <;> exact AList.lookup_insert _
    | added hname _ htried =>
      obtain rfl := htried.fresh.1
      exact ⟨hname, _, AList.lookup_insert _⟩
  obtain ⟨hip, hv6⟩ := hm'.byIp_of_byName hkey
  exact ⟨hip, hv6, by simp [fakeAddress, FakeMap.get, hname, hkey]⟩

/-- With room for one name, the answer takes the place of another one. -/
theorem fake_answer_sticks_new : ∃ cfg m, Reachable cfg m ∧ m.byIp.lookup (.v4 2) = some ['a'] ∧
    let out := fakeAddress cfg m ['b'] false
    out.1 = .ok (.v4 3) ∧ out.2.byIp.lookup (.v4 2) = none ∧
      out.2.byIp.lookup (.v4 3) = some ['b'] := by
  let cfg : FakeConfig := ⟨⟨0, 16, by decide⟩, ⟨0, 18, by decide⟩, fun _ => true⟩
  have hnew : Reachable cfg { FakeMap.new fakeCapacity with capacity := 1 } :=
    @Reachable.setFakeCapacity cfg _ _ .new 1 0 rfl
  let m := (fakeAddress cfg { FakeMap.new fakeCapacity with capacity := 1 } ['a'] false).2
  have hm : Reachable cfg m := hnew.fakeAddress ['a'] false
  have hanswer : (fakeAddress cfg m ['b'] false).1 = .ok (.v4 3) := by decide +kernel
  exact ⟨cfg, m, hm, by decide +kernel, hanswer, by decide +kernel,
    (fake_answer_sticks hm (Prod.ext hanswer rfl)).1⟩

end Clyntis.Core
