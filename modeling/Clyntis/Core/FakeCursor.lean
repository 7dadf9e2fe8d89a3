import Clyntis.Core.FakeMap
import Clyntis.Lib.Orbit

/-!
# The cursors of the fake-IP map (`dns.rs`, `FakeMap::allocate`)

Each family has a cursor that goes round its range. A try takes the address at the cursor and
moves on.

- `lastOffset`, `Usable`, `addressAt`: the offsets of a range that are handed out, and what they
  stand for;
- `offsetAt`, `nextOffset`: the offset that is tried at a cursor, and the one after it;
- `exists_iterate_nextOffset`: from any offset the cursor comes to every usable one;
- `triedOffsets`, `Tried`: the tries of one call of `allocate`;
- `Answer`: what a query comes to.
-/

namespace Clyntis.Core

open Lib Net List

section Offsets

variable (cfg : FakeConfig) (v6 : Bool)

/-- The last offset that is handed out: `size - 1` for IPv6, `size - 2` for IPv4. -/
def lastOffset : Nat := if v6 then cfg.fakeIpRange6.size - 1 else cfg.fakeIpRange.size - 2

variable (offset : Nat)

/-- The network and the gateway are reserved. -/
def Usable : Prop := 2 ≤ offset ∧ offset ≤ lastOffset cfg v6

/-- The address at an offset. -/
def addressAt : IpAddr :=
  if v6 then .v6 (BitVec.ofNat 128 (cfg.fakeIpRange6.network + offset))
  else .v4 (BitVec.ofNat 32 (cfg.fakeIpRange.network + offset))

/-- The offset that is tried at a cursor. -/
def offsetAt (cursor : Nat) : Nat := if lastOffset cfg v6 < cursor then 2 else cursor

/-- The cursor after a try. -/
def cursorAfter : Nat := if v6 then (offset + 1) % 2 ^ 128 else offset + 1

/-- The offset that is tried after another one. -/
def nextOffset : Nat := offsetAt cfg v6 (cursorAfter v6 offset)

end Offsets

namespace FakeMap

/-- The cursor of a family. -/
def cursor (m : FakeMap) (v6 : Bool) : Nat := if v6 then m.next6 else m.next4

def setCursor (m : FakeMap) (v6 : Bool) (cursor : Nat) : FakeMap :=
  if v6 then { m with next6 := cursor } else { m with next4 := cursor }

/-- The maps differ in the pool counters only. -/
def SameMappings (m m' : FakeMap) : Prop :=
  ∃ next4 next6, m' = { m with next4 := next4, next6 := next6 }

variable {m m' : FakeMap} {v6 : Bool} {c : Nat}

theorem SameMappings.refl (m : FakeMap) : SameMappings m m := ⟨m.next4, m.next6, rfl⟩

theorem SameMappings.trans {m'' : FakeMap} (h : SameMappings m m') (h' : SameMappings m' m'') :
    SameMappings m m'' := by
  obtain ⟨a, b, rfl⟩ := h
  obtain ⟨c, d, rfl⟩ := h'
  exact ⟨c, d, rfl⟩

theorem sameMappings_setCursor : SameMappings m (m.setCursor v6 c) := by
  cases v6 <;> exact ⟨_, _, rfl⟩

theorem byIp_setCursor : (m.setCursor v6 c).byIp = m.byIp := by
  cases v6 <;> rfl

theorem cursor_setCursor : (m.setCursor v6 c).cursor v6 = c := by
  cases v6 <;> rfl

theorem cursor_setCursor_not : (m.setCursor v6 c).cursor (!v6) = m.cursor (!v6) := by
  cases v6 <;> rfl

end FakeMap

open FakeMap

/-- The offsets that the tries of `allocate` look at. -/
def triedOffsets (cfg : FakeConfig) (v6 : Bool) : (tries : Nat) → FakeMap → List Nat
  | 0, _ => []
  | tries + 1, m =>
    if lastOffset cfg v6 < 2 then []
    else
      let offset := offsetAt cfg v6 (m.cursor v6)
      offset :: if (m.byIp.lookup (addressAt cfg v6 offset)).isNone then []
        else triedOffsets cfg v6 tries (m.setCursor v6 (cursorAfter v6 offset))

variable {cfg : FakeConfig} {v6 : Bool} {c o o' tries : Nat} {m : FakeMap}

theorem isIpv6_addressAt : (addressAt cfg v6 o).isIpv6 = v6 := by
  cases v6 <;> rfl

/-! ## Going round a range -/

variable (hlast : 2 ≤ lastOffset cfg v6)
include hlast

/-- The range ends within the address space. -/
theorem network_add_lt (ho : o ≤ lastOffset cfg v6) :
    if v6 then cfg.fakeIpRange6.network + o < 2 ^ 128
    else cfg.fakeIpRange.network + o < 2 ^ 32 := by
  have h4 := cfg.fakeIpRange.network_add_size_le
  have h6 := cfg.fakeIpRange6.network_add_size_le
  cases v6 with
  | true =>
    simp only [lastOffset, if_true] at hlast ho ⊢
    omega
  | false =>
    simp only [lastOffset, Bool.false_eq_true, if_false] at hlast ho ⊢
    omega

theorem addressAt_injOn (ho : o ≤ lastOffset cfg v6)
    (ho' : o' ≤ lastOffset cfg v6) (h : addressAt cfg v6 o = addressAt cfg v6 o') : o = o' := by
  have hlt := network_add_lt hlast ho
  have hlt' := network_add_lt hlast ho'
  cases v6 with
  | true =>
    have hnat := congrArg BitVec.toNat (IpAddr.v6.inj h)
    rw [BitVec.toNat_ofNat, BitVec.toNat_ofNat, Nat.mod_eq_of_lt hlt, Nat.mod_eq_of_lt hlt'] at hnat
    omega
  | false =>
    have hnat := congrArg BitVec.toNat (IpAddr.v4.inj h)
    rw [BitVec.toNat_ofNat, BitVec.toNat_ofNat, Nat.mod_eq_of_lt hlt, Nat.mod_eq_of_lt hlt'] at hnat
    omega

theorem offsetAt_le : offsetAt cfg v6 c ≤ lastOffset cfg v6 := by
  unfold offsetAt
  split <;> omega

theorem two_le_offsetAt : 2 ≤ offsetAt cfg v6 c ↔ 2 ≤ c := by
  unfold offsetAt
  split <;> omega

omit hlast

/-- The cursor goes up, -/
theorem nextOffset_of_lt (ho : o < lastOffset cfg v6) : nextOffset cfg v6 o = o + 1 := by
  have hafter : cursorAfter v6 o = o + 1 := by
    have h6 := cfg.fakeIpRange6.network_add_size_le
    cases v6 with
    | true =>
      simp only [lastOffset, if_true] at ho
      rw [cursorAfter, if_pos rfl, Nat.mod_eq_of_lt (by omega)]
    | false => rfl
  rw [nextOffset, hafter, offsetAt, if_neg (by omega)]

theorem iterate_nextOffset (k : Nat) (h : o + k ≤ lastOffset cfg v6) :
    (nextOffset cfg v6)^[k] o = o + k := by
  induction k with
  | zero => rfl
  | succ k ih =>
    rw [Function.iterate_succ_apply', nextOffset_of_lt (by omega)]
    omega

/-- and from the end back to the first offset; where the range is all of IPv6 it wraps around,
and the two reserved offsets come before. -/
theorem exists_iterate_last (hlast : 2 ≤ lastOffset cfg v6) :
    ∃ k, (nextOffset cfg v6)^[k] (lastOffset cfg v6) = 2 := by
  by_cases hwrap : cursorAfter v6 (lastOffset cfg v6) = 0
  · refine ⟨3, ?_⟩
    have hzero : nextOffset cfg v6 (lastOffset cfg v6) = 0 := by
      rw [nextOffset, hwrap, offsetAt, if_neg (by omega)]
    rw [Function.iterate_succ_apply, hzero, iterate_nextOffset 2 (by omega)]
  · refine ⟨1, ?_⟩
    have hafter : cursorAfter v6 (lastOffset cfg v6) = lastOffset cfg v6 + 1 := by
      have h6 := cfg.fakeIpRange6.network_add_size_le
      cases v6 with
      | true =>
        simp only [cursorAfter, lastOffset, if_true] at hwrap ⊢
        exact Nat.mod_eq_of_lt (Nat.lt_of_le_of_ne (by omega) fun hsame => by simp [hsame] at hwrap)
      | false => rfl
    show nextOffset cfg v6 _ = 2
    rw [nextOffset, offsetAt, if_pos (by omega)]

theorem exists_iterate_nextOffset (hlast : 2 ≤ lastOffset cfg v6) (ho : o ≤ lastOffset cfg v6)
    (ho' : Usable cfg v6 o') : ∃ k, (nextOffset cfg v6)^[k] o = o' := by
  obtain ⟨k, hk⟩ := exists_iterate_last hlast
  refine ⟨(o' - 2) + (k + (lastOffset cfg v6 - o)), ?_⟩
  obtain ⟨hlow, hhigh⟩ := ho'
  have hend : (nextOffset cfg v6)^[lastOffset cfg v6 - o] o = lastOffset cfg v6 :=
    (iterate_nextOffset _ (by omega)).trans (Nat.add_sub_cancel' ho)
  rw [Function.iterate_add_apply, Function.iterate_add_apply, hend, iterate_nextOffset _ (by omega)]
  omega

/-- But for that range, usable offsets lead to usable offsets. -/
theorem Usable.nextOffset (hrange : v6 = true → 0 < cfg.fakeIpRange6.prefixLen)
    (h : Usable cfg v6 o) :
    Usable cfg v6 (nextOffset cfg v6 o) ∧ o + 1 < 2 ^ 128 := by
  obtain ⟨hlow, hhigh⟩ := h
  have h4 := cfg.fakeIpRange.network_add_size_le
  have hend : lastOffset cfg v6 + 1 < 2 ^ 128 := by
    unfold lastOffset
    split
    · next hv6 =>
      have hsize : cfg.fakeIpRange6.size ≤ 2 ^ 127 :=
        Nat.pow_le_pow_right (by decide) (by have := hrange hv6; omega)
      omega
    · omega
  refine ⟨⟨(two_le_offsetAt (by omega)).mpr ?_, offsetAt_le (by omega)⟩, by omega⟩
  unfold cursorAfter
  split
  · omega
  · omega

/-! ## One call -/

theorem nextAddress_of_lt (h : lastOffset cfg v6 < 2) (m : FakeMap) :
    ∃ e, nextAddress cfg v6 m = (.error e, m) := by
  cases v6 with
  | true =>
    have hnone : m.nextV6 cfg.fakeIpRange6 = .error "fake-IP v6 pool exhausted" := if_pos h
    exact ⟨_, by rw [nextAddress, if_pos rfl, hnone]⟩
  | false => exact ⟨_, if_pos h⟩

/-- A try takes the address at the cursor and moves on. -/
theorem nextAddress_eq (hlast : 2 ≤ lastOffset cfg v6) (m : FakeMap) :
    nextAddress cfg v6 m = (.ok (addressAt cfg v6 (offsetAt cfg v6 (m.cursor v6))),
      m.setCursor v6 (cursorAfter v6 (offsetAt cfg v6 (m.cursor v6)))) := by
  have hlt := network_add_lt hlast (offsetAt_le (c := m.cursor v6) hlast)
  cases v6 with
  | true =>
    have hsome : m.nextV6 cfg.fakeIpRange6 = .ok _ := if_neg (Nat.not_lt.mpr hlast)
    rw [nextAddress, hsome]
    simp only [addressAt, setCursor, cursorAfter, offsetAt, cursor, lastOffset, if_true]
  | false =>
    have hsome : m.nextV4 cfg.fakeIpRange = _ := if_neg (Nat.not_lt.mpr hlast)
    rw [nextAddress, hsome]
    exact if_neg (Nat.not_le.mpr hlt)

/-- What the tries come to. -/
structure Tried (cfg : FakeConfig) (v6 : Bool) (tries : Nat) (m : FakeMap)
    (out : Except String IpAddr × FakeMap) : Prop where
  same : SameMappings m out.2
  other : out.2.cursor (!v6) = m.cursor (!v6)
  still : lastOffset cfg v6 < 2 → out.2 = m
  offsets : triedOffsets cfg v6 tries m = List.iterate (nextOffset cfg v6)
    (offsetAt cfg v6 (m.cursor v6)) (triedOffsets cfg v6 tries m).length
  cursor : offsetAt cfg v6 (out.2.cursor v6) = (nextOffset cfg v6)^[
    (triedOffsets cfg v6 tries m).length] (offsetAt cfg v6 (m.cursor v6))
  found : ∀ ip, out.1 = .ok ip → ∃ o, (triedOffsets cfg v6 tries m).getLast? = some o ∧
    ip = addressAt cfg v6 o ∧ m.byIp.lookup ip = none
  passed : ∀ e, out.1 = .error e → 2 ≤ lastOffset cfg v6 →
    (triedOffsets cfg v6 tries m).length = tries ∧
      ∀ o ∈ triedOffsets cfg v6 tries m, m.byIp.lookup (addressAt cfg v6 o) ≠ none

theorem allocateLoop_tried (cfg : FakeConfig) (v6 : Bool) (tries : Nat) (m : FakeMap) :
    Tried cfg v6 tries m (allocateLoop cfg v6 tries m) := by
  induction tries generalizing m with
  | zero => exact ⟨.refl m, rfl, fun _ => rfl, rfl, rfl, nofun, fun _ _ _ => ⟨rfl, nofun⟩⟩
  | succ tries ih =>
    by_cases hlast : lastOffset cfg v6 < 2
    · obtain ⟨e, hnext⟩ := nextAddress_of_lt hlast m
      have hnone : triedOffsets cfg v6 (tries + 1) m = [] := if_pos hlast
      rw [allocateLoop, hnext]
      refine ⟨.refl m, rfl, fun _ => rfl, ?_, ?_, nofun, fun _ _ h => absurd hlast (by omega)⟩
      · rw [hnone]
        rfl
      · rw [hnone]
        rfl
    · rw [allocateLoop, nextAddress_eq (by omega)]
      dsimp only
      generalize hc : offsetAt cfg v6 (m.cursor v6) = c
      have hoffsets : triedOffsets cfg v6 (tries + 1) m = c ::
          if (m.byIp.lookup (addressAt cfg v6 c)).isNone then []
          else triedOffsets cfg v6 tries (m.setCursor v6 (cursorAfter v6 c)) := by
        rw [triedOffsets, if_neg hlast, ← hc]
      rw [byIp_setCursor]
      by_cases hfree : (m.byIp.lookup (addressAt cfg v6 c)).isNone = true
      · rw [if_pos hfree] at hoffsets ⊢
        refine ⟨sameMappings_setCursor, cursor_setCursor_not, fun h => absurd h hlast, ?_, ?_,
          fun ip hip => ?_, nofun⟩
        · rw [hoffsets, hc]
          rfl
        · rw [hoffsets, hc, cursor_setCursor]
          rfl
        · cases hip
          exact ⟨c, by rw [hoffsets]; rfl, rfl, Option.isNone_iff_eq_none.mp hfree⟩
      · rw [if_neg hfree] at hoffsets ⊢
        obtain ⟨hsame, hother, -, hrest, hcursor, hfound, hpassed⟩ :=
          ih (m.setCursor v6 (cursorAfter v6 c))
        rw [cursor_setCursor] at hrest hcursor
        rw [byIp_setCursor] at hfound hpassed
        refine ⟨sameMappings_setCursor.trans hsame, hother.trans cursor_setCursor_not,
          fun h => absurd h hlast, ?_, ?_, fun ip hip => ?_, fun e he _ => ?_⟩
        · rw [hoffsets, hc]
          exact congrArg (c :: ·) hrest
        · rw [hoffsets, hc]
          exact hcursor
        · obtain ⟨o, ho, hip⟩ := hfound ip hip
          refine ⟨o, ?_, hip⟩
          rw [hoffsets, getLast?_cons, ho]
          rfl
        · obtain ⟨hlength, hmapped⟩ := hpassed e he (by omega)
          rw [hoffsets, length_cons, hlength]
          refine ⟨rfl, fun o ho => ?_⟩
          rcases mem_cons.mp ho with rfl | ho
          · exact fun hnone => hfree (Option.isNone_iff_eq_none.mpr hnone)
          · exact hmapped o ho

theorem Tried.fresh {ip : IpAddr} {got : FakeMap} (h : Tried cfg v6 tries m (.ok ip, got)) :
    ip.isIpv6 = v6 ∧ m.byIp.lookup ip = none := by
  obtain ⟨o, -, rfl, hfree⟩ := h.found ip rfl
  exact ⟨isIpv6_addressAt, hfree⟩

theorem triedOffsets_of_lt (h : lastOffset cfg v6 < 2) : triedOffsets cfg v6 tries m = [] := by
  cases tries with
  | zero => rfl
  | succ tries => exact if_pos h

/-- The cursors point behind what is reserved, but for that range. -/
structure FakeMap.Cursors (cfg : FakeConfig) (m : FakeMap) : Prop where
  next4 : 2 ≤ m.next4
  next6 : 0 < cfg.fakeIpRange6.prefixLen → 2 ≤ m.next6

theorem Tried.cursors {out : Except String IpAddr × FakeMap} (h : Tried cfg v6 tries m out)
    (hm : m.Cursors cfg) : out.2.Cursors cfg ∧ ((v6 = true → 0 < cfg.fakeIpRange6.prefixLen) →
      ∀ o ∈ triedOffsets cfg v6 tries m, Usable cfg v6 o) := by
  suffices hused : (v6 = true → 0 < cfg.fakeIpRange6.prefixLen) → 2 ≤ out.2.cursor v6 ∧
      ∀ o ∈ triedOffsets cfg v6 tries m, Usable cfg v6 o by
    refine ⟨?_, fun hrange => (hused hrange).2⟩
    cases v6 with
    | true => exact ⟨hm.next4.trans_eq h.other.symm, fun hrange => (hused fun _ => hrange).1⟩
    | false =>
      exact ⟨(hused nofun).1, fun hrange => (hm.next6 hrange).trans_eq h.other.symm⟩
  intro hrange
  have hcursor : 2 ≤ m.cursor v6 := by
    cases v6 with
    | true => exact hm.next6 (hrange rfl)
    | false => exact hm.next4
  by_cases hlast : lastOffset cfg v6 < 2
  · rw [h.still hlast, triedOffsets_of_lt hlast]
    exact ⟨hcursor, nofun⟩
  · have hstart : Usable cfg v6 (offsetAt cfg v6 (m.cursor v6)) :=
      ⟨(two_le_offsetAt (by omega)).mpr hcursor, offsetAt_le (by omega)⟩
    have hall : ∀ n, Usable cfg v6 ((nextOffset cfg v6)^[n] (offsetAt cfg v6 (m.cursor v6))) :=
      fun n => Function.Iterate.rec _ hstart (fun _ ho => (Usable.nextOffset hrange ho).1) n
    refine ⟨?_, fun o ho => ?_⟩
    · rw [← two_le_offsetAt (by omega : 2 ≤ lastOffset cfg v6), h.cursor]
      exact (hall _).1
    · rw [h.offsets] at ho
      obtain ⟨n, -, rfl⟩ := mem_iterate.mp ho
      exact hall n

/-! ## Queries -/

/-- The map with room for a name. -/
def FakeMap.room (m : FakeMap) : FakeMap := if m.capacity ≤ m.byName.size then m.evict else m

/-- What `fake_address` comes to. -/
inductive Answer (cfg : FakeConfig) (m : FakeMap) (host : Text) (v6 : Bool) :
    Except String IpAddr × FakeMap → Prop where
  | unsupported (hname : cfg.absoluteName host = false) :
      Answer cfg m host v6 (.error "unsupported fake-IP hostname", m)
  | known {ip stamp} (hname : cfg.absoluteName host = true)
      (hkey : m.byName.lookup (host, v6) = some (ip, stamp)) :
      Answer cfg m host v6 (.ok ip, if (m.touch (host, v6) ip).overgrown then
        (m.touch (host, v6) ip).compact else m.touch (host, v6) ip)
  | failed {e got} (hname : cfg.absoluteName host = true)
      (hkey : m.byName.lookup (host, v6) = none)
      (htried : Tried cfg v6 (m.room.byIp.size + 1) m.room (.error e, got)) :
      Answer cfg m host v6 (.error e, got)
  | added {ip got} (hname : cfg.absoluteName host = true)
      (hkey : m.byName.lookup (host, v6) = none)
      (htried : Tried cfg v6 (m.room.byIp.size + 1) m.room (.ok ip, got)) :
      Answer cfg m host v6 (.ok ip, got.insert host ip)

theorem fakeAddress_answer (cfg : FakeConfig) (m : FakeMap) (host : Text) (v6 : Bool) :
    Answer cfg m host v6 (fakeAddress cfg m host v6) := by
  unfold fakeAddress FakeMap.get
  by_cases hname : cfg.absoluteName host = true
  · rw [hname]
    cases hkey : m.byName.lookup (host, v6) with
    | some v => exact .known hname hkey
    | none =>
      have htried : Tried cfg v6 (m.room.byIp.size + 1) m.room (m.room.allocate cfg v6) :=
        allocateLoop_tried cfg v6 _ _
      dsimp only
      rw [← FakeMap.room]
      rcases hout : m.room.allocate cfg v6 with ⟨_ | ip, got⟩
      · exact .failed hname hkey (hout ▸ htried)
      · exact .added hname hkey (hout ▸ htried)
  · rw [Bool.not_eq_true] at hname
    rw [hname]
    exact .unsupported hname

end Clyntis.Core
