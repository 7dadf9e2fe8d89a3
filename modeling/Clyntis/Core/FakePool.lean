import Clyntis.Core.FakeExport

/-!
# Which addresses the fake-IP map hands out (`dns.rs`, `FakeMap::allocate`)

- `allocate_complete`: an address is found where there is one, and it is a usable one;
- `fakeAddress_error_iff`: when a query that fails leaves the mappings alone.
-/

namespace Clyntis.Core

open Lib Net FakeMap List Table

variable {cfg : FakeConfig} {v6 : Bool} {m : FakeMap}

/-! ## Allocation -/

theorem cursor_evict (w : Bool) : m.evict.cursor w = m.cursor w := by
  obtain ⟨h4, h6, -⟩ := lookup_of_evictFrom (m := m) m.order
  cases w
  · exact h4
  · exact h6

theorem cursor_room (w : Bool) : m.room.cursor w = m.cursor w := by
  unfold room
  split
  · exact cursor_evict w
  · rfl

theorem FakeMap.Cursors.evict (h : m.Cursors cfg) : m.evict.Cursors cfg :=
  ⟨h.next4.trans_eq (cursor_evict false).symm,
    fun hrange => (h.next6 hrange).trans_eq (cursor_evict true).symm⟩

theorem Reachable.cursors (h : Reachable cfg m) : m.Cursors cfg := by
  induction h with
  | new => exact ⟨le_rfl, fun _ => le_rfl⟩
  | @fakeAddress m _ host v6 ih =>
    have hroom : m.room.Cursors cfg :=
      ⟨ih.next4.trans_eq (cursor_room false).symm,
        fun hrange => (ih.next6 hrange).trans_eq (cursor_room true).symm⟩
    have hanswer := fakeAddress_answer cfg m host v6
    generalize Core.fakeAddress cfg m host v6 = out at hanswer
    cases hanswer with
    | unsupported hname => exact ih
    | known hname hkey =>
      split <;> exact ⟨ih.next4, ih.next6⟩
    | failed hname hkey htried => exact (htried.cursors hroom).1
    | added hname hkey htried =>
      have hgot := (htried.cursors hroom).1
      exact ⟨hgot.next4, hgot.next6⟩
  | @setFakeCapacity m m' _ capacity fuel run ih =>
    have hsame : Cursors cfg { m with capacity := max capacity 1 } := ⟨ih.next4, ih.next6⟩
    exact (shrink_keeps (fun _ hm _ => hm.evict) hsame run).1
  | importFake _ run ih =>
    refine importFake_keeps (fun _ => ⟨le_rfl, fun _ => le_rfl⟩) (fun hm hone => ?_)
      (fun _ hm => hm.evict)
      (fun _ _ hm => ⟨hm.next4, hm.next6⟩) ih run
    obtain rfl | ⟨got, -, hcursors, rfl | ⟨rfl, -⟩⟩ := importEntry_cases hone
    · exact hm
    · exact hcursors hm
    · exact ⟨(hcursors hm).next4, (hcursors hm).next6⟩

theorem iterate_nextOffset_le {o : Nat} (hlast : 2 ≤ lastOffset cfg v6) (ho : o ≤ lastOffset cfg v6)
    (n : Nat) : (nextOffset cfg v6)^[n] o ≤ lastOffset cfg v6 :=
  Function.Iterate.rec (· ≤ lastOffset cfg v6) ho (fun _ _ => offsetAt_le hlast) n

/-- More addresses than there are mappings are not all mapped. -/
theorem length_le_of_mapped {os : List Nat} (hnodup : os.Nodup) (hlast : 2 ≤ lastOffset cfg v6)
    (hall : ∀ o ∈ os, o ≤ lastOffset cfg v6 ∧ m.byIp.lookup (addressAt cfg v6 o) ≠ none) :
    os.length ≤ m.byIp.size := by
  have haddresses : (os.map (addressAt cfg v6)).Nodup :=
    hnodup.map_on fun o ho o' ho' heq => addressAt_injOn hlast (hall o ho).1 (hall o' ho').1 heq
  have hkeys : os.map (addressAt cfg v6) ⊆ m.byIp.keys := by
    intro ip hip
    obtain ⟨o, ho, rfl⟩ := mem_map.mp hip
    obtain ⟨name, hname⟩ := Option.ne_none_iff_exists'.mp (hall o ho).2
    exact AList.mem_keys.mpr (mem_iff_lookup.mpr ⟨name, hname⟩)
  have hlength := (subperm_of_subset haddresses hkeys).length_le
  rwa [length_map, ← size_eq_keys] at hlength

/-- Where the tries fail, they have gone round: once the offsets repeat all have been tried, and
without a repetition there are more of them than mappings. -/
theorem Tried.mapped {e : String} {got : FakeMap} {o : Nat}
    (h : Tried cfg v6 (m.byIp.size + 1) m (.error e, got)) (ho : Usable cfg v6 o) :
    m.byIp.lookup (addressAt cfg v6 o) ≠ none := by
  have hlast : 2 ≤ lastOffset cfg v6 := ho.1.trans ho.2
  obtain ⟨hlength, hmapped⟩ := h.passed e rfl hlast
  have hoffsets := h.offsets
  rw [hlength] at hoffsets
  rw [hoffsets] at hmapped hlength
  by_cases hnodup : (List.iterate (nextOffset cfg v6) (offsetAt cfg v6 (m.cursor v6))
      (m.byIp.size + 1)).Nodup
  · have hall : ∀ o ∈ List.iterate (nextOffset cfg v6) (offsetAt cfg v6 (m.cursor v6))
        (m.byIp.size + 1), o ≤ lastOffset cfg v6 := by
      intro o ho
      obtain ⟨n, -, rfl⟩ := mem_iterate.mp ho
      exact iterate_nextOffset_le hlast (offsetAt_le hlast) n
    have := length_le_of_mapped hnodup hlast fun o ho => ⟨hall o ho, hmapped o ho⟩
    omega
  · obtain ⟨k, rfl⟩ := exists_iterate_nextOffset hlast (offsetAt_le (c := m.cursor v6) hlast) ho
    exact hmapped _ (mem_iterate_of_not_nodup hnodup k)

/-- **Allocation is complete and in range.** Unless the range is all of IPv6, an address is found
exactly if one that is usable is not mapped, the one that is found is such an address, and no
addition overflows: neither that of the network and an offset nor the increment of a cursor. -/
theorem allocate_complete (h : Reachable cfg m) (v6 : Bool)
    (hrange : v6 = true → 0 < cfg.fakeIpRange6.prefixLen) :
    ((∃ ip, (m.allocate cfg v6).1 = .ok ip) ↔
      ∃ o, Usable cfg v6 o ∧ m.byIp.lookup (addressAt cfg v6 o) = none) ∧
    (∀ ip, (m.allocate cfg v6).1 = .ok ip →
      m.byIp.lookup ip = none ∧ ∃ o, Usable cfg v6 o ∧ ip = addressAt cfg v6 o) ∧
    ∀ o ∈ triedOffsets cfg v6 (m.byIp.size + 1) m,
      (if v6 then cfg.fakeIpRange6.network + o < 2 ^ 128 ∧ o + 1 < 2 ^ 128
        else cfg.fakeIpRange.network + o < 2 ^ 32 ∧ o + 1 < 2 ^ 64) := by
  have htried : Tried cfg v6 (m.byIp.size + 1) m (m.allocate cfg v6) :=
    allocateLoop_tried cfg v6 _ _
  have husable := (htried.cursors h.cursors).2 hrange
  have hok : ∀ ip, (m.allocate cfg v6).1 = .ok ip →
      m.byIp.lookup ip = none ∧ ∃ o, Usable cfg v6 o ∧ ip = addressAt cfg v6 o := by
    intro ip hip
    obtain ⟨o, ho, rfl, hfree⟩ := htried.found ip hip
    exact ⟨hfree, o, husable o (mem_of_getLast? ho), rfl⟩
  refine ⟨⟨?_, ?_⟩, hok, fun o ho => ?_⟩
  · rintro ⟨ip, hip⟩
    obtain ⟨hfree, o, ho, rfl⟩ := hok ip hip
    exact ⟨o, ho, hfree⟩
  · rintro ⟨o, ho, hfree⟩
    rcases hout : m.allocate cfg v6 with ⟨e | ip, got⟩
    · rw [hout] at htried
      exact absurd hfree (htried.mapped ho)
    · exact ⟨ip, rfl⟩
  · have ho := husable o ho
    have hend := network_add_lt (ho.1.trans ho.2) ho.2
    cases v6 with
    | true => exact ⟨hend, (ho.nextOffset hrange).2⟩
    | false =>
      refine ⟨hend, ?_⟩
      simp only [Bool.false_eq_true, if_false] at hend
      omega

/-- A `/29` has five addresses to give, and one of them is taken. -/
theorem allocate_complete_new : ∃ (cfg : FakeConfig) (m : FakeMap) (ip : IpAddr),
    Reachable cfg m ∧ m.byIp.size = 1 ∧ lastOffset cfg false = 6 ∧
      (m.allocate cfg false).1 = .ok ip ∧ m.byIp.lookup ip = none := by
  let cfg : FakeConfig := ⟨⟨0xC6120000, 29, by decide⟩, ⟨0, 0, by decide⟩, fun _ => true⟩
  have hreach : Reachable cfg _ := (Reachable.new).fakeAddress ['a'] false
  obtain ⟨hfound, hfree, -⟩ := allocate_complete hreach false nofun
  obtain ⟨ip, hip⟩ := hfound.mpr ⟨6, by unfold Usable; decide, by decide +kernel⟩
  exact ⟨cfg, _, ip, hreach, by decide +kernel, by decide, hip, (hfree ip hip).1⟩

theorem importFake_single {capacity : Nat} {name : Text} {ip : IpAddr} {past : FakeMap}
    (hpool : inPool cfg ip = true) (hpast : advancePast cfg (.new (capacity + 1)) ip = .ok past)
    (hname : name.normalize = name) (habsolute : cfg.absoluteName name = true) :
    importFake cfg 0 (.new (capacity + 1)) [(name, ip)] =
      some (.ok (), { past.insert name ip with generation := 0 }) := by
  obtain ⟨⟨next4, next6, rfl⟩, -⟩ := advancePast_eq_ok hpast
  have hbuilt : importEntries cfg (.new (capacity + 1)) [(name, ip)] = .ok _ :=
    congrArg (Except.bind · pure) (importEntry_of_past hname habsolute hpool hpast rfl rfl)
  rw [importFake, hbuilt]
  rfl

/-- In a range of all of IPv6 the cursor overflows after the last address, and then a reserved
address is handed out. -/
theorem allocate_reserved : ∃ (cfg : FakeConfig) (m : FakeMap), Reachable cfg m ∧
    (m.allocate cfg true).1 = .ok (.v6 0) ∧
      ¬ ∃ o, Usable cfg true o ∧ .v6 0 = addressAt cfg true o := by
  let cfg : FakeConfig := ⟨⟨0xC6120000, 16, by decide⟩, ⟨0, 0, by decide⟩, fun _ => true⟩
  have hpast : advancePast cfg (.new fakeCapacity) (.v6 (-2)) =
      .ok { FakeMap.new fakeCapacity with next6 := 2 ^ 128 - 1 } := by
    have hnext : max (FakeMap.new fakeCapacity).next6
        ((-2 : BitVec 128).toNat - cfg.fakeIpRange6.network + 1) = 2 ^ 128 - 1 := by decide +kernel
    rw [advancePast, if_neg (by decide +kernel), if_neg (by decide +kernel), hnext]
  have hrun : importFake cfg 0 (.new fakeCapacity) [(['a'], .v6 (-2))] = some (.ok (), _) :=
    importFake_single (by decide +kernel) hpast rfl rfl
  refine ⟨cfg, _, (Reachable.importFake .new hrun).fakeAddress ['b'] true, by decide +kernel, ?_⟩
  rintro ⟨o, ho, heq⟩
  have hzero : addressAt cfg true 0 = .v6 0 := by decide +kernel
  have := addressAt_injOn (ho.1.trans ho.2) (Nat.zero_le _) ho.2 (hzero.trans heq)
  have := ho.1
  omega

/-! ## Queries that fail -/

/-- **What a failed query leaves.** The mappings are as they were where there was room for one more,
and where the name is not supported; otherwise the least recently queried one is gone. -/
theorem fakeAddress_error_iff (h : Reachable cfg m) {host : Text} {e : String} {m' : FakeMap}
    (herr : fakeAddress cfg m host v6 = (.error e, m')) :
    ((∀ key, m'.byName.lookup key = m.byName.lookup key) ∧
      ∀ ip, m'.byIp.lookup ip = m.byIp.lookup ip) ↔
    m.byName.size < m.capacity ∨ cfg.absoluteName host = false := by
  have hanswer := fakeAddress_answer cfg m host v6
  rw [herr] at hanswer
  cases hanswer with
  | unsupported hname => exact iff_of_true ⟨fun _ => rfl, fun _ => rfl⟩ (.inr hname)
  | failed hname hkey htried =>
    obtain ⟨next4, next6, rfl⟩ := htried.same
    unfold FakeMap.room
    split
    · next hfull =>
      refine iff_of_false (fun hsame => ?_) ?_
      · have hbounded := bounded_of_reachable h
        have hpos := hbounded.capacity_pos
        obtain ⟨key, ip, stamp, rest, hdrop⟩ := hbounded.toInv.evictFrom
          (exists_mem_of_size_pos (by omega)) m.order hbounded.queued
        have hgone := hsame.1 key
        unfold FakeMap.evict at hgone
        rw [hdrop.result, hdrop.mapped] at hgone
        exact (lookup_erase_iff.mp hgone).1 rfl
      · rw [hname]
        rintro (hroom | habsurd)
        · omega
        · cases habsurd
    · next hroom => exact iff_of_true ⟨fun _ => rfl, fun _ => rfl⟩ (.inl (by omega))

/-- A range without an address to give: the query fails, there was room, and the name that is mapped
stays. -/
theorem fakeAddress_error_iff_room : ∃ (cfg : FakeConfig) (m m' : FakeMap) (e : String),
    Reachable cfg m ∧ m.byIp.lookup (.v4 0xC6120002) = some ['a'] ∧
      fakeAddress cfg m ['b'] true = (.error e, m') ∧
      ∀ ip, m'.byIp.lookup ip = m.byIp.lookup ip := by
  let cfg : FakeConfig :=
    ⟨⟨0xC6120000, 16, by decide⟩, ⟨0xFC00 <<< 112, 127, by decide⟩, fun _ => true⟩
  let m := (fakeAddress cfg (.new fakeCapacity) ['a'] false).2
  have hreach : Reachable cfg m := (Reachable.new).fakeAddress ['a'] false
  have herror : (fakeAddress cfg m ['b'] true).1 = .error "fake-IP v6 pool exhausted" := by
    decide +kernel
  have hall := (fakeAddress_error_iff hreach (Prod.ext herror rfl)).mpr (.inl (by decide +kernel))
  exact ⟨cfg, m, _, _, hreach, by decide +kernel, Prod.ext herror rfl, hall.2⟩

/-- With room for one name, a query that fails takes the mapping of another one. -/
theorem fakeAddress_error_evicts : ∃ (cfg : FakeConfig) (m : FakeMap) (ip : IpAddr),
    Reachable cfg m ∧
      (fakeAddress cfg m ['b'] true).1 = .error "fake-IP v6 pool exhausted" ∧
      m.byIp.lookup ip = some ['a'] ∧
      (fakeAddress cfg m ['b'] true).2.byIp.lookup ip = none := by
  let cfg : FakeConfig :=
    ⟨⟨0xC6120000, 16, by decide⟩, ⟨0xFC00 <<< 112, 127, by decide⟩, fun _ => true⟩
  have hnew : Reachable cfg { FakeMap.new fakeCapacity with capacity := 1 } :=
    @Reachable.setFakeCapacity cfg _ _ .new 1 0 rfl
  exact ⟨cfg, _, .v4 0xC6120002, hnew.fakeAddress ['a'] false, by decide +kernel,
    by decide +kernel, by decide +kernel⟩

end Clyntis.Core
