import Clyntis.Core.FakeMapInv

/-!
# Saved fake-IP mappings (`dns.rs`, `FakeMap::export` and `Resolver::import_fake`)

The mappings are saved in the order of their latest queries, and put into a new map in that order.

- `exportFake`, over `live`: the mappings with their stamps;
- `live_touch`, `live_insert`, `live_evict`: what each change of the map does to that list.
  A query puts its name last, and an eviction takes the first;
- `recency`: the same for `fake_address`, as a list of least recently used names;
- `Saved`: what all mappings have that an import asks for;
- `fake_persistence`: what comes back is the end of the list, in order.
-/

namespace Clyntis.Core

open Lib Net List Table

namespace FakeMap

/-- The mappings with the stamps of their latest queries, least recently queried first. -/
def live (m : FakeMap) : List (Nat × Text × IpAddr) :=
  (m.byName.entries.map fun e => (e.2.2, e.1.1, e.2.1)).mergeSort fun a b => decide (a.1 ≤ b.1)

/-- `export` (a keyword here), and `export_fake`. -/
def exportFake (m : FakeMap) : List (Text × IpAddr) := m.live.map Prod.snd

@[simp] theorem length_live (m : FakeMap) : m.live.length = m.byName.size := by
  rw [live, length_mergeSort, length_map]
  rfl

@[simp] theorem length_exportFake (m : FakeMap) : m.exportFake.length = m.byName.size := by
  rw [exportFake, length_map, length_live]

theorem exportFake_new (capacity : Nat) : (new capacity).exportFake = [] := by
  rw [← length_eq_zero_iff, length_exportFake]
  rfl

namespace Inv

variable {m : FakeMap} {stamp : Nat} {l : List (Nat × Text × IpAddr)} {ip : IpAddr} {name : Text}

theorem mem_live (h : Inv m) :
    (stamp, name, ip) ∈ m.live ↔ m.byName.lookup (name, ip.isIpv6) = some (ip, stamp) := by
  rw [live, mem_mergeSort, mem_map]
  constructor
  · rintro ⟨⟨key, ip', stamp'⟩, hmem, heq⟩
    cases heq
    have hkey := lookup_eq_some_iff.mpr hmem
    rw [(h.byIp_of_byName hkey).2]
    exact hkey
  · intro hkey
    exact ⟨_, lookup_eq_some_iff.mp hkey, rfl⟩

/-- No two mappings have one stamp. -/
theorem pairwise_live (h : Inv m) : m.live.Pairwise fun a b => a.1 < b.1 := by
  refine pairwise_mergeSort_lt Prod.fst ?_
  have hvalues := h.nodup_stamps
  unfold Table.values at hvalues
  rwa [pairwise_map] at hvalues ⊢

theorem nodup_of_stamps (h : l.Pairwise fun a b => a.1 < b.1) : l.Nodup := by
  refine h.imp fun {a b} hlt heq => ?_
  rw [heq] at hlt
  exact Nat.lt_irrefl _ hlt

/-- A list with the live mappings in the order of their stamps is the list of them. -/
theorem live_eq (h : Inv m) (hsorted : l.Pairwise fun a b => a.1 < b.1) (hmem : ∀ stamp name ip,
      (stamp, name, ip) ∈ l ↔ m.byName.lookup (name, ip.isIpv6) = some (ip, stamp)) :
    m.live = l := by
  refine List.Perm.eq_of_pairwise (fun a b _ _ hab hba => ?_) h.pairwise_live hsorted ?_
  · omega
  · refine (perm_ext_iff_of_nodup (nodup_of_stamps h.pairwise_live)
      (nodup_of_stamps hsorted)).mpr fun ⟨stamp, name, ip⟩ => ?_
    rw [h.mem_live, hmem]

theorem stamp_le_of_live (h : Inv m) {e : Nat × Text × IpAddr} (he : e ∈ m.live) :
    e.1 ≤ m.stamp :=
  h.stamp_le (h.mem_live.mp he)

/-- A new pair comes last. -/
theorem pairwise_concat (h : Inv m) (hsub : l.Sublist m.live) (e : Text × IpAddr) :
    (l ++ [(m.stamp + 1, e)]).Pairwise fun a b => a.1 < b.1 := by
  rw [pairwise_append]
  refine ⟨h.pairwise_live.sublist hsub, pairwise_singleton _ _, fun a ha b hb => ?_⟩
  rw [mem_singleton.mp hb]
  exact Nat.lt_succ_of_le (h.stamp_le_of_live (hsub.mem ha))

/-- An address is mapped from one name. -/
theorem ip_ne_iff (h : Inv m) {key key' : FakeKey} {ip ip' : IpAddr} {stamp' : Nat}
    (hkey : m.byName.lookup key = some (ip, stamp))
    (hkey' : m.byName.lookup key' = some (ip', stamp')) : ip' ≠ ip ↔ key' ≠ key := by
  constructor
  · rintro hne rfl
    rw [hkey] at hkey'
    exact hne (Prod.mk.inj (Option.some.inj hkey')).1.symm
  · rintro hne rfl
    obtain ⟨hname, hv6⟩ := h.byIp_of_byName hkey
    obtain ⟨hname', hv6'⟩ := h.byIp_of_byName hkey'
    rw [hname] at hname'
    exact hne (Prod.ext (Option.some.inj hname').symm (hv6'.symm.trans hv6))

variable {key : FakeKey}

/-- A query puts its mapping last. -/
theorem live_touch (h : Inv m) (hkey : m.byName.lookup key = some (ip, stamp)) :
    (m.touch key ip).live =
      (m.live.filter fun e => decide (e.2.2 ≠ ip)) ++ [(m.stamp + 1, key.1, ip)] := by
  have hv6 := (h.byIp_of_byName hkey).2
  refine (h.touch hkey).live_eq (h.pairwise_concat filter_sublist _) fun stamp' name ip' => ?_
  show _ ↔ (m.byName.insert key (ip, m.stamp + 1)).lookup (name, ip'.isIpv6) = some (ip', stamp')
  rw [lookup_insert_iff, mem_append, mem_filter, mem_singleton, h.mem_live, decide_eq_true_eq]
  constructor
  · rintro (⟨hold, hne⟩ | heq)
    · exact .inr ⟨(h.ip_ne_iff hkey hold).mp hne, hold⟩
    · cases heq
      exact .inl ⟨Prod.ext rfl hv6, rfl⟩
  · rintro (⟨heq, hval⟩ | ⟨hne, hold⟩)
    · cases hval
      rw [← heq]
      exact .inr rfl
    · exact .inl ⟨hold, (h.ip_ne_iff hkey hold).mpr hne⟩

/-- So does a new mapping. -/
theorem live_insert (h : Inv m) (hip : m.byIp.lookup ip = none)
    (hname : m.byName.lookup (name, ip.isIpv6) = none) :
    (m.insert name ip).live = m.live ++ [(m.stamp + 1, name, ip)] := by
  refine (h.insert hip hname).live_eq (h.pairwise_concat (.refl _) _) fun stamp' name' ip' => ?_
  show _ ↔ (m.byName.insert (name, ip.isIpv6) (ip, m.stamp + 1)).lookup (name', ip'.isIpv6) =
    some (ip', stamp')
  rw [lookup_insert_iff, mem_append, mem_singleton, h.mem_live]
  constructor
  · rintro (hold | heq)
    · refine .inr ⟨fun hsame => ?_, hold⟩
      rw [hsame, hname] at hold
      cases hold
    · cases heq
      exact .inl ⟨rfl, rfl⟩
  · rintro (⟨heq, hval⟩ | ⟨-, hold⟩)
    · cases hval
      rw [(Prod.mk.inj heq).1]
      exact .inr rfl
    · exact .inl hold

/-- An eviction takes the first mapping. -/
theorem live_evict (h : Inv m) (hsome : ∃ key, key ∈ m.byName) : m.evict.live = m.live.tail := by
  obtain ⟨key, ip, stamp, rest, hdrop⟩ := h.evictFrom hsome m.order h.queued
  have herase : m.evict.byName = m.byName.erase key := by
    unfold FakeMap.evict
    rw [hdrop.result]
  have hv6 := (h.byIp_of_byName hdrop.mapped).2
  have hmem : (stamp, key.1, ip) ∈ m.live := h.mem_live.mpr (hv6 ▸ hdrop.mapped)
  rcases hlive : m.live with _ | ⟨first, others⟩
  · rw [hlive] at hmem
    cases hmem
  · have hsorted := h.pairwise_live
    rw [hlive] at hsorted hmem
    obtain ⟨hfirst, hothers⟩ := pairwise_cons.mp hsorted
    -- the first one is the one that is dropped: no stamp is smaller
    obtain rfl : first = (stamp, key.1, ip) := by
      rcases mem_cons.mp hmem with heq | hin
      · exact heq.symm
      · have hlt := hfirst _ hin
        have hlook := h.mem_live.mp (hlive ▸ mem_cons_self : first ∈ m.live)
        rcases mem_cons.mp (hdrop.behind hlook) with heq | hbehind
        · have := (Prod.mk.inj heq).2
          omega
        · have hqueue := h.sorted.sublist hdrop.suffix.sublist
          have := (pairwise_cons.mp hqueue).1 _ hbehind
          omega
    refine (h.evict hsome).1.live_eq hothers fun stamp' name ip' => ?_
    rw [herase, lookup_erase_iff, ← h.mem_live, hlive, mem_cons]
    constructor
    · intro hin
      refine ⟨fun hsame => ?_, .inr hin⟩
      have hin' : (stamp', name, ip') ∈ m.live := hlive ▸ mem_cons_of_mem _ hin
      have hlook := h.mem_live.mp hin'
      rw [hsame, hdrop.mapped] at hlook
      have := hfirst _ hin
      obtain ⟨-, rfl⟩ := Prod.mk.inj (Option.some.inj hlook)
      exact Nat.lt_irrefl _ this
    · rintro ⟨hne, heq | hin⟩
      · cases heq
        exact absurd (congrArg (Prod.mk key.1) hv6) hne
      · exact hin

/-- Down to the capacity the first ones go. -/
theorem live_shrink (h : Inv m) {fuel : Nat} {m' : FakeMap}
    (hrun : FakeMap.shrink fuel m = some m') :
    m'.live = m.live.drop (m.live.length - m.capacity) := by
  induction fuel generalizing m with
  | zero =>
    unfold FakeMap.shrink at hrun
    split at hrun
    · cases hrun
    · cases hrun
      rw [length_live, Nat.sub_eq_zero_of_le (by omega), drop_zero]
  | succ fuel ih =>
    unfold FakeMap.shrink at hrun
    split at hrun
    · next hover =>
      have hsome : ∃ key, key ∈ m.byName := exists_mem_of_size_pos (by omega)
      obtain ⟨hinv, hsize, hcap, -⟩ := h.evict hsome
      rw [ih hinv hrun, h.live_evict hsome, ← drop_one, drop_drop, length_drop, length_live]
      congr 1
      omega
    · cases hrun
      rw [length_live, Nat.sub_eq_zero_of_le (by omega), drop_zero]

theorem mem_exportFake (h : Inv m) : (name, ip) ∈ m.exportFake ↔ m.byIp.lookup ip = some name := by
  have hmirror := h.mirror name ip.isIpv6 ip
  rw [and_iff_left rfl] at hmirror
  rw [← hmirror, exportFake, mem_map]
  constructor
  · rintro ⟨⟨stamp, e⟩, hlive, rfl⟩
    exact ⟨stamp, h.mem_live.mp hlive⟩
  · rintro ⟨stamp, hlook⟩
    exact ⟨_, h.mem_live.mpr hlook, rfl⟩

end Inv

end FakeMap

open FakeMap

/-! ## Queries -/

/-- What a mapping is looked up by. -/
def keyOf (e : Text × IpAddr) : FakeKey := (e.1, e.2.isIpv6)

/-- Names in the order of their latest queries, least recent first, after one more query with this
answer: a known name is put last; a new one is added, and for want of room the first one goes. -/
def recency (capacity : Nat) (entries : List (Text × IpAddr)) (key : FakeKey)
    (answer : Except String IpAddr) : List (Text × IpAddr) :=
  let kept :=
    if key ∈ entries.map keyOf then entries.filter fun e => decide (keyOf e ≠ key)
    else if capacity ≤ entries.length then entries.tail else entries
  kept ++ (answer.toOption.map fun ip => (key.1, ip)).toList

variable {cfg : FakeConfig} {host name : Text} {key : FakeKey} {ip : IpAddr}

section Queries

variable {m : FakeMap}

theorem mem_keys_iff (h : Inv m) :
    key ∈ m.exportFake.map keyOf ↔ ∃ ip stamp, m.byName.lookup key = some (ip, stamp) := by
  rw [mem_map]
  constructor
  · rintro ⟨⟨name, ip⟩, hmem, rfl⟩
    obtain ⟨stamp, hlook⟩ := (h.mirror name ip.isIpv6 ip).mpr ⟨h.mem_exportFake.mp hmem, rfl⟩
    exact ⟨ip, stamp, hlook⟩
  · rintro ⟨ip, stamp, hlook⟩
    obtain ⟨hname, hv6⟩ := h.byIp_of_byName hlook
    exact ⟨(key.1, ip), h.mem_exportFake.mpr hname, Prod.ext rfl hv6⟩

theorem exportFake_touch (h : Inv m) {stamp : Nat} (hkey : m.byName.lookup key = some (ip, stamp)) :
    (m.touch key ip).exportFake =
      (m.exportFake.filter fun e => decide (keyOf e ≠ key)) ++ [(key.1, ip)] := by
  have hsame : ∀ e ∈ m.live, decide (keyOf e.2 ≠ key) = decide (e.2.2 ≠ ip) := by
    rintro ⟨stamp', name, ip'⟩ he
    exact decide_eq_decide.mpr (h.ip_ne_iff hkey (h.mem_live.mp he)).symm
  rw [exportFake, h.live_touch hkey, map_append, exportFake, filter_map]
  congr 2
  exact filter_congr fun e he => (hsame e he).symm

/-- `fake_address` keeps the names in the order of their latest queries. -/
theorem exportFake_fakeAddress (h : Bounded m) (v6 : Bool)
    (hname : cfg.absoluteName host = true) :
    (fakeAddress cfg m host v6).2.exportFake =
      recency m.capacity m.exportFake (host, v6) (fakeAddress cfg m host v6).1 := by
  have hanswer := fakeAddress_answer cfg m host v6
  generalize fakeAddress cfg m host v6 = out at hanswer
  have hroom : m.room.exportFake =
      if m.capacity ≤ m.exportFake.length then m.exportFake.tail else m.exportFake := by
    rw [length_exportFake, room]
    split
    · have hpos := h.capacity_pos
      have hsome : ∃ key, key ∈ m.byName := exists_mem_of_size_pos (by omega)
      rw [exportFake, h.toInv.live_evict hsome, map_tail, exportFake]
    · rfl
  have hnew : m.byName.lookup (host, v6) = none → (host, v6) ∉ m.exportFake.map keyOf := by
    intro hkey
    rw [mem_keys_iff h.toInv, hkey]
    rintro ⟨ip, stamp, hlook⟩
    cases hlook
  unfold recency
  cases hanswer with
  | unsupported hnone => cases hname.symm.trans hnone
  | @known ip stamp _ hkey =>
    rw [if_pos ((mem_keys_iff h.toInv).mpr ⟨ip, stamp, hkey⟩)]
    refine Eq.trans ?_ (exportFake_touch h.toInv hkey)
    split <;> rfl
  | @failed e got _ hkey htried =>
    rw [if_neg (hnew hkey), ← hroom]
    obtain ⟨next4, next6, rfl⟩ := htried.same
    exact (append_nil _).symm
  | @added ip got _ hkey htried =>
    obtain ⟨hinv, -, -, hnone⟩ := h.makeRoom hkey
    obtain ⟨rfl, hfree⟩ := htried.fresh
    have hgot := hinv.sameMappings htried.same
    rw [if_neg (hnew hkey), ← hroom]
    obtain ⟨next4, next6, rfl⟩ := htried.same
    rw [exportFake, hgot.live_insert hfree hnone, map_append]
    rfl

end Queries

/-! ## Mappings that can be restored -/

/-- The names and addresses that the map hands out can be restored. -/
structure Saved (cfg : FakeConfig) (m : FakeMap) : Prop where
  entries : ∀ key ip stamp, m.byName.lookup key = some (ip, stamp) →
    key.1.normalize = key.1 ∧ cfg.absoluteName key.1 = true ∧ Savable cfg ip
  next4 : 2 ≤ m.next4
  next6 : 0 < cfg.fakeIpRange6.prefixLen → 2 ≤ m.next6

section Saved

variable {m m' : FakeMap}

theorem saved_new (cfg : FakeConfig) (capacity : Nat) : Saved cfg (FakeMap.new capacity) where
  entries _ _ _ h := nomatch h
  next4 := Nat.le_refl _
  next6 _ := Nat.le_refl _

theorem Saved.cursors (h : Saved cfg m) : m.Cursors cfg := ⟨h.next4, h.next6⟩

/-- What is handed out can be taken back. -/
theorem Usable.savable (hrange : 0 < cfg.fakeIpRange6.prefixLen) {v6 : Bool} {o : Nat}
    (h : Usable cfg v6 o) : Savable cfg (addressAt cfg v6 o) := by
  have hlt := network_add_lt (h.1.trans h.2) h.2
  obtain ⟨hlow, hhigh⟩ := h
  cases v6 with
  | true =>
    have hhalf : cfg.fakeIpRange6.size ≤ 2 ^ 127 := Nat.pow_le_pow_right (by decide) (by omega)
    simp only [lastOffset, if_true] at hhigh hlt
    have hnat : (BitVec.ofNat 128 (cfg.fakeIpRange6.network + o)).toNat =
        cfg.fakeIpRange6.network + o := by
      rw [BitVec.toNat_ofNat, Nat.mod_eq_of_lt hlt]
    simp only [Savable, addressAt, if_true, inPool, CidrNet.contains, CidrNet.broadcast, hnat,
      Bool.and_eq_true, decide_eq_true_eq]
    omega
  | false =>
    simp only [lastOffset, Bool.false_eq_true, if_false] at hhigh hlt
    have hnat : (BitVec.ofNat 32 (cfg.fakeIpRange.network + o)).toNat =
        cfg.fakeIpRange.network + o := by
      rw [BitVec.toNat_ofNat, Nat.mod_eq_of_lt hlt]
    simp only [Savable, addressAt, Bool.false_eq_true, if_false, inPool, CidrNet.contains,
      CidrNet.broadcast, hnat, Bool.and_eq_true, decide_eq_true_eq, bne_iff_ne]
    omega

/-- To evict takes mappings away. -/
theorem lookup_of_evictFrom (order : List (IpAddr × Nat)) :
    (m.evictFrom order).next4 = m.next4 ∧ (m.evictFrom order).next6 = m.next6 ∧
      ∀ {key v}, (m.evictFrom order).byName.lookup key = some v → m.byName.lookup key = some v := by
  induction order with
  | nil => exact ⟨rfl, rfl, id⟩
  | cons e rest ih =>
    unfold evictFrom
    split
    · exact ih
    · dsimp only
      split
      · exact ⟨rfl, rfl, fun hlook => (lookup_erase_iff.mp hlook).2⟩
      · exact ih

variable (h : Saved cfg m)
include h

theorem Saved.evict : Saved cfg m.evict := by
  obtain ⟨h4, h6, hlook⟩ := lookup_of_evictFrom (m := m) m.order
  exact ⟨fun key ip stamp hkey => h.entries key ip stamp (hlook hkey), h4 ▸ h.next4, h6 ▸ h.next6⟩

theorem Saved.room : Saved cfg m.room := by
  unfold FakeMap.room
  split
  · exact h.evict
  · exact h

theorem Saved.insert (hname : name.normalize = name)
    (habsolute : cfg.absoluteName name = true) (hip : Savable cfg ip) :
    Saved cfg (m.insert name ip) := by
  refine ⟨fun key ip' stamp hkey => ?_, h.next4, h.next6⟩
  rcases lookup_insert_iff.mp hkey with ⟨rfl, hval⟩ | ⟨-, hold⟩
  · obtain ⟨rfl, -⟩ := Prod.mk.inj hval
    exact ⟨hname, habsolute, hip⟩
  · exact h.entries key ip' stamp hold

/-- Only the cursors have moved. -/
theorem Saved.of_same (hsame : SameMappings m m') (hcursors : m'.Cursors cfg) : Saved cfg m' := by
  obtain ⟨next4, next6, rfl⟩ := hsame
  exact ⟨h.entries, hcursors.next4, hcursors.next6⟩

theorem Saved.fakeAddress (hrange : 0 < cfg.fakeIpRange6.prefixLen)
    (hhost : host.normalize = host) (v6 : Bool) : Saved cfg (fakeAddress cfg m host v6).2 := by
  have hanswer := fakeAddress_answer cfg m host v6
  generalize Core.fakeAddress cfg m host v6 = out at hanswer
  cases hanswer with
  | unsupported hname => exact h
  | @known ip stamp hname hkey =>
    have htouch : Saved cfg (m.touch (host, v6) ip) := by
      refine ⟨fun key ip' stamp' hkey' => ?_, h.next4, h.next6⟩
      rcases lookup_insert_iff.mp hkey' with ⟨rfl, hval⟩ | ⟨-, hold⟩
      · obtain ⟨rfl, -⟩ := Prod.mk.inj hval
        exact h.entries _ _ _ hkey
      · exact h.entries key ip' stamp' hold
    split
    · exact ⟨htouch.entries, htouch.next4, htouch.next6⟩
    · exact htouch
  | failed hname hkey htried =>
    exact h.room.of_same htried.same (htried.cursors h.room.cursors).1
  | @added ip got hname hkey htried =>
    obtain ⟨hcursors, husable⟩ := htried.cursors h.room.cursors
    obtain ⟨o, ho, rfl, -⟩ := htried.found ip rfl
    exact (h.room.of_same htried.same hcursors).insert hhost hname
      ((husable (fun _ => hrange) o (mem_of_getLast? ho)).savable hrange)

omit h

/-- A saved address that is taken back. -/
theorem advancePast_ok (cfg : FakeConfig) (m : FakeMap) (h : Savable cfg ip) :
    ∃ got, advancePast cfg m ip = .ok got ∧ SameMappings m got := by
  obtain ⟨-, hoffset⟩ := h
  cases ip with
  | v4 ip =>
    have hlow : ¬ ip.toNat - cfg.fakeIpRange.network < 2 := by omega
    exact ⟨_, if_neg hlow, _, m.next6, rfl⟩
  | v6 ip =>
    have hlow : ¬ ip.toNat - cfg.fakeIpRange6.network < 2 := by omega
    have hhigh : ¬ 2 ^ 128 ≤ ip.toNat - cfg.fakeIpRange6.network + 1 := by omega
    exact ⟨_, (if_neg hlow).trans (if_neg hhigh), m.next4, _, rfl⟩

/-- And what `import_fake` has taken can be saved again. -/
theorem Saved.importEntry (h : Saved cfg m) {entry : Text × IpAddr}
    (hrun : importEntry cfg m entry = .ok m') : Saved cfg m' := by
  obtain rfl | ⟨got, hsame, hcursors, hadded⟩ := importEntry_cases hrun
  · exact h
  · have hgot := h.of_same hsame (hcursors h.cursors)
    obtain rfl | ⟨rfl, hip, hname, -⟩ := hadded
    · exact hgot
    · exact hgot.insert (Text.normalize_normalize _) hname hip

end Saved

/-! ## Import -/

section

variable {m m' : FakeMap} {e : Text × IpAddr}

theorem importEntry_of_past {got : FakeMap} (hname : e.1.normalize = e.1)
    (habsolute : cfg.absoluteName e.1 = true) (hpool : inPool cfg e.2 = true)
    (hpast : advancePast cfg m e.2 = .ok got) (hfresh : got.byIp.lookup e.2 = none)
    (hnew : got.byName.lookup (keyOf e) = none) :
    importEntry cfg m e = .ok (got.insert e.1 e.2) := by
  have hnormal : (e.1.trimEndMatches '.').toAsciiLowercase = e.1 := hname
  have hkey : got.byName.lookup (e.1, e.2.isIpv6) = none := hnew
  unfold importEntry
  rw [hnormal, hpool, hpast]
  dsimp only
  rw [habsolute, hfresh, hkey]
  rfl

/-- An entry that an import takes back comes last. -/
theorem importEntry_ok (h : Inv m) (hname : e.1.normalize = e.1)
    (habsolute : cfg.absoluteName e.1 = true) (hip : Savable cfg e.2)
    (hfresh : m.byIp.lookup e.2 = none) (hnew : m.byName.lookup (keyOf e) = none) :
    ∃ m', importEntry cfg m e = .ok m' ∧ m'.exportFake = m.exportFake ++ [e] := by
  obtain ⟨got, hpast, hsame⟩ := advancePast_ok cfg m hip
  have hgot := h.sameMappings hsame
  obtain ⟨next4, next6, rfl⟩ := hsame
  refine ⟨_, importEntry_of_past hname habsolute hip.1 hpast hfresh hnew, ?_⟩
  rw [exportFake, hgot.live_insert hfresh hnew, map_append]
  rfl

/-- Entries with different names and addresses are all taken back, in order. -/
theorem import_all {l : List (Text × IpAddr)} (h : Inv m)
    (hips : ((m.exportFake ++ l).map Prod.snd).Nodup)
    (hkeys : ((m.exportFake ++ l).map keyOf).Nodup)
    (hall : ∀ e ∈ l, e.1.normalize = e.1 ∧ cfg.absoluteName e.1 = true ∧ Savable cfg e.2) :
    ∃ m', l.foldlM (importEntry cfg) m = .ok m' ∧ m'.exportFake = m.exportFake ++ l := by
  induction l generalizing m with
  | nil => exact ⟨m, rfl, (append_nil _).symm⟩
  | cons e l ih =>
    obtain ⟨hname, habsolute, hip⟩ := hall e mem_cons_self
    have hfresh : m.byIp.lookup e.2 = none := by
      cases hlook : m.byIp.lookup e.2 with
      | none => rfl
      | some name =>
        rw [map_append] at hips
        refine absurd mem_cons_self (disjoint_of_nodup_append hips ?_)
        exact mem_map.mpr ⟨(name, e.2), h.mem_exportFake.mpr hlook, rfl⟩
    have hnew : m.byName.lookup (keyOf e) = none := by
      cases hlook : m.byName.lookup (keyOf e) with
      | none => rfl
      | some v =>
        rw [map_append] at hkeys
        refine absurd mem_cons_self (disjoint_of_nodup_append hkeys ?_)
        exact (mem_keys_iff h).mpr ⟨v.1, v.2, hlook⟩
    obtain ⟨m₁, hone, hexport⟩ := importEntry_ok h hname habsolute hip hfresh hnew
    have hassoc : m₁.exportFake ++ l = m.exportFake ++ e :: l := by
      rw [hexport, append_assoc, singleton_append]
    obtain ⟨m', hrest, hexport'⟩ := ih (inv_importEntry h hone).1 (hassoc ▸ hips)
      (hassoc ▸ hkeys) fun e' he' => hall e' (mem_cons_of_mem _ he')
    refine ⟨m', ?_, hexport'.trans hassoc⟩
    rw [foldlM_cons, hone]
    exact hrest

/-- The mappings of a map have different addresses and names. -/
theorem nodup_exportFake (h : Inv m) :
    (m.exportFake.map Prod.snd).Nodup ∧ (m.exportFake.map keyOf).Nodup := by
  have hdistinct : m.live.Pairwise fun a b => a.2.2 ≠ b.2.2 ∧ keyOf a.2 ≠ keyOf b.2 := by
    refine h.pairwise_live.imp_of_mem fun {a b} ha hb hlt => ?_
    have hla : m.byName.lookup (keyOf a.2) = some (a.2.2, a.1) := h.mem_live.mp ha
    have hlb : m.byName.lookup (keyOf b.2) = some (b.2.2, b.1) := h.mem_live.mp hb
    have hkeys : keyOf a.2 ≠ keyOf b.2 := by
      intro hsame
      rw [hsame, hlb] at hla
      have := (Prod.mk.inj (Option.some.inj hla)).2
      omega
    exact ⟨(h.ip_ne_iff hlb hla).mpr hkeys, hkeys⟩
  constructor
  · rw [exportFake, map_map]
    exact pairwise_map.mpr (hdistinct.imp And.left)
  · rw [exportFake, map_map]
    exact pairwise_map.mpr (hdistinct.imp And.right)

/-- An import of a saved map, into any other. -/
theorem importFake_exportFake (h : Inv m) (hsaved : Saved cfg m)
    (hcap : m.byName.size ≤ fakeCapacity) (target : FakeMap) :
    ∃ m', (∀ fuel, m.exportFake.length ≤ fuel →
        importFake cfg fuel target m.exportFake = some (.ok (), m')) ∧ Inv m' ∧
      m'.capacity = target.capacity ∧
      m'.exportFake = m.exportFake.drop (m.exportFake.length - target.capacity) := by
  obtain ⟨hips, hkeys⟩ := nodup_exportFake h
  have hall : ∀ e ∈ m.exportFake,
      e.1.normalize = e.1 ∧ cfg.absoluteName e.1 = true ∧ Savable cfg e.2 := by
    rintro ⟨name, ip⟩ he
    obtain ⟨stamp, hlook⟩ := (h.mirror name ip.isIpv6 ip).mpr ⟨h.mem_exportFake.mp he, rfl⟩
    exact hsaved.entries _ _ _ hlook
  have hnone : (FakeMap.new target.capacity).exportFake ++ m.exportFake = m.exportFake := by
    rw [exportFake_new, nil_append]
  obtain ⟨built, hrun, hexport⟩ := import_all (inv_new target.capacity)
    (by rwa [hnone]) (by rwa [hnone]) hall
  rw [hnone] at hexport
  have hbuild : importEntries cfg target m.exportFake = .ok built := by
    rw [importEntries, if_neg (by rw [length_exportFake]; omega)]
    exact hrun
  obtain ⟨hinv, hbuiltcap⟩ := inv_importEntries hbuild
  have hsize : built.byName.size = m.exportFake.length := by
    rw [← length_exportFake, hexport]
  obtain ⟨m', hshrink⟩ := hinv.shrink_returns
  obtain ⟨⟨hinv', hcap'⟩, -⟩ := hinv.shrink (hshrink _ (Nat.le_refl _))
  have hlive := hinv.live_shrink (hshrink _ (Nat.le_refl _))
  refine ⟨{ m' with generation := 0 }, fun fuel hfuel => ?_, hinv'.of_counters _ _ _ 0,
    hcap'.trans hbuiltcap, ?_⟩
  · rw [importFake, hbuild]
    dsimp only
    rw [hshrink fuel (by omega)]
    rfl
  · show m'.exportFake = _
    rw [exportFake, hlive, map_drop, ← exportFake, hexport, length_live, hsize, hbuiltcap]

end

/-! ## Every history of queries -/

/-- The maps that queries for names in lower case, without a trailing dot, can lead to. -/
inductive Queried (cfg : FakeConfig) : FakeMap → Prop where
  | new : Queried cfg (FakeMap.new fakeCapacity)
  | fakeAddress {m} (before : Queried cfg m) {host} (v6 : Bool)
      (hlower : host.toAsciiLowercase = host) (hdot : host.endsWith '.' = false) :
      Queried cfg (fakeAddress cfg m host v6).2
  | setFakeCapacity {m m'} (before : Queried cfg m) {capacity fuel}
      (run : setFakeCapacity fuel m capacity = some m') : Queried cfg m'
  | importFake {m m'} (before : Queried cfg m) {entries fuel r}
      (run : importFake cfg fuel m entries = some (r, m')) : Queried cfg m'

theorem Queried.reachable {m : FakeMap} (h : Queried cfg m) :
    Reachable cfg m := by
  induction h with
  | new => exact .new
  | fakeAddress _ v6 _ _ ih => exact .fakeAddress ih _ v6
  | setFakeCapacity _ run ih => exact .setFakeCapacity ih run
  | importFake _ run ih => exact .importFake ih run

theorem normalize_of_lower (hlower : host.toAsciiLowercase = host)
    (hdot : host.endsWith '.' = false) : host.normalize = host := by
  have htrim : host.trimEndMatches '.' = host := by
    rw [Text.trimEndMatches, rdropWhile_eq_self_iff]
    intro hne hlast
    rw [Text.endsWith, getLast?_eq_some_getLast hne] at hdot
    simp_all
  rw [Text.normalize, htrim, hlower]

theorem Queried.saved (hrange : 0 < cfg.fakeIpRange6.prefixLen) {m : FakeMap}
    (h : Queried cfg m) : Saved cfg m := by
  induction h with
  | new => exact saved_new cfg _
  | fakeAddress _ v6 hlower hdot ih =>
    exact ih.fakeAddress hrange (normalize_of_lower hlower hdot) v6
  | @setFakeCapacity m m' _ capacity fuel run ih =>
    have hsame : Saved cfg { m with capacity := max capacity 1 } := ⟨ih.entries, ih.next4, ih.next6⟩
    exact (shrink_keeps (fun _ hm _ => hm.evict) hsame run).1
  | importFake _ run ih =>
    exact importFake_keeps (saved_new cfg) (fun hm hone => hm.importEntry hone)
      (fun _ hm => hm.evict) (fun _ _ hm => ⟨hm.entries, hm.next4, hm.next6⟩) ih run

/-- **Saved fake-IP mappings.** Whatever queries a map has answered, an import of what it exports
restores the latest of its mappings, as many as the other map may hold, in the order of their latest
queries; a failed import changes nothing. Evictions take the first in that order, and queries keep
it, so that they go on in the same order. -/
theorem fake_persistence (cfg : FakeConfig) (hrange : 0 < cfg.fakeIpRange6.prefixLen) :
    (∀ m, Queried cfg m → m.capacity ≤ 32768 → ∀ target : FakeMap,
      ∃ m', (∀ fuel, m.exportFake.length ≤ fuel →
          importFake cfg fuel target m.exportFake = some (.ok (), m')) ∧
        m'.capacity = target.capacity ∧
        m'.exportFake = m.exportFake.drop (m.exportFake.length - target.capacity) ∧
        (∀ name ip, m'.byIp.lookup ip = some name ↔ (name, ip) ∈ m'.exportFake) ∧
        ∀ name v6 ip, (∃ stamp, m'.byName.lookup (name, v6) = some (ip, stamp)) ↔
          (name, ip) ∈ m'.exportFake ∧ ip.isIpv6 = v6) ∧
    (∀ m, Reachable cfg m → m.exportFake ≠ [] → m.evict.exportFake = m.exportFake.tail) ∧
    (∀ m, Reachable cfg m → ∀ host v6, cfg.absoluteName host = true →
      (fakeAddress cfg m host v6).2.exportFake =
        recency m.capacity m.exportFake (host, v6) (fakeAddress cfg m host v6).1) ∧
    ∀ m entries fuel e m', importFake cfg fuel m entries = some (.error e, m') → m' = m := by
  refine ⟨fun m hm hcap target => ?_, fun m hm hsome => ?_, fun m hm host v6 hname => ?_,
    fun m entries fuel e m' hrun => ?_⟩
  · have hbounded := bounded_of_reachable hm.reachable
    have hsize := hbounded.size_le
    obtain ⟨m', hrun, hinv, hcap', hexport⟩ := importFake_exportFake hbounded.toInv
      (hm.saved hrange) (show m.byName.size ≤ 32768 by omega) target
    refine ⟨m', hrun, hcap', hexport, fun name ip => hinv.mem_exportFake.symm,
      fun name v6 ip => ?_⟩
    rw [hinv.mirror name v6 ip, hinv.mem_exportFake]
  · have hbounded := bounded_of_reachable hm
    have hpos : 0 < m.byName.size := by
      rw [← length_exportFake]
      exact length_pos_iff.mpr hsome
    rw [exportFake, hbounded.toInv.live_evict (exists_mem_of_size_pos hpos), map_tail,
      exportFake]
  · exact exportFake_fakeAddress (bounded_of_reachable hm) v6 hname
  · unfold importFake at hrun
    split at hrun
    · cases hrun
      rfl
    · obtain ⟨shrunk, -, hout⟩ := Option.map_eq_some_iff.mp hrun
      cases hout

/-- Of two names, one comes back where there is room for one. -/
theorem fake_persistence_two :
    ∃ (cfg : FakeConfig) (m m' : FakeMap), Queried cfg m ∧
      m.exportFake = [(['a'], .v4 0xC6120002), (['b'], .v4 0xC6120003)] ∧
      importFake cfg 2 (FakeMap.new 1) m.exportFake = some (.ok (), m') ∧
      m'.exportFake = [(['b'], .v4 0xC6120003)] := by
  let cfg : FakeConfig :=
    ⟨⟨0xC6120000, 16, by decide⟩, ⟨0xFC00 <<< 112, 18, by decide⟩, fun _ => true⟩
  have hall := fake_persistence cfg (by decide)
  have hfirst : Queried cfg (fakeAddress cfg (FakeMap.new fakeCapacity) ['a'] false).2 :=
    .fakeAddress .new false (by decide) (by decide)
  have hsecond : Queried cfg (fakeAddress cfg
      (fakeAddress cfg (FakeMap.new fakeCapacity) ['a'] false).2 ['b'] false).2 :=
    hfirst.fakeAddress false (by decide) (by decide)
  have hexport₂ : (fakeAddress cfg
      (fakeAddress cfg (FakeMap.new fakeCapacity) ['a'] false).2 ['b'] false).2.exportFake =
      [(['a'], .v4 0xC6120002), (['b'], .v4 0xC6120003)] := by
    rw [hall.2.2.1 _ hfirst.reachable ['b'] false rfl]
    decide +kernel
  obtain ⟨m', hrun, -, hrestored, -⟩ := hall.1 _ hsecond (by decide +kernel) (FakeMap.new 1)
  refine ⟨cfg, _, m', hsecond, hexport₂, hrun 2 (by rw [hexport₂]; decide), ?_⟩
  rw [hrestored, hexport₂]
  rfl

end Clyntis.Core
