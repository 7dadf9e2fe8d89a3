import Clyntis.Core.DnsCache

/-!
# The size of the DNS cache (`dns.rs`, `cached_exchange` and `clear_cache`)

The cache counts its bytes on the side. An insertion drops what has expired, adds up what is left,
removes the oldest entries until there is room, and inserts.

- `Round`, `Loop`: the `while` loop, over any order in which the map lists its entries;
- `Stored`: an insertion, with any reading of the clock each time it is read;
- `Bounded`: the count is exact and the limits are kept;
- `cache_bounds`: so it is after any insertions and clears, and the loop comes to an end.
-/

namespace Clyntis.Core.Dns

open Lib List Table

namespace Cache

/-- What an answer counts for. -/
def sizeOf (key bytes : Bytes) : Nat := key.length + bytes.length + cacheOverhead

/-- There is no room yet for `size` bytes. -/
def full (size : Nat) (cache : Cache) : Prop :=
  cacheEntries ≤ cache.entries.size ∨ cacheBytes < cache.size + size

/-- A round of the loop. The map lists its entries in any order. -/
inductive Round (size : Nat) (cache : Cache) : Cache → Prop where
  | remove {order : List (Sigma fun _ : Bytes => CacheEntry)}
      {oldest : Sigma fun _ : Bytes => CacheEntry} (hfull : cache.full size)
      (horder : order.Perm cache.entries.entries)
      (holdest : order.argmin (fun entry => entry.2.inserted) = some oldest) :
      Round size cache (cache.remove oldest.1)

/-- The loop from its beginning to its end. -/
inductive Loop (size : Nat) : Cache → Cache → Prop where
  | room {cache} (h : ¬ cache.full size) : Loop size cache cache
  | none {cache} (hfull : cache.full size) (hempty : cache.entries = ∅) : Loop size cache cache
  | round {cache mid done} (hround : Round size cache mid) (hloop : Loop size mid done) :
      Loop size cache done

/-- Before the loop: what has not expired by the time the clock is read for it, but for the key. -/
def swept (cache : Cache) (clock : Bytes → Nat) (key : Bytes) : Cache :=
  let live : Table Bytes CacheEntry :=
    (cache.entries.retain fun k entry => decide (clock k < entry.expires)).erase key
  ⟨live, (live.values.map CacheEntry.size).sum⟩

/-- After the loop. -/
def add (cache : Cache) (key bytes : Bytes) (inserted expires filler : Nat) : Cache :=
  if sizeOf key bytes ≤ cacheBytes then
    { entries := cache.entries.insert key ⟨bytes, inserted, expires, sizeOf key bytes, filler⟩
      size := cache.size + sizeOf key bytes }
  else cache

/-- The second critical section of `cached_exchange`. -/
inductive Stored (cache : Cache) : Cache → Prop where
  | store {key bytes clock done inserted expires filler}
      (hloop : Loop (sizeOf key bytes) (cache.swept clock key) done) :
      Stored cache (done.add key bytes inserted expires filler)

/-- What insertions and clears can lead to. -/
inductive Reachable : Cache → Prop where
  | start : Reachable {}
  | stored {cache cache'} (h : Reachable cache) (hstored : Stored cache cache') : Reachable cache'
  | cleared {cache} (h : Reachable cache) : Reachable {}

/-- The count is exact, and the limits are kept. -/
structure Bounded (cache : Cache) : Prop where
  size : cache.size = cache.entries.total CacheEntry.size
  bytes : cache.size ≤ cacheBytes
  entries : cache.entries.size ≤ cacheEntries

section Loop

variable {size : Nat} {cache mid done : Cache}

/-- A round removes an entry that is in the cache and has been there longest. -/
theorem Round.cases (h : Round size cache mid) :
    ∃ k e, cache.entries.lookup k = some e ∧
      (∀ k' e', cache.entries.lookup k' = some e' → e.inserted ≤ e'.inserted) ∧
      mid.entries = cache.entries.erase k ∧ mid.size = cache.size - e.size := by
  cases h with
  | @remove order oldest hfull horder holdest =>
    have hmem : oldest ∈ cache.entries.entries := horder.mem_iff.mp (argmin_mem holdest)
    have hlookup : cache.entries.lookup oldest.1 = some oldest.2 :=
      lookup_eq_some_iff.mpr hmem
    refine ⟨oldest.1, oldest.2, hlookup, fun k' e' he' => ?_, rfl, ?_⟩
    · have hin := horder.mem_iff.mpr (lookup_eq_some_iff.mp he')
      exact le_of_mem_argmin (f := fun entry => entry.2.inserted) hin holdest
    · rw [Cache.remove, hlookup]
      rfl

theorem Round.exact (h : Round size cache mid)
    (hsize : cache.size = cache.entries.total CacheEntry.size) :
    mid.size = mid.entries.total CacheEntry.size := by
  obtain ⟨k, e, hlookup, -, hentries, hmid⟩ := h.cases
  have htotal : cache.entries.total CacheEntry.size = _ := (total_erase hlookup).symm
  rw [hmid, hentries, hsize, htotal, Nat.add_sub_cancel]

theorem Round.exact_of_rounds (h : Relation.ReflTransGen (Round size) cache mid)
    (hsize : cache.size = cache.entries.total CacheEntry.size) :
    mid.size = mid.entries.total CacheEntry.size := by
  induction h with
  | refl => exact hsize
  | tail _ hround ih => exact hround.exact ih

theorem Round.fewer (h : Round size cache mid) : mid.entries.size + 1 = cache.entries.size := by
  obtain ⟨k, e, hlookup, -, hentries, -⟩ := h.cases
  rw [hentries]
  exact size_erase_of_mem (mem_iff_lookup.mpr ⟨e, hlookup⟩)

/-- Until there is room there is a next round. -/
theorem exists_round (hfull : cache.full size) (hentries : cache.entries ≠ ∅) :
    ∃ mid, Round size cache mid := by
  cases holdest : cache.entries.entries.argmin (fun entry => entry.2.inserted) with
  | none => exact absurd (AList.ext (argmin_eq_none.mp holdest)) hentries
  | some oldest => exact ⟨_, .remove hfull (.refl _) holdest⟩

/-- The loop ends. -/
theorem exists_loop (size : Nat) (cache : Cache) : ∃ done, Loop size cache done := by
  generalize hn : cache.entries.size = n
  induction n using Nat.strongRecOn generalizing cache with
  | ind n ih =>
    by_cases hfull : cache.full size
    · by_cases hempty : cache.entries = ∅
      · exact ⟨cache, .none hfull hempty⟩
      · obtain ⟨mid, hround⟩ := exists_round hfull hempty
        have hfewer := hround.fewer
        obtain ⟨done, hloop⟩ := ih mid.entries.size (by omega) mid rfl
        exact ⟨done, .round hround hloop⟩
    · exact ⟨cache, .room hfull⟩

/-- However it goes. -/
theorem not_round_forever (f : Nat → Cache) : ¬ ∀ n, Round size (f n) (f (n + 1)) := by
  intro h
  have hsum : ∀ n, (f n).entries.size + n = (f 0).entries.size := by
    intro n
    induction n with
    | zero => rfl
    | succ n ih =>
      have := (h n).fewer
      omega
  have hpast := hsum ((f 0).entries.size + 1)
  omega

/-- After the loop there is room, or nothing at all. -/
theorem Loop.spec (h : Loop size cache done)
    (hsize : cache.size = cache.entries.total CacheEntry.size) :
    done.size = done.entries.total CacheEntry.size ∧ (¬ done.full size ∨ done.entries = ∅) ∧
      ∀ k, k ∈ done.entries → k ∈ cache.entries := by
  induction h with
  | room h => exact ⟨hsize, .inl h, fun _ => id⟩
  | none hfull hempty => exact ⟨hsize, .inr hempty, fun _ => id⟩
  | round hround hloop ih =>
    obtain ⟨hdone, hend, hkeys⟩ := ih (hround.exact hsize)
    obtain ⟨k, e, -, -, hentries, -⟩ := hround.cases
    refine ⟨hdone, hend, fun k' hk' => ?_⟩
    have hmid := hkeys k' hk'
    rw [hentries] at hmid
    exact (AList.mem_erase.mp hmid).2

end Loop

theorem swept_exact (cache : Cache) (clock : Bytes → Nat) (key : Bytes) :
    (cache.swept clock key).size = (cache.swept clock key).entries.total CacheEntry.size := rfl

theorem Bounded.stored {cache cache' : Cache} (h : Stored cache cache') : Bounded cache' := by
  cases h with
  | @store key bytes clock done inserted expires filler hloop =>
    obtain ⟨hsize, hroom, hkeys⟩ := hloop.spec (swept_exact cache clock key)
    have hnew : key ∉ done.entries := by
      intro hin
      have hswept : key ∈ (cache.swept clock key).entries := hkeys key hin
      exact (AList.mem_erase.mp hswept).1 rfl
    have hlimits : done.entries.size < cacheEntries ∧
        (done.size + sizeOf key bytes ≤ cacheBytes ∨ done.size = 0) := by
      rcases hroom with hroom | hempty
      · unfold full at hroom
        omega
      · rw [hsize, hempty]
        exact ⟨by decide, .inr rfl⟩
    unfold add
    split
    · next hfits =>
      refine ⟨?_, ?_, ?_⟩
      · rw [total_insert_of_notMem hnew, hsize]
      · show done.size + sizeOf key bytes ≤ cacheBytes
        omega
      · rw [size_insert_of_notMem _ hnew]
        exact hlimits.1
    · refine ⟨hsize, ?_, Nat.le_of_lt hlimits.1⟩
      omega

theorem bounded_empty : Bounded {} := ⟨rfl, Nat.zero_le _, Nat.zero_le _⟩

/-! ## Insertions as the code makes them -/

theorem loop_evictLoop {size rounds : Nat} {cache : Cache} (h : cache.entries.size ≤ rounds) :
    Loop size cache (evictLoop size rounds cache) := by
  induction rounds generalizing cache with
  | zero =>
    have hempty : cache.entries = ∅ := AList.ext (eq_nil_of_length_eq_zero (Nat.le_zero.mp h))
    by_cases hfull : cache.full size
    · exact .none hfull hempty
    · exact .room hfull
  | succ rounds ih =>
    rw [evictLoop]
    split
    · next hfull =>
      cases hargmin : cache.entries.entries.argmin (fun entry => entry.2.inserted) with
      | none =>
        rw [Cache.oldest, hargmin]
        exact .none hfull (AList.ext (argmin_eq_none.mp hargmin))
      | some oldest =>
        have hround : Round size cache (cache.remove oldest.1) := .remove hfull (.refl _) hargmin
        have hfewer := hround.fewer
        rw [Cache.oldest, hargmin]
        exact .round hround (ih (by omega))
    · next hroom => exact .room hroom

/-- With one reading of the clock. -/
theorem stored_store (cache : Cache) (key bytes : Bytes) (ttl now filler : Nat) :
    Stored cache (cache.store key bytes ttl now filler) := by
  have hloop : Loop (sizeOf key bytes) (cache.swept (fun _ => now) key)
      (evict (sizeOf key bytes) (cache.swept (fun _ => now) key)) :=
    loop_evictLoop (Nat.le_refl _)
  exact .store hloop

/-- **The bounds of the DNS cache.** After any insertions and clears the recorded size is that of
the entries, and within the limits. In the next insertion, whatever it is and whatever the clock
says, the loop comes to an end, however it goes; it removes only entries that have been there
longest, and their size is not more than what it is subtracted from. -/
theorem cache_bounds {cache : Cache} (h : Reachable cache) :
    cache.size = cache.entries.total CacheEntry.size ∧ cache.size ≤ 1024 * 1024 ∧
    cache.entries.size ≤ 4096 ∧
    ∀ (key bytes : Bytes) (clock : Bytes → Nat),
      (∃ done, Loop (sizeOf key bytes) (cache.swept clock key) done) ∧
      (∀ f : Nat → Cache, f 0 = cache.swept clock key →
        ¬ ∀ n, Round (sizeOf key bytes) (f n) (f (n + 1))) ∧
      ∀ mid mid', Relation.ReflTransGen (Round (sizeOf key bytes)) (cache.swept clock key) mid →
        Round (sizeOf key bytes) mid mid' →
          ∃ k e, mid.entries.lookup k = some e ∧ e.size ≤ mid.size ∧
            (∀ k' e', mid.entries.lookup k' = some e' → e.inserted ≤ e'.inserted) ∧
            mid'.entries = mid.entries.erase k ∧ mid'.size = mid.size - e.size := by
  have hbounded : Bounded cache := by
    cases h with
    | start | cleared => exact bounded_empty
    | stored _ hstored => exact .stored hstored
  refine ⟨hbounded.size, hbounded.bytes, hbounded.entries, fun key bytes clock =>
    ⟨exists_loop _ _, fun f _ => not_round_forever f, fun mid mid' hrounds hround => ?_⟩⟩
  have hexact := Round.exact_of_rounds hrounds (swept_exact cache clock key)
  obtain ⟨k, e, hlookup, holdest, hentries, hsize⟩ := hround.cases
  refine ⟨k, e, hlookup, ?_, holdest, hentries, hsize⟩
  have htotal : mid.entries.total CacheEntry.size = _ := (total_erase hlookup).symm
  omega

/-- An answer that takes all the room: the one before it is evicted. -/
theorem cache_bounds_evicting : ∃ old cache : Cache, Reachable old ∧ old.entries.keys = [[1]] ∧
    cache = old.store [2] (replicate 1048319 0) 60 1 1 ∧ cache.entries.keys = [[2]] ∧
      cache.size = 1024 * 1024 ∧ cache.size = cache.entries.total CacheEntry.size := by
  have hold : Reachable (({} : Cache).store [1] [2, 3] 60 0 0) :=
    .stored .start (stored_store _ _ _ _ _ _)
  have hstore : (({} : Cache).store [1] [2, 3] 60 0 0).store [2] (replicate 1048319 0) 60 1 1
      = ⟨AList.singleton [2] ⟨replicate 1048319 0, 1, 1 + 60 * second, 1048576, 1⟩, 1048576⟩ := by
    unfold store
    rw [length_replicate]
    rfl
  have hnew := hold.stored (stored_store _ [2] (replicate 1048319 0) 60 1 1)
  refine ⟨_, _, hold, by decide, rfl, ?_, ?_, (cache_bounds hnew).1⟩
  · rw [hstore]
    rfl
  · rw [hstore]

end Cache

end Clyntis.Core.Dns
