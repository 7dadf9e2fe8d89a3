import Clyntis.Core.DnsRace
import Mathlib.Data.List.MinMax

/-!
# The DNS cache (`dns.rs`, `Cache` and the critical sections of `cached_exchange`)

Answers are kept in wire form, under the wire form of the request with its id set to
zero, for as long as their records allow. The cache is bounded in entries and in bytes;
what was inserted first gives way.

- `Response.ttl`: for how long an answer may be kept;
- `Cache.find`: the first critical section, `Cache.store`: the second one.

Times are in nanoseconds. The wire format is given from outside.
-/

namespace Clyntis.Core.Dns

open Lib Table

/-- `Record`: its TTL, the minimum of a SOA record, and the rest. -/
structure Record where
  ttl : Nat
  soaMinimum : Option Nat := none
  data : Bytes := []
  deriving DecidableEq, Repr

/-- A message as the cache reads it. -/
structure Response extends Message where
  id : UInt16
  truncated : Bool := false
  answers : List Record := []
  nameServers : List Record := []
  additionals : List Record := []
  deriving DecidableEq, Repr

/-- A request: its id, its wire form with id zero, and the name it asks for. -/
structure Request where
  id : UInt16
  key : Except Error Bytes
  host : Text

/-- The wire format: what a reply holds, `to_vec` and `from_vec`. -/
structure Codec where
  view : Message → Response
  encode : Response → Except Error Bytes
  decode : Bytes → Option Response

namespace Response

/-- NXDOMAIN, or no answer records. -/
def negative (r : Response) : Bool := decide (r.code = .nxDomain) || r.answers.isEmpty

/-- The seconds for which an answer is kept. -/
def ttl (r : Response) : Nat :=
  min 3600 <|
    if r.negative then
      (r.nameServers.filterMap fun record => record.soaMinimum.map (min record.ttl)).min?.getD 0
    else ((r.answers ++ r.nameServers ++ r.additionals).map Record.ttl).min?.getD 0

/-- Whether an answer is kept at all. -/
def kept (r : Response) : Bool := decide (0 < r.ttl) && !r.truncated && answered r.toMessage

/-- What is left of the records after some seconds. -/
def aged (elapsed : Nat) (records : List Record) : List Record :=
  records.map fun record => { record with ttl := record.ttl - elapsed }

/-- A kept answer, for a request with this id and after some seconds. -/
def serve (r : Response) (id : UInt16) (elapsed : Nat) : Response :=
  { r with
    id
    answers := aged elapsed r.answers
    nameServers := aged elapsed r.nameServers
    additionals := aged elapsed r.additionals }

end Response

/-- `CacheEntry`. -/
structure CacheEntry where
  response : Bytes
  inserted : Nat
  expires : Nat
  size : Nat
  /-- the call that filled the entry; the source does not keep it -/
  filler : Nat
  deriving DecidableEq, Repr

/-- `Cache`. -/
structure Cache where
  entries : Table Bytes CacheEntry := ∅
  size : Nat := 0

/-- `CACHE_ENTRIES`. -/
def cacheEntries : Nat := 4096

/-- `CACHE_BYTES`. -/
def cacheBytes : Nat := 1024 * 1024

/-- `CACHE_OVERHEAD`. -/
def cacheOverhead : Nat := 256

/-- One second. -/
def second : Nat := 1000000000

namespace Cache

/-- The entry that answers a request now, and the answer. -/
def find (codec : Codec) (cache : Cache) (key : Bytes) (id : UInt16) (now : Nat) :
    Option (CacheEntry × Response) :=
  match cache.entries.lookup key with
  | none => none
  | some entry =>
    if now < entry.expires then
      (codec.decode entry.response).map fun r =>
        (entry, r.serve id (min ((now - entry.inserted) / second) (2 ^ 32 - 1)))
    else none

variable {cache : Cache} {entry : CacheEntry} {key : Bytes}

theorem find_of_live {codec : Codec} {now : Nat} {r : Response}
    (hentry : cache.entries.lookup key = some entry) (hlive : now < entry.expires)
    (hr : codec.decode entry.response = some r) (id : UInt16) :
    cache.find codec key id now =
      some (entry, r.serve id (min ((now - entry.inserted) / second) (2 ^ 32 - 1))) := by
  simp only [find, hentry, hlive, hr, if_true, Option.map_some]

theorem of_find {codec : Codec} {id : UInt16} {now : Nat} {served : Response}
    (h : cache.find codec key id now = some (entry, served)) :
    cache.entries.lookup key = some entry ∧ now < entry.expires ∧
      ∃ r, codec.decode entry.response = some r ∧
        served = r.serve id (min ((now - entry.inserted) / second) (2 ^ 32 - 1)) := by
  unfold find at h
  split at h
  · cases h
  · split at h
    · next hentry hexpires =>
      obtain ⟨r, hr, heq⟩ := Option.map_eq_some_iff.mp h
      cases heq
      exact ⟨hentry, hexpires, r, hr, rfl⟩
    · cases h

/-- The key of the entry that was inserted first. -/
def oldest (cache : Cache) : Option Bytes :=
  (cache.entries.entries.argmin fun entry => entry.2.inserted).map Sigma.fst

/-- Removes an entry. -/
def remove (cache : Cache) (key : Bytes) : Cache :=
  { entries := cache.entries.erase key
    size := cache.size - ((cache.entries.lookup key).map CacheEntry.size).getD 0 }

/-- The `while` loop that makes room for `size` bytes. Each round removes an entry, so that
there are at most as many rounds as entries. -/
def evictLoop (size : Nat) : (rounds : Nat) → Cache → Cache
  | 0, cache => cache
  | rounds + 1, cache =>
    if cacheEntries ≤ cache.entries.size ∨ cacheBytes < cache.size + size then
      match cache.oldest with
      | some key => evictLoop size rounds (cache.remove key)
      | none => cache
    else cache

/-- Makes room for `size` bytes. -/
def evict (size : Nat) (cache : Cache) : Cache := evictLoop size cache.entries.size cache

/-- The second critical section: drops what has expired and what the key had, makes room
and inserts the answer if it fits at all. -/
def store (cache : Cache) (key bytes : Bytes) (ttl now filler : Nat) : Cache :=
  let size := key.length + bytes.length + cacheOverhead
  let live : Table Bytes CacheEntry :=
    (cache.entries.retain fun _ entry => decide (now < entry.expires)).erase key
  let cache := evict size ⟨live, (live.values.map CacheEntry.size).sum⟩
  if size ≤ cacheBytes then
    { entries := cache.entries.insert key ⟨bytes, now, now + ttl * second, size, filler⟩
      size := cache.size + size }
  else cache

/-- To make room only removes entries. -/
theorem lookup_of_evictLoop {size rounds : Nat}
    (h : (evictLoop size rounds cache).entries.lookup key = some entry) :
    cache.entries.lookup key = some entry := by
  induction rounds generalizing cache with
  | zero => exact h
  | succ rounds ih =>
    rw [evictLoop] at h
    split at h
    · cases hold : cache.oldest with
      | some first =>
        rw [hold] at h
        exact (lookup_erase_iff.mp (ih h)).2
      | none =>
        rw [hold] at h
        exact h
    · exact h

/-- After an answer was stored, an entry is from that call or was there before. -/
theorem lookup_store {bytes k : Bytes} {ttl now filler : Nat}
    (h : (cache.store key bytes ttl now filler).entries.lookup k = some entry) :
    entry = ⟨bytes, now, now + ttl * second, key.length + bytes.length + cacheOverhead, filler⟩ ∨
      cache.entries.lookup k = some entry := by
  have hold : ∀ {size total : Nat}, (evict size ⟨(cache.entries.retain fun _ entry =>
      decide (now < entry.expires)).erase key, total⟩).entries.lookup k = some entry →
      cache.entries.lookup k = some entry := by
    intro size total hevict
    have hlive := (lookup_erase_iff.mp (lookup_of_evictLoop hevict)).2
    exact (lookup_retain_iff.mp hlive).1
  unfold store at h
  dsimp only at h
  split at h
  · rcases lookup_insert_iff.mp h with ⟨-, rfl⟩ | ⟨-, hevict⟩
    · exact .inl rfl
    · exact .inr (hold hevict)
  · exact .inr (hold h)

end Cache

end Clyntis.Core.Dns
