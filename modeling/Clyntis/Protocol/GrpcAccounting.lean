import Clyntis.Lib.Calls
import Clyntis.Protocol.GrpcPool
import Mathlib.Data.Set.Card

/-!
# The counters of pooled connections (`grpc.rs`)

Any number of `connect` calls run side by side, with any keys, over requests whose options are given
by the key. Streams are dropped, connections end, and calls fail or are dropped at any await.

- `Shared`: the pool and, as history, the key each connection was made for;
- `Torn`: `pooled` reads the counters one after the other, while streams end;
- `component`: `connect` as a component, with the locks of `connect_lock`;
- `Counted`: a counter is the number of calls with a lease, plus the streams;
- `Limited`: the bounds on connections and on streams;
- `pool_accounting`: both hold in every state reached.
-/

namespace Clyntis.Protocol.Grpc

open Lib List Function Table

/-! ## Connects side by side -/

/-- The pool, and for which key each connection was made. -/
structure Shared where
  pool : Pool := {}
  owner : Nat → Text := fun _ => []

/-- `pooled` while streams end: the counters are read one after the other, so the connection with
the least load that it finds can be any of them. The load it goes by is the one read last. -/
inductive Torn : Local → Pool → Local → Prop where
  | reuse {r since pool list physical} (hlist : pool.physicals.lookup r.key = some list)
      (hmem : physical ∈ list)
      (hload : reuseLeastLoaded (pool.active physical.id) list.length r.options = true) :
      Torn (.choosing r since) pool (.chosen r since physical)
  | shake {r since pool list physical} (hlist : pool.physicals.lookup r.key = some list)
      (hmem : physical ∈ list)
      (hload : reuseLeastLoaded (pool.active physical.id) list.length r.options = false) :
      Torn (.choosing r since) pool (.shaking r since)

/-- A step of `connect`. -/
inductive Connects (here : Local) (pool : Pool) : Local ⊕ Outcome → Pool → Prop where
  | act {out pool'} (h : Act here pool out pool') : Connects here pool out pool'
  | torn {there} (h : Torn here pool there) : Connects here pool (.inl there) pool

namespace Local

/-- What the call was asked for. -/
def request : Local → Request
  | waiting r _ | choosing r _ | chosen r _ _ | probing r _ _ | removing r _ _ | removed r _ _
  | shaking r _ | created r _ | settling r _ | opening r _ => r

/-- The connection of the pool that the call has at hand. -/
def physical : Local → Option Physical
  | waiting .. | choosing .. | shaking .. => none
  | chosen _ _ p | probing _ _ p | removing _ _ p | removed _ _ p | created _ p | settling _ p
  | opening _ p => some p

/-- The connection for which the call has an `ActiveLease`. -/
def lease : Local → Option Nat
  | probing _ _ p | removing _ _ p | removed _ _ p | settling _ p | opening _ p => some p.id
  | _ => none

/-- The connection for which the call is about to take one. -/
def selected : Local → Option Physical
  | chosen _ _ p | created _ p => some p
  | _ => none

/-- The lock of `connect_lock` that is held. -/
def holds (hash : Text → Nat) (here : Local) (lock : Nat) : Prop :=
  here.locked.map (fun key => hash key % 64) = some lock

/-- The one that a step takes. -/
def needs (hash : Text → Nat) : Local → Local ⊕ Outcome → Nat → Prop
  | waiting r _, .inl (choosing ..), lock => hash r.key % 64 = lock
  | _, _, _ => False

end Local

/-- The key of a connection is noted when it is made. -/
def Shared.note (s : Shared) : Local → Nat → Text
  | .shaking r _ => update s.owner s.pool.nextId r.key
  | _ => s.owner

variable {hash : Text → Nat} {pool pool' : Pool}

theorem Connects.acquired {here there : Local}
    (h : Connects here pool (.inl there) pool') (lock : Nat) (hheld : there.holds hash lock) :
    here.holds hash lock ∨ here.needs hash (.inl there) lock := by
  cases h with
  | act hact =>
    cases hact with
    | lock => exact .inr (Option.some.inj hheld)
    | ready => cases hheld
    | settle => cases hheld
    | _ => exact .inl hheld
  | torn htorn => cases htorn <;> exact .inl hheld

/-- `connect` as a component; all requests with a key have the same options. -/
def component (hash : Text → Nat) (options : Text → Options) :
    Component Nat Shared Local Outcome where
  starts here := ∃ r since, here = .waiting r since ∧ r.options = options r.key
  act _ _ here s out s' := Connects here s.pool out s'.pool ∧ s'.owner = s.note here
  environment s s' := Environment s.pool s'.pool ∧ s'.owner = s.owner
  needs := Local.needs hash
  holds := Local.holds hash
  starts_free := by
    rintro _ ⟨r, since, rfl, -⟩ lock hheld
    cases hheld
  acquired := fun h => h.1.acquired

/-- Before the first call. -/
def startSystem : System Shared Local Outcome := ⟨0, {}, fun _ => .idle⟩

/-! ## What steps do to the pool -/

/-- The effect of a step on the pool. -/
inductive Effect (here : Local) (pool : Pool) : Local ⊕ Outcome → Pool → Prop where
  | quiet {out} (hlease : out.elim Local.lease (fun _ => none) = here.lease) :
      Effect here pool out pool
  | lease {there} (p : Physical) (hhere : here.selected = some p) (hfree : here.lease = none)
      (hthere : there.lease = some p.id) : Effect here pool (.inl there) (pool.lease p.id)
  | release {out} (id : Nat) (hhere : here.lease = some id)
      (hout : out.elim Local.lease (fun _ => none) = none) : Effect here pool out (pool.release id)
  | remove {there} (id : Nat) (hlease : there.lease = here.lease) :
      Effect here pool (.inl there) (pool.removePhysical here.request.key id)
  | push {r since} (hhere : here = .shaking r since) :
      Effect here pool (.inl (.created r (pool.fresh since))) (pool.push r.key since)
  | transfer {result} (id : Nat) (hhere : here.lease = some id) :
      Effect here pool (.inr result) (pool.transfer id)

variable {here there : Local} {pool pool' : Pool} {out : Local ⊕ Outcome} {options : Options}
  {p : Physical} {id : Nat} {key : Text} {list' : List Physical} {now : Nat} {shared : Shared}
  {s t : System Shared Local Outcome} {load connections : Nat}

theorem Connects.effect (h : Connects here pool out pool') : Effect here pool out pool' := by
  cases h with
  | torn h => cases h <;> exact .quiet rfl
  | act h =>
    cases h with
    | lease | leaseNew => exact .lease _ rfl rfl rfl
    | abandonProbe | release | settleFailed | refused => exact .release _ rfl rfl
    | remove => exact .remove _ rfl
    | push => exact .push rfl
    | opened => exact .transfer _ rfl
    | _ => exact .quiet rfl

theorem pooled_eq_some (h : pool.pooled key options = some p) :
    ∃ list, pool.physicals.lookup key = some list ∧ p ∈ list ∧
      reuseLeastLoaded (pool.active p.id) list.length options = true := by
  unfold Pool.pooled at h
  split at h
  · cases h
  · next list hlist =>
    split at h
    · cases h
    · next least hleast =>
      split at h
      · next hload =>
        cases h
        exact ⟨list, hlist, argmin_mem hleast, hload⟩
      · cases h

theorem pooled_eq_none (h : pool.pooled key options = none) :
    (pool.physicals.lookup key).getD [] = [] ∨
      ∃ list p, pool.physicals.lookup key = some list ∧ p ∈ list ∧
        reuseLeastLoaded (pool.active p.id) list.length options = false := by
  unfold Pool.pooled at h
  split at h
  · next hnone =>
    rw [hnone]
    exact .inl rfl
  · next list hlist =>
    split at h
    · next hempty =>
      rw [hlist]
      exact .inl (argmin_eq_none.mp hempty)
    · next least hleast =>
      split at h
      · cases h
      · next hload =>
        exact .inr ⟨list, least, hlist, argmin_mem hleast, Bool.eq_false_iff.mpr hload⟩

/-- A step keeps the request. -/
theorem Connects.request (h : Connects here pool (.inl there) pool') :
    there.request = here.request := by
  cases h with
  | torn h | act h => cases h <;> rfl

/-- The connection at hand is the one before, one from the list of the key, or the new one. -/
theorem Connects.physical (h : Connects here pool (.inl there) pool')
    (hp : there.physical = some p) :
    here.physical = some p ∨
      (∃ list, pool.physicals.lookup here.request.key = some list ∧ p ∈ list ∧
        pool' = pool) ∨
      ∃ r since, here = .shaking r since ∧ p = pool.fresh since ∧
        pool' = pool.push r.key since := by
  cases h with
  | torn h =>
    cases h with
    | reuse hlist hmem hload =>
      cases hp
      exact .inr (.inl ⟨_, hlist, hmem, rfl⟩)
    | shake => cases hp
  | act h =>
    cases h with
    | reuse hpooled =>
      cases hp
      obtain ⟨list, hlist, hmem, -⟩ := pooled_eq_some hpooled
      exact .inr (.inl ⟨list, hlist, hmem, rfl⟩)
    | lock | release | shake => cases hp
    | push =>
      cases hp
      exact .inr (.inr ⟨_, _, rfl, rfl, rfl⟩)
    | _ => exact .inl hp

section Remove

variable {pool : Pool} {key k : Text}

@[simp] theorem removePhysical_active : (pool.removePhysical key id).active = pool.active := by
  unfold Pool.removePhysical
  split <;> rfl

@[simp] theorem removePhysical_streams : (pool.removePhysical key id).streams = pool.streams := by
  unfold Pool.removePhysical
  split <;> rfl

@[simp] theorem removePhysical_nextId : (pool.removePhysical key id).nextId = pool.nextId := by
  unfold Pool.removePhysical
  split <;> rfl

/-- What is left in a list was in it. -/
theorem lookup_of_removePhysical
    (h : (pool.removePhysical key id).physicals.lookup k = some list') :
    ∃ list, pool.physicals.lookup k = some list ∧ list'.Sublist list := by
  unfold Pool.removePhysical at h
  split at h
  · exact ⟨list', h, .refl _⟩
  · next old hold =>
    dsimp only at h
    split at h
    · exact ⟨list', (lookup_erase_iff.mp h).2, .refl _⟩
    · rcases lookup_insert_iff.mp h with ⟨rfl, rfl⟩ | ⟨-, h⟩
      · exact ⟨old, hold, filter_sublist⟩
      · exact ⟨list', h, .refl _⟩

end Remove

/-! ## Leases -/

/-- The calls with a lease of the connection. -/
def holders (s : System Shared Local Outcome) (id : Nat) : Set Nat :=
  { i | ∃ here, s.At i here ∧ here.lease = some id }

/-- A counter is the number of leases and streams. -/
structure Counted (s : System Shared Local Outcome) : Prop where
  finite : ∀ id, (holders s id).Finite
  count : ∀ id, s.shared.pool.active id = (holders s id).ncard + s.shared.pool.streams id

section Counted

variable {s : System Shared Local Outcome} {i began : Nat} {here : Local}

theorem mem_holders (hcall : s.calls i = .running began here) :
    i ∈ holders s id ↔ here.lease = some id := by
  constructor
  · rintro ⟨here', hat, hlease⟩
    have := hat.unique ⟨began, hcall⟩
    rwa [this] at hlease
  · exact fun h => ⟨here, ⟨began, hcall⟩, h⟩

/-- The calls with a lease after a step of call `i`. -/
theorem holders_set :
    holders (s.set i (.next began now out) shared) id =
      if out.elim Local.lease (fun _ => none) = some id then insert i (holders s id)
      else holders s id \ {i} := by
  ext j
  by_cases hji : j = i
  · subst hji
    have hself : j ∈ holders (s.set j (.next began now out) shared) id ↔
        out.elim Local.lease (fun _ => none) = some id := by
      constructor
      · rintro ⟨there, hat, hlease⟩
        rw [System.at_set_next] at hat
        rwa [hat]
      · cases out with
        | inl there => exact fun h => ⟨there, System.at_set_next.mpr rfl, h⟩
        | inr result => exact nofun
    rw [hself]
    split
    · next h => simp [h]
    · next h => simp [h]
  · have hother : j ∈ holders (s.set i (.next began now out) shared) id ↔ j ∈ holders s id := by
      simp only [holders, Set.mem_ofPred_eq, System.at_set_of_ne hji]
    rw [hother]
    split
    · simp [hji]
    · simp [hji]

/-- What a step does to a counter, to the lease of the call and to the streams fits together. -/
theorem Effect.count (h : Effect here pool out pool')
    (hpos : ∀ id, here.lease = some id → 0 < pool.active id) (id : Nat) :
    pool'.active id + (if here.lease = some id then 1 else 0) + pool.streams id =
      pool.active id + (if out.elim Local.lease (fun _ => none) = some id then 1 else 0) +
        pool'.streams id := by
  cases h with
  | quiet hlease => rw [hlease]
  | lease p hhere hfree hthere =>
    simp only [Pool.lease, hfree, Sum.elim_inl, hthere]
    by_cases hid : id = p.id
    · simp [hid]
    · simp [hid, Ne.symm hid]
  | release k hhere hout =>
    have hk := hpos k hhere
    simp only [Pool.release, hhere, hout]
    by_cases hid : id = k
    · subst hid
      simp
      omega
    · simp [hid, Ne.symm hid]
  | remove k hlease =>
    rw [removePhysical_active, removePhysical_streams, Sum.elim_inl, hlease]
  | push hhere =>
    rw [hhere]
    rfl
  | transfer k hhere =>
    simp only [Pool.transfer, hhere]
    by_cases hid : id = k
    · subst hid
      simp
      omega
    · simp [hid, Ne.symm hid]

theorem Counted.act (h : Counted s) (hcall : s.calls i = .running began here)
    (heffect : Effect here s.shared.pool out shared.pool) :
    Counted (s.set i (.next began now out) shared) := by
  have hpos : ∀ id, here.lease = some id → 0 < s.shared.pool.active id := by
    intro id hid
    have hmem := (mem_holders hcall).mpr hid
    have := Set.ncard_pos (h.finite id) |>.mpr ⟨i, hmem⟩
    rw [h.count id]
    omega
  refine ⟨fun id => ?_, fun id => ?_⟩
  · rw [holders_set]
    split
    · exact (h.finite id).insert i
    · exact (h.finite id).sdiff
  · have hcount := h.count id
    have hpool := heffect.count hpos id
    have hmem : i ∈ holders s id ↔ here.lease = some id := mem_holders hcall
    rw [holders_set]
    change shared.pool.active id = _ + shared.pool.streams id
    by_cases hhere : here.lease = some id
    · have hin := hmem.mpr hhere
      rw [if_pos hhere] at hpool
      split
      · next hout =>
        rw [if_pos hout] at hpool
        rw [Set.insert_eq_of_mem hin]
        omega
      · next hout =>
        rw [if_neg hout] at hpool
        have hless := Set.ncard_sdiff_singleton_add_one hin (h.finite id)
        omega
    · have hnot := fun hin => hhere (hmem.mp hin)
      rw [if_neg hhere] at hpool
      split
      · next hout =>
        rw [if_pos hout] at hpool
        rw [Set.ncard_insert_of_notMem hnot (h.finite id)]
        omega
      · next hout =>
        rw [if_neg hout] at hpool
        rw [Set.sdiff_singleton_eq_self hnot]
        omega

/-- A call begins without a lease. -/
theorem Counted.start (h : Counted s) (hidle : s.calls i = .idle) (hfree : here.lease = none) :
    Counted (s.set i (.running s.now here) s.shared) := by
  have hsame : ∀ id, holders (s.set i (.running s.now here) s.shared) id = holders s id := by
    intro id
    ext j
    by_cases hji : j = i
    · subst hji
      constructor
      · rintro ⟨there, hat, hlease⟩
        rw [System.at_set_running.mp hat, hfree] at hlease
        cases hlease
      · rintro ⟨there, hat, -⟩
        exact absurd hat (System.not_at_of_idle hidle)
    · simp only [holders, Set.mem_ofPred_eq, System.at_set_of_ne hji]
  refine ⟨fun id => ?_, fun id => ?_⟩
  · rw [hsame id]
    exact h.finite id
  · rw [hsame id]
    exact h.count id

/-- A stream or a connection ends. -/
theorem Counted.environment (h : Counted s) (henv : Environment s.shared.pool shared.pool) :
    Counted { s with now := now, shared := shared } := by
  refine ⟨h.finite, fun id => ?_⟩
  have hcount := h.count id
  change shared.pool.active id = (holders s id).ncard + shared.pool.streams id
  generalize hpool : shared.pool = pool at henv
  cases henv with
  | ended key k =>
    rw [removePhysical_active, removePhysical_streams]
    exact hcount
  | dropped k hopen =>
    simp only [Pool.close, Pool.release]
    by_cases hid : id = k
    · subst hid
      simp
      omega
    · simp [hid]
      exact hcount

end Counted

/-! ## Where connections belong -/

/-- Requests have the options of their key, and connections are at hand for the key they were made
for. -/
structure Placed (options : Text → Options) (s : System Shared Local Outcome) : Prop where
  request : ∀ i here, s.At i here → here.request.options = options here.request.key
  listed : ∀ key list, s.shared.pool.physicals.lookup key = some list → ∀ p ∈ list,
    p.id < s.shared.pool.nextId ∧ s.shared.owner p.id = key
  held : ∀ i here, s.At i here → ∀ p, here.physical = some p →
    p.id < s.shared.pool.nextId ∧ s.shared.owner p.id = here.request.key
  opened : ∀ id, 0 < s.shared.pool.streams id → id < s.shared.pool.nextId

theorem Local.physical_of_lease (h : here.lease = some id) :
    ∃ p, here.physical = some p ∧ p.id = id := by
  cases here <;> first | exact ⟨_, rfl, Option.some.inj h⟩ | cases h

/-- A list of the pool after a step: part of the one before, or with the new connection. -/
theorem Effect.lookup (h : Effect here pool out pool')
    (hlist : pool'.physicals.lookup key = some list') :
    (∃ list, pool.physicals.lookup key = some list ∧ list'.Sublist list) ∨
      ∃ since r, here = .shaking r since ∧ key = r.key ∧ pool' = pool.push r.key since ∧
        list' = (pool.physicals.lookup key).getD [] ++ [pool.fresh since] := by
  cases h with
  | remove k hlease => exact .inl (lookup_of_removePhysical hlist)
  | push hhere =>
    rcases lookup_insert_iff.mp hlist with ⟨rfl, rfl⟩ | ⟨-, hlist⟩
    · exact .inr ⟨_, _, hhere, rfl, rfl, rfl⟩
    · exact .inl ⟨list', hlist, .refl _⟩
  | _ => exact .inl ⟨list', hlist, .refl _⟩

theorem Effect.nextId (h : Effect here pool out pool') : pool.nextId ≤ pool'.nextId := by
  cases h with
  | remove id hlease => rw [removePhysical_nextId]
  | push hhere => exact Nat.le_succ _
  | _ => exact Nat.le_refl _

theorem Effect.streams (h : Effect here pool out pool') (hopen : 0 < pool'.streams id) :
    0 < pool.streams id ∨ here.lease = some id := by
  cases h with
  | remove k hlease =>
    rw [removePhysical_streams] at hopen
    exact .inl hopen
  | transfer k hhere =>
    by_cases hid : id = k
    · exact .inr (hid ▸ hhere)
    · rw [show (pool.transfer k).streams id = pool.streams id from update_of_ne hid _ _]
        at hopen
      exact .inl hopen
  | _ => exact .inl hopen

namespace Environment

variable (h : Environment pool pool')
include h

theorem nextId : pool'.nextId = pool.nextId := by
  cases h with
  | ended key id => exact removePhysical_nextId
  | dropped id hopen => rfl

theorem lookup (hlist : pool'.physicals.lookup key = some list') :
    ∃ list, pool.physicals.lookup key = some list ∧ list'.Sublist list := by
  cases h with
  | ended key id => exact lookup_of_removePhysical hlist
  | dropped id hopen => exact ⟨list', hlist, .refl _⟩

theorem streams (hopen : 0 < pool'.streams id) : 0 < pool.streams id := by
  cases h with
  | ended key k => rwa [removePhysical_streams] at hopen
  | dropped k hk =>
    by_cases hid : id = k
    · exact hid ▸ hk
    · rwa [show (pool.close k).streams id = pool.streams id from update_of_ne hid _ _]
        at hopen

theorem active (id : Nat) : pool'.active id ≤ pool.active id := by
  cases h with
  | ended key k => rw [removePhysical_active]
  | dropped k hk =>
    change update pool.active k (pool.active k - 1) id ≤ _
    rw [update_apply]
    split
    · next hid =>
      subst hid
      exact Nat.sub_le _ _
    · exact Nat.le_refl _

end Environment

/-- The keys of the connections so far stay as noted. -/
theorem Shared.note_of_lt {shared : Shared} (h : id < shared.pool.nextId) :
    shared.note here id = shared.owner id := by
  cases here with
  | shaking r since => exact update_of_ne (Nat.ne_of_lt h) _ _
  | _ => rfl

section Placed

variable {options : Text → Options} {i began : Nat} {here : Local} (h : Placed options s)
include h

theorem Placed.act (hcall : s.calls i = .running began here)
    (hact : Connects here s.shared.pool out shared.pool)
    (howner : shared.owner = s.shared.note here) :
    Placed options (s.set i (.next began now out) shared) := by
  have hat : s.At i here := ⟨began, hcall⟩
  have hgrow := hact.effect.nextId
  have hkeep : ∀ {id key}, id < s.shared.pool.nextId ∧ s.shared.owner id = key →
      id < shared.pool.nextId ∧ shared.owner id = key := by
    rintro id key ⟨hlt, hkey⟩
    rw [howner, Shared.note_of_lt hlt]
    exact ⟨Nat.lt_of_lt_of_le hlt hgrow, hkey⟩
  -- the connection that is new
  have hfresh : ∀ {r since}, here = .shaking r since →
      shared.pool = s.shared.pool.push r.key since →
      (s.shared.pool.fresh since).id < shared.pool.nextId ∧
        shared.owner (s.shared.pool.fresh since).id = r.key := by
    rintro r since rfl hpool
    rw [howner, hpool]
    exact ⟨Nat.lt_succ_self _, update_self _ _ _⟩
  refine ⟨System.forall_at_set (fun there hthere => ?_) (fun j there _ hj => h.request j there hj),
    fun key list' hlist p hp => ?_,
    System.forall_at_set (fun there hthere p hp => ?_)
      (fun j there _ hj p hp => hkeep (h.held j there hj p hp)), fun id hopen => ?_⟩
  · obtain rfl := System.at_set_next.mp hthere
    rw [hact.request]
    exact h.request i here hat
  · rcases hact.effect.lookup hlist with ⟨list, hlist, hsub⟩ | ⟨since, r, hhere, rfl, hpool, rfl⟩
    · exact hkeep (h.listed key list hlist p (hsub.mem hp))
    · rcases mem_append.mp hp with hp | hp
      · cases hold : s.shared.pool.physicals.lookup r.key with
        | none =>
          rw [hold] at hp
          cases hp
        | some list =>
          rw [hold] at hp
          exact hkeep (h.listed r.key list hold p hp)
      · rw [mem_singleton.mp hp]
        exact hfresh hhere hpool
  · obtain rfl := System.at_set_next.mp hthere
    rw [hact.request]
    rcases hact.physical hp with hp | ⟨list, hlist, hmem, -⟩ | ⟨r, since, hhere, rfl, hpool⟩
    · exact hkeep (h.held i here hat p hp)
    · exact hkeep (h.listed _ list hlist p hmem)
    · rw [hhere]
      exact hfresh hhere hpool
  · rcases hact.effect.streams hopen with hopen | hlease
    · exact Nat.lt_of_lt_of_le (h.opened id hopen) hgrow
    · obtain ⟨p, hp, rfl⟩ := Local.physical_of_lease hlease
      exact Nat.lt_of_lt_of_le (h.held i here hat p hp).1 hgrow

theorem Placed.environment
    (henv : Environment s.shared.pool shared.pool) (howner : shared.owner = s.shared.owner) :
    Placed options { s with now := now, shared := shared } := by
  have hkeep : ∀ {id key}, id < s.shared.pool.nextId ∧ s.shared.owner id = key →
      id < shared.pool.nextId ∧ shared.owner id = key := by
    rw [henv.nextId, howner]
    exact id
  refine ⟨h.request, fun key list' hlist p hp => ?_, fun j there hj p hp => ?_, fun id hopen => ?_⟩
  · obtain ⟨list, hlist, hsub⟩ := henv.lookup hlist
    exact hkeep (h.listed key list hlist p (hsub.mem hp))
  · exact hkeep (h.held j there hj p hp)
  · exact (hkeep ⟨h.opened id (henv.streams hopen), rfl⟩).1

theorem Placed.step (hstep : Step (component hash options) s t) : Placed options t := by
  cases hstep with
  | start hidle hstart =>
    obtain ⟨r, since, rfl, hr⟩ := hstart
    refine ⟨System.forall_at_set (fun there hthere => ?_)
        (fun j there _ hj => h.request j there hj), h.listed,
      System.forall_at_set (fun there hthere p hp => ?_)
        (fun j there _ hj => h.held j there hj), h.opened⟩
    · rw [System.at_set_running.mp hthere]
      exact hr
    · rw [System.at_set_running.mp hthere] at hp
      cases hp
  | act hcall hfree hact => exact h.act hcall hact.1 hact.2
  | environment henv => exact h.environment henv.1 henv.2

/-- No call and no stream is concerned with connections to come. -/
theorem Placed.active_of_ge (hcount : Counted s)
    (hid : s.shared.pool.nextId ≤ id) : s.shared.pool.active id = 0 := by
  have hstreams : s.shared.pool.streams id = 0 := by
    by_contra hpos
    have := h.opened id (Nat.pos_of_ne_zero hpos)
    omega
  have hholders : holders s id = ∅ := by
    refine Set.eq_empty_of_forall_notMem ?_
    rintro j ⟨there, hj, hlease⟩
    obtain ⟨p, hp, rfl⟩ := Local.physical_of_lease hlease
    have := (h.held j there hj p hp).1
    omega
  rw [hcount.count, hholders, hstreams, Set.ncard_empty]

end Placed

/-! ## The bounds -/

/-- How many connections the pool holds for a key. -/
def Pool.size (pool : Pool) (key : Text) : Nat := ((pool.physicals.lookup key).getD []).length

/-- The streams of a connection are limited. -/
def Options.limitsStreams (options : Options) : Prop :=
  options.maxConnections = 0 ∧ 0 < options.maxStreams

/-- The bounds, and that there is room for the connection a call is about to make and for the
lease it is about to take. -/
structure Limited (options : Text → Options) (s : System Shared Local Outcome) : Prop where
  size : ∀ key, 0 < (options key).maxConnections →
    s.shared.pool.size key ≤ (options key).maxConnections
  shaking : ∀ i here, s.At i here → ∀ r since, here = .shaking r since →
    0 < (options r.key).maxConnections → s.shared.pool.size r.key < (options r.key).maxConnections
  load : ∀ id, (options (s.shared.owner id)).limitsStreams →
    s.shared.pool.active id ≤ (options (s.shared.owner id)).maxStreams
  room : ∀ i here, s.At i here → ∀ p, here.selected = some p →
    (options here.request.key).limitsStreams →
      s.shared.pool.active p.id < (options here.request.key).maxStreams

theorem size_le_of_lookup (h : ∀ list', pool'.physicals.lookup key = some list' →
      ∃ list, pool.physicals.lookup key = some list ∧ list'.Sublist list) :
    pool'.size key ≤ pool.size key := by
  unfold Pool.size
  cases hlist : pool'.physicals.lookup key with
  | none => exact Nat.zero_le _
  | some list' =>
    obtain ⟨list, hold, hsub⟩ := h list' hlist
    rw [hold]
    exact hsub.length_le

/-- Only a call that has made a connection adds one. -/
theorem Effect.size (h : Effect here pool out pool') (key : Text) :
    pool'.size key ≤ pool.size key ∨
      pool'.size key = pool.size key + 1 ∧ ∃ r since, here = .shaking r since ∧ key = r.key := by
  by_cases hpush : ∃ r since, here = .shaking r since ∧ key = r.key ∧
      pool' = pool.push r.key since
  · obtain ⟨r, since, hhere, rfl, rfl⟩ := hpush
    refine .inr ⟨?_, r, since, hhere, rfl⟩
    unfold Pool.size
    rw [show (pool.push r.key since).physicals.lookup r.key =
        some ((pool.physicals.lookup r.key).getD [] ++ [pool.fresh since]) from
      AList.lookup_insert _]
    exact length_append
  · refine .inl (size_le_of_lookup fun list' hlist => ?_)
    rcases h.lookup hlist with hold | ⟨since, r, hhere, hkey, hpool, -⟩
    · exact hold
    · exact absurd ⟨r, since, hhere, hkey, hpool⟩ hpush

/-- Only a call that takes a lease raises a counter. -/
theorem Effect.active (h : Effect here pool out pool') (id : Nat) :
    pool'.active id ≤ pool.active id ∨
      pool'.active id = pool.active id + 1 ∧ ∃ p, here.selected = some p ∧ p.id = id := by
  cases h with
  | lease p hhere hfree hthere =>
    by_cases hid : id = p.id
    · subst hid
      exact .inr ⟨update_self _ _ _, p, hhere, rfl⟩
    · exact .inl (Nat.le_of_eq (update_of_ne hid _ _))
  | release k hhere hout =>
    refine .inl ?_
    by_cases hid : id = k
    · subst hid
      exact Nat.le_trans (Nat.le_of_eq (update_self _ _ _)) (Nat.sub_le _ _)
    · exact Nat.le_of_eq (update_of_ne hid _ _)
  | remove k hlease => exact .inl (Nat.le_of_eq (by rw [removePhysical_active]))
  | _ => exact .inl (Nat.le_refl _)

/-- `reuse_least_loaded` leaves room when it says yes, -/
theorem lt_of_reuse (h : reuseLeastLoaded load connections options = true)
    (hlimits : options.limitsStreams) : load < options.maxStreams := by
  obtain ⟨hmany, hstreams⟩ := hlimits
  unfold reuseLeastLoaded at h
  split at h
  · omega
  · simp only [hmany, Nat.lt_irrefl, if_false, Bool.or_eq_true, beq_iff_eq, decide_eq_true_eq] at h
    omega

/-- and when it says no. -/
theorem lt_of_not_reuse
    (h : reuseLeastLoaded load connections options = false) (hmany : 0 < options.maxConnections) :
    connections < options.maxConnections := by
  unfold reuseLeastLoaded at h
  split at h
  · cases h
  · rw [Bool.or_eq_false_iff, decide_eq_false_iff_not] at h
    omega

/-- Before a connection is made there is room for it. -/
theorem Connects.shaking {r : Request} {since : Nat}
    (h : Connects here pool (.inl (.shaking r since)) pool')
    (hmany : 0 < r.options.maxConnections) : pool'.size r.key < r.options.maxConnections := by
  cases h with
  | torn h =>
    cases h with
    | shake hlist hmem hload =>
      rw [Pool.size, hlist]
      exact lt_of_not_reuse hload hmany
  | act h =>
    cases h with
    | shake hpooled =>
      rcases pooled_eq_none hpooled with hempty | ⟨list, p, hlist, -, hload⟩
      · rw [Pool.size, hempty]
        exact hmany
      · rw [Pool.size, hlist]
        exact lt_of_not_reuse hload hmany

/-- Before a lease is taken there is room for a stream, unless the connection is new. -/
theorem Connects.selected (h : Connects here pool (.inl there) pool')
    (hp : there.selected = some p) :
    (there.request.options.limitsStreams →
      pool'.active p.id < there.request.options.maxStreams) ∨
      p.id = pool.nextId ∧ pool'.active = pool.active := by
  cases h with
  | torn h =>
    cases h with
    | reuse hlist hmem hload =>
      cases hp
      exact .inl (lt_of_reuse hload)
    | shake => cases hp
  | act h =>
    cases h with
    | reuse hpooled =>
      cases hp
      obtain ⟨list, -, -, hload⟩ := pooled_eq_some hpooled
      exact .inl (lt_of_reuse hload)
    | push =>
      cases hp
      exact .inr ⟨rfl, rfl⟩
    | _ => cases hp

section Limited

variable {options : Text → Options} {i j began : Nat}

/-- Between the choice of `pooled` and the lease the lock of the key is held. -/
theorem Local.locked_of_selected (h : here.selected = some p) :
    here.locked = some here.request.key := by
  cases here <;> first | rfl | cases h

theorem Local.physical_of_selected (h : here.selected = some p) :
    here.physical = some p := by
  cases here <;> first | exact h | cases h

/-- Two calls with one key do not hold its lock together. -/
theorem not_locked_of_exclusive (h : Exclusive (component hash options) s) (hne : i ≠ j)
    (hi : s.At i here) (hj : s.At j there) (hhere : here.locked = some key) :
    there.locked ≠ some key := by
  intro hthere
  refine h i j here there hne hi hj (hash key % 64) ?_ ?_
  · change here.locked.map _ = _
    rw [hhere]
    rfl
  · change there.locked.map _ = _
    rw [hthere]
    rfl

theorem Limited.act (h : Limited options s) (hcount : Counted s) (hplaced : Placed options s)
    (hexcl : Exclusive (component hash options) s) (hcall : s.calls i = .running began here)
    (hact : Connects here s.shared.pool out shared.pool)
    (howner : shared.owner = s.shared.note here) :
    Limited options (s.set i (.next began now out) shared) := by
  have hat : s.At i here := ⟨began, hcall⟩
  have hplaced' : Placed options (s.set i (.next began now out) shared) :=
    hplaced.act hcall hact howner
  refine ⟨fun key hmany => ?_,
    System.forall_at_set (fun there hthere r since hshaking hmany => ?_)
      (fun j there hji hj r since hshaking hmany => ?_), fun id hlimits => ?_,
    System.forall_at_set (fun there hthere p hp hlimits => ?_)
      (fun j there hji hj p hp hlimits => ?_)⟩
  · change shared.pool.size key ≤ _
    rcases hact.effect.size key with hle | ⟨hadd, r, since, hhere, rfl⟩
    · exact Nat.le_trans hle (h.size key hmany)
    · rw [hadd]
      exact h.shaking i here hat r since hhere hmany
  · have hrequest := hplaced'.request i there hthere
    obtain rfl := System.at_set_next.mp hthere
    subst hshaking
    rw [← show r.options = options r.key from hrequest] at hmany ⊢
    exact hact.shaking hmany
  · -- another call with this key would need the lock
    rcases hact.effect.size r.key with hle | ⟨-, r', since', hhere, hkey⟩
    · exact Nat.lt_of_le_of_lt hle (h.shaking j there hj r since hshaking hmany)
    · refine absurd ?_ (not_locked_of_exclusive hexcl hji hj hat (hshaking ▸ rfl :
        there.locked = some r.key))
      rw [hhere, hkey]
      rfl
  · change shared.pool.active id ≤ (options (shared.owner id)).maxStreams
    change (options (shared.owner id)).limitsStreams at hlimits
    rcases hact.effect.active id with hle | ⟨hadd, p, hp, rfl⟩
    · by_cases hid : id < s.shared.pool.nextId
      · rw [howner, Shared.note_of_lt hid] at hlimits ⊢
        exact Nat.le_trans hle (h.load id hlimits)
      · rw [hplaced.active_of_ge hcount (Nat.le_of_not_lt hid)] at hle
        exact Nat.le_trans hle (Nat.zero_le _)
    · obtain ⟨hid, hkey⟩ := hplaced.held i here hat p (Local.physical_of_selected hp)
      rw [howner, Shared.note_of_lt hid, hkey] at hlimits ⊢
      rw [hadd]
      exact h.room i here hat p hp hlimits
  · have hrequest := hplaced'.request i there hthere
    obtain rfl := System.at_set_next.mp hthere
    rw [← hrequest] at hlimits ⊢
    rcases hact.selected hp with hroom | ⟨hid, hactive⟩
    · exact hroom hlimits
    · change shared.pool.active p.id < _
      rw [hactive, hplaced.active_of_ge hcount (Nat.le_of_eq hid.symm)]
      exact hlimits.2
  · -- a call that takes a lease of the same connection would have the same key
    rcases hact.effect.active p.id with hle | ⟨-, q, hq, hid⟩
    · exact Nat.lt_of_le_of_lt hle (h.room j there hj p hp hlimits)
    · have hkey := (hplaced.held j there hj p (Local.physical_of_selected hp)).2
      have hkey' := (hplaced.held i here hat q (Local.physical_of_selected hq)).2
      rw [hid, hkey] at hkey'
      refine absurd ?_ (not_locked_of_exclusive hexcl hji hj hat (Local.locked_of_selected hp))
      rw [hkey']
      exact Local.locked_of_selected hq

theorem Limited.environment (h : Limited options s)
    (henv : Environment s.shared.pool shared.pool) (howner : shared.owner = s.shared.owner) :
    Limited options { s with now := now, shared := shared } := by
  have hsize : ∀ key, shared.pool.size key ≤ s.shared.pool.size key :=
    fun key => size_le_of_lookup fun list' hlist => henv.lookup hlist
  refine ⟨fun key hmany => Nat.le_trans (hsize key) (h.size key hmany),
    fun j there hj r since hshaking hmany => Nat.lt_of_le_of_lt (hsize r.key)
      (h.shaking j there hj r since hshaking hmany), fun id hlimits => ?_,
    fun j there hj p hp hlimits => Nat.lt_of_le_of_lt (henv.active p.id)
      (h.room j there hj p hp hlimits)⟩
  rw [howner] at hlimits ⊢
  exact Nat.le_trans (henv.active id) (h.load id hlimits)

end Limited

/-- All that holds in the states reached. -/
structure Accounted (hash : Text → Nat) (options : Text → Options)
    (s : System Shared Local Outcome) : Prop where
  counted : Counted s
  placed : Placed options s
  exclusive : Exclusive (component hash options) s
  limited : Limited options s

theorem accounted_start (hash : Text → Nat) (options : Text → Options) :
    Accounted hash options startSystem where
  counted := by
    have hnone : ∀ id, holders startSystem id = ∅ := fun id =>
      Set.eq_empty_of_forall_notMem fun j ⟨there, hj, _⟩ => System.not_at_of_idle rfl hj
    refine ⟨fun id => ?_, fun id => ?_⟩
    · rw [hnone id]
      exact Set.finite_empty
    · rw [hnone id, Set.ncard_empty]
      rfl
  placed := ⟨fun _ _ hj => absurd hj (System.not_at_of_idle rfl), nofun,
    fun _ _ hj => absurd hj (System.not_at_of_idle rfl), nofun⟩
  exclusive := System.Quiescent.exclusive fun _ _ => System.not_at_of_idle rfl
  limited := ⟨fun _ _ => Nat.zero_le _, fun _ _ hj => absurd hj (System.not_at_of_idle rfl),
    fun _ _ => Nat.zero_le _, fun _ _ hj => absurd hj (System.not_at_of_idle rfl)⟩

theorem Accounted.step {options : Text → Options}
    {s t : System Shared Local Outcome} (h : Accounted hash options s)
    (hstep : Step (component hash options) s t) : Accounted hash options t := by
  refine ⟨?_, h.placed.step hstep, h.exclusive.step hstep, ?_⟩
  · cases hstep with
    | start hidle hstart =>
      obtain ⟨r, since, rfl, -⟩ := hstart
      exact h.counted.start hidle rfl
    | act hcall hfree hact => exact h.counted.act hcall hact.1.effect
    | environment henv => exact h.counted.environment henv.1
  · cases hstep with
    | start hidle hstart =>
      obtain ⟨r, since, rfl, -⟩ := hstart
      refine ⟨h.limited.size, System.forall_at_set (fun there hthere r since hshaking => ?_)
        (fun j there _ hj => h.limited.shaking j there hj), h.limited.load,
        System.forall_at_set (fun there hthere p hp => ?_)
          (fun j there _ hj => h.limited.room j there hj)⟩
      · rw [System.at_set_running.mp hthere] at hshaking
        cases hshaking
      · rw [System.at_set_running.mp hthere] at hp
        cases hp
    | act hcall hfree hact =>
      exact h.limited.act h.counted h.placed h.exclusive hcall hact.1 hact.2
    | environment henv => exact h.limited.environment henv.1 henv.2

/-- However connects, drops of streams and ends of connections follow on each other, the counter of
a connection is the number of the leases and streams it has. With `max_connections` no more than
that many connections are in the pool for a key, and otherwise with `max_streams` no connection has
more than that many leases and streams. -/
theorem pool_accounting (hash : Text → Nat) (options : Text → Options)
    {s : System Shared Local Outcome}
    (h : Reaches (component hash options) (fun _ _ => True) startSystem s) :
    (∀ id, (holders s id).Finite ∧
      s.shared.pool.active id = (holders s id).ncard + s.shared.pool.streams id) ∧
    (∀ key, 0 < (options key).maxConnections →
      s.shared.pool.size key ≤ (options key).maxConnections) ∧
    (∀ id, (options (s.shared.owner id)).maxConnections = 0 →
      0 < (options (s.shared.owner id)).maxStreams →
        s.shared.pool.active id ≤ (options (s.shared.owner id)).maxStreams) ∧
    ∀ key list, s.shared.pool.physicals.lookup key = some list → ∀ p ∈ list,
      s.shared.owner p.id = key := by
  have hall : Accounted hash options s :=
    h.invariant (accounted_start hash options) fun _ _ ht hstep _ => ht.step hstep
  exact ⟨fun id => ⟨hall.counted.finite id, hall.counted.count id⟩, hall.limited.size,
    fun id hmany hstreams => hall.limited.load id ⟨hmany, hstreams⟩,
    fun key list hlist p hp => (hall.placed.listed key list hlist p hp).2⟩

/-- One stream at most for each connection. -/
def single : Options := { maxStreams := 1 }

/-- A request with these options. -/
def aRequest : Request := ⟨[], [], [], single, true⟩

/-- A step of `connect` that leaves no handshake behind. -/
theorem component_act {options : Text → Options} {i now : Nat} {s : Shared}
    (h : Act here s.pool out pool) :
    (component hash options).act i now here s out ⟨pool, s.note here⟩ :=
  ⟨.act h, rfl⟩

/-- The connection of a first `connect` carries one stream, all that it may; a second `connect`
makes another one and has its lease. -/
theorem pool_accounting_two :
    ∃ s : System Shared Local Outcome,
      Reaches (component (fun _ => 0) fun _ => single) (fun _ _ => True) startSystem s ∧
      s.shared.pool.size aRequest.key = 2 ∧ s.shared.pool.streams 1 = 1 ∧
      s.shared.pool.active 2 = (holders s 2).ncard ∧ 1 ∈ holders s 2 ∧
      s.shared.pool.active 1 ≤ 1 := by
  have hstart : Going (component (fun _ => 0) fun _ => single) (fun _ _ => True) startSystem 0
      startSystem := .refl fun _ _ => System.not_at_of_idle rfl
  have hfirst := hstart
    |>.begin (.waiting aRequest 0) rfl ⟨aRequest, 0, rfl, rfl⟩ trivial
    |>.go rfl (component_act .lock) trivial
    |>.go rfl (component_act (.shake rfl)) trivial
    |>.go rfl (component_act .push) trivial
    |>.go rfl (component_act .leaseNew) trivial
    |>.go rfl (component_act .settle) trivial
    |>.go rfl (component_act .opened) trivial
  have hsecond := hfirst.turn_done rfl 1
    |>.begin (.waiting aRequest 7) rfl ⟨aRequest, 7, rfl, rfl⟩ trivial
    |>.go rfl (component_act .lock) trivial
    |>.go rfl (component_act (.shake rfl)) trivial
    |>.go rfl (component_act .push) trivial
    |>.go rfl (component_act .leaseNew) trivial
  obtain ⟨hcount, -, hload, -⟩ := pool_accounting (fun _ => 0) (fun _ => single) hsecond.reach
  exact ⟨_, hsecond.reach, by decide, rfl, (hcount 2).2, ⟨_, ⟨_, rfl⟩, rfl⟩,
    hload 1 rfl Nat.one_pos⟩

end Clyntis.Protocol.Grpc
