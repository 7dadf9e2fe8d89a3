import Clyntis.Lib.Table
import Clyntis.Lib.Text
import Mathlib.Data.List.MinMax

/-!
# The pool of HTTP/2 connections (`grpc.rs`, `connect`)

`connect` is given a connection to the server, but first looks for one in the pool that has
room for another stream. Connects with one key wait for each other; the pool itself is
locked for a moment only. How many streams a connection carries is counted in `active`, on
behalf of a lease first, and of the stream in the end.

- `Pool`: the connections, their counters, and the streams that are open;
- `Local`, `Act`: `connect`, from one await or critical section to the next;
- `Environment`: streams and connections that end.

What is sent on the streams is not modelled here. The ids are of a `u64` counter, which is
taken not to wrap.
-/

namespace Clyntis.Protocol.Grpc

open Lib List Function Table

/-- `GrpcOptions`. -/
structure Options where
  grpcServiceName : Text := "GunService".toList
  grpcUserAgent : Text := "grpc-go/1.36.0".toList
  pingInterval : Nat := 0
  maxConnections : Nat := 0
  minStreams : Nat := 0
  maxStreams : Nat := 0
  deriving DecidableEq, Repr

/-- What `connect` is called with, besides the connection. -/
structure Request where
  transportIdentity : Text
  endpoint : Text
  authority : Text
  options : Options
  secure : Bool
  deriving DecidableEq, Repr

/-- `key`. -/
def Request.key (r : Request) : Text :=
  r.transportIdentity ++ '|' :: (if r.secure then "true" else "false").toList ++
    '|' :: r.endpoint ++ '|' :: r.authority ++ '|' :: r.options.grpcServiceName ++
    '|' :: r.options.grpcUserAgent ++ '|' :: (toString r.options.pingInterval).toList

/-- `Physical`. -/
structure Physical where
  id : Nat
  /-- when the connection to the server was begun; the source does not keep it -/
  since : Nat
  deriving DecidableEq, Repr

/-- `POOL` and `NEXT_PHYSICAL_ID`, with the counters of all connections. -/
structure Pool where
  physicals : Table Text (List Physical) := ∅
  active : Nat → Nat := fun _ => 0
  /-- the streams that are open -/
  streams : Nat → Nat := fun _ => 0
  nextId : Nat := 1

/-- `reuse_least_loaded`. -/
def reuseLeastLoaded (load connections : Nat) (options : Options) : Bool :=
  if load = 0 then true
  else if 0 < options.maxConnections then
    decide (options.maxConnections ≤ connections) || decide (load < options.minStreams)
  else options.maxStreams == 0 || decide (load < options.maxStreams)

namespace Pool

variable (pool : Pool)

/-- `pooled`. -/
def pooled (key : Text) (options : Options) : Option Physical :=
  match pool.physicals.lookup key with
  | none => none
  | some list =>
    match list.argmin fun physical => pool.active physical.id with
    | none => none
    | some least =>
      if reuseLeastLoaded (pool.active least.id) list.length options then some least else none

/-- `reset_pool`. -/
def reset : Pool := { pool with physicals := ∅ }

/-- `remove_physical`. -/
def removePhysical (key : Text) (id : Nat) : Pool :=
  match pool.physicals.lookup key with
  | none => pool
  | some list =>
    let list := list.filter fun physical => physical.id != id
    { pool with
      physicals :=
        if list.isEmpty then pool.physicals.erase key else pool.physicals.insert key list }

/-- The next connection. -/
def fresh (since : Nat) : Physical := ⟨pool.nextId, since⟩

/-- A new connection is put into the pool. -/
def push (key : Text) (since : Nat) : Pool :=
  { pool with
    physicals := pool.physicals.insert key
      ((pool.physicals.lookup key).getD [] ++ [pool.fresh since])
    nextId := pool.nextId + 1 }

variable (id : Nat)

/-- `ActiveLease::new`. -/
def lease : Pool :=
  { pool with active := update pool.active id (pool.active id + 1) }

/-- The drop of an `ActiveLease` that was not transferred. -/
def release : Pool :=
  { pool with active := update pool.active id (pool.active id - 1) }

/-- A `GrpcStream` takes over the lease. -/
def transfer : Pool :=
  { pool with streams := update pool.streams id (pool.streams id + 1) }

/-- The drop of a `GrpcStream`. -/
def close : Pool :=
  { pool.release id with streams := update pool.streams id (pool.streams id - 1) }

end Pool

/-- Where `connect` is. -/
inductive Local where
  | waiting (r : Request) (since : Nat)
  /-- the lock of the key is held from here on -/
  | choosing (r : Request) (since : Nat)
  | chosen (r : Request) (since : Nat) (physical : Physical)
  | probing (r : Request) (since : Nat) (physical : Physical)
  | removing (r : Request) (since : Nat) (physical : Physical)
  | removed (r : Request) (since : Nat) (physical : Physical)
  | shaking (r : Request) (since : Nat)
  | created (r : Request) (physical : Physical)
  | settling (r : Request) (physical : Physical)
  /-- and no longer -/
  | opening (r : Request) (physical : Physical)
  deriving DecidableEq, Repr

/-- How it returns. A call that is dropped at an await has failed. -/
inductive Outcome where
  | failed
  | stream (physical : Physical)
  deriving DecidableEq, Repr

/-- One step of `connect`. -/
inductive Act : Local → Pool → Local ⊕ Outcome → Pool → Prop where
  | abandon {r since pool} : Act (.waiting r since) pool (.inr .failed) pool
  | lock {r since pool} : Act (.waiting r since) pool (.inl (.choosing r since)) pool
  | reuse {r since pool physical} (hpooled : pool.pooled r.key r.options = some physical) :
      Act (.choosing r since) pool (.inl (.chosen r since physical)) pool
  | lease {r since pool physical} :
      Act (.chosen r since physical) pool (.inl (.probing r since physical))
        (pool.lease physical.id)
  | ready {r since pool physical} :
      Act (.probing r since physical) pool (.inl (.opening r physical)) pool
  | unready {r since pool physical} :
      Act (.probing r since physical) pool (.inl (.removing r since physical)) pool
  | abandonProbe {r since pool physical} :
      Act (.probing r since physical) pool (.inr .failed) (pool.release physical.id)
  | remove {r since pool physical} :
      Act (.removing r since physical) pool (.inl (.removed r since physical))
        (pool.removePhysical r.key physical.id)
  | release {r since pool physical} :
      Act (.removed r since physical) pool (.inl (.choosing r since))
        (pool.release physical.id)
  | shake {r since pool} (hpooled : pool.pooled r.key r.options = none) :
      Act (.choosing r since) pool (.inl (.shaking r since)) pool
  | shakeFailed {r since pool} : Act (.shaking r since) pool (.inr .failed) pool
  | push {r since pool} :
      Act (.shaking r since) pool (.inl (.created r (pool.fresh since))) (pool.push r.key since)
  | leaseNew {r pool physical} :
      Act (.created r physical) pool (.inl (.settling r physical)) (pool.lease physical.id)
  | settle {r pool physical} :
      Act (.settling r physical) pool (.inl (.opening r physical)) pool
  | settleFailed {r pool physical} :
      Act (.settling r physical) pool (.inr .failed) (pool.release physical.id)
  | opened {r pool physical} :
      Act (.opening r physical) pool (.inr (.stream physical)) (pool.transfer physical.id)
  | refused {r pool physical} :
      Act (.opening r physical) pool (.inr .failed) (pool.release physical.id)

/-- What happens beside: a connection ends or leaves a ping unanswered, a stream is
dropped. -/
inductive Environment : Pool → Pool → Prop where
  | ended {pool} (key : Text) (id : Nat) : Environment pool (pool.removePhysical key id)
  | dropped {pool} (id : Nat) (hopen : 0 < pool.streams id) : Environment pool (pool.close id)

/-- The keys whose lock is held: connects with one of them wait for each other. -/
def Local.locked : Local → Option Text
  | waiting .. => none
  | choosing r _ => some r.key
  | chosen r .. => some r.key
  | probing r .. => some r.key
  | removing r .. => some r.key
  | removed r .. => some r.key
  | shaking r _ => some r.key
  | created r _ => some r.key
  | settling r _ => some r.key
  | opening .. => none

/-! ## What is in the pool -/

/-- The connection is in the pool. -/
def Pool.Has (pool : Pool) (physical : Physical) : Prop :=
  ∃ key list, pool.physicals.lookup key = some list ∧ physical ∈ list

section Has

variable {pool : Pool} {physical p : Physical} {key : Text} {pool' : Pool}

theorem has_of_pooled {options : Options} (h : pool.pooled key options = some physical) :
    pool.Has physical := by
  unfold Pool.pooled at h
  split at h
  · cases h
  · rename_i list hlist
    split at h
    · cases h
    · rename_i least hleast
      split at h
      · cases h
        exact ⟨key, list, hlist, argmin_mem hleast⟩
      · cases h

theorem not_has_reset : ¬ pool.reset.Has p := by
  rintro ⟨key, list, hlist, -⟩
  cases hlist

theorem has_of_removePhysical {id : Nat} (h : (pool.removePhysical key id).Has p) :
    pool.Has p := by
  unfold Pool.removePhysical at h
  split at h
  · exact h
  · rename_i old hold
    obtain ⟨k, list, hlist, hp⟩ := h
    dsimp only at hlist
    split at hlist
    · exact ⟨k, list, (lookup_erase_iff.mp hlist).2, hp⟩
    · rcases lookup_insert_iff.mp hlist with ⟨-, rfl⟩ | ⟨-, hlist⟩
      · exact ⟨key, old, hold, mem_of_mem_filter hp⟩
      · exact ⟨k, list, hlist, hp⟩

theorem has_of_push {since : Nat} (h : (pool.push key since).Has p) :
    p = pool.fresh since ∨ pool.Has p := by
  obtain ⟨k, list, hlist, hp⟩ := h
  rcases lookup_insert_iff.mp hlist with ⟨-, rfl⟩ | ⟨-, hlist⟩
  · rcases mem_append.mp hp with hp | hp
    · cases hkey : pool.physicals.lookup key with
      | none =>
        rw [hkey] at hp
        cases hp
      | some old =>
        rw [hkey] at hp
        exact .inr ⟨key, old, hkey, hp⟩
    · exact .inl (mem_singleton.mp hp)
  · exact .inr ⟨k, list, hlist, hp⟩

theorem Environment.has (h : Environment pool pool') (hp : pool'.Has p) :
    pool.Has p := by
  cases h with
  | ended key id => exact has_of_removePhysical hp
  | dropped id hopen => exact hp

/-- `connect` adds a connection to the pool only when it has made one. -/
theorem Act.has {here : Local} {out : Local ⊕ Outcome}
    (h : Act here pool out pool') (hp : pool'.Has p) :
    pool.Has p ∨ ∃ r since, here = .shaking r since ∧ p = pool.fresh since ∧
      out = .inl (.created r p) := by
  cases h with
  | push =>
    rcases has_of_push hp with rfl | hold
    · exact .inr ⟨_, _, rfl, rfl, rfl⟩
    · exact .inl hold
  | remove => exact .inl (has_of_removePhysical hp)
  | _ => exact .inl hp

end Has

/-- The connections a call is concerned with: the one it was given, and the one from the
pool. -/
def Local.sinces : Local → List Nat
  | waiting _ since => [since]
  | choosing _ since => [since]
  | chosen _ since physical => [since, physical.since]
  | probing _ since physical => [since, physical.since]
  | removing _ since physical => [since, physical.since]
  | removed _ since physical => [since, physical.since]
  | shaking _ since => [since]
  | created _ physical => [physical.since]
  | settling _ physical => [physical.since]
  | opening _ physical => [physical.since]

/-- Those of a step were there before, or are from the pool. -/
theorem Act.sinces {here there : Local} {pool pool' : Pool}
    (h : Act here pool (.inl there) pool') {since : Nat} (hin : since ∈ there.sinces) :
    since ∈ here.sinces ∨ ∃ physical, pool.Has physical ∧ physical.since = since := by
  cases h with
  | reuse hpooled =>
    rcases mem_cons.mp hin with rfl | hin
    · exact .inl mem_cons_self
    · rw [mem_singleton.mp hin]
      exact .inr ⟨_, has_of_pooled hpooled, rfl⟩
  | ready => exact .inl (mem_cons_of_mem _ hin)
  | release =>
    rw [mem_singleton.mp hin]
    exact .inl mem_cons_self
  | _ => exact .inl hin

/-- A stream is carried by a connection the call was concerned with. -/
theorem Act.since_of_stream {here : Local} {pool pool' : Pool} {physical : Physical}
    (h : Act here pool (.inr (.stream physical)) pool') : physical.since ∈ here.sinces := by
  cases h with
  | opened => exact mem_cons_self

end Clyntis.Protocol.Grpc
