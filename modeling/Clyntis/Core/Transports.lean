import Clyntis.Lib.Sweep
import Clyntis.Protocol.GrpcPool

/-!
# Multiplexed transports and a change of network (`lib.rs`, `network_changed`)

Streams of Hysteria2 proxies share one client per proxy, which is kept in a slot; the slot
stays locked while a client is dialed. Streams of gRPC proxies share the connections of a
pool. `network_changed` empties the pool and closes the clients in the slots, but leaves out
a slot that is locked.

- `Shared`, `Local`, `Act`: requests of both kinds, and `network_changed`;
- `HeldInv`: a slot is locked by the call that is dialing it, and no other;
- `poolSweep`, `slotSweep`: what has to be gone after the change;
- `Prompt`: no slot is locked when it is tried, and no connection put into the pool late;
- `old_transports_not_used`: then requests after the change use new transports only.
-/

namespace Clyntis.Core.Transports

open Lib Protocol List Function Option Table AList

/-- `Client`: a connection to a Hysteria2 server, by number. -/
structure Client where
  id : Nat
  /-- when it was begun; the source does not keep it -/
  since : Nat
  deriving DecidableEq, Repr

/-- What the calls share. -/
structure Shared where
  /-- the gRPC connections -/
  pool : Grpc.Pool := {}
  /-- `hysteria2`: the slots -/
  slots : Table Text (Option Client) := ∅
  /-- the call that has a slot locked -/
  holder : Text → Option Nat := fun _ => none
  /-- the clients that are closed -/
  closed : Nat → Bool := fun _ => false
  nextClient : Nat := 0

/-- Which transport carries a stream: a pooled connection, or the client of a proxy. -/
inductive Carrier where
  | grpc
  | hysteria2 (name : Text)
  deriving DecidableEq, Repr

/-- How a call returns. A call that is dropped at an await has failed. -/
inductive Result where
  | failed
  /-- a stream, and when its transport was begun -/
  | stream (carrier : Carrier) (since : Nat)
  | changed
  deriving DecidableEq, Repr

/-- Where a call is. -/
inductive Local where
  /-- `vless_stream` with so many addresses left: the connection is begun next -/
  | connect (r : Grpc.Request) (addresses : Nat)
  | grpc (r : Grpc.Request) (addresses : Nat) (here : Grpc.Local)
  /-- `hysteria2_stream`; `again` while another attempt is left -/
  | client (name : Text) (again : Bool)
  | wait (name : Text) (again : Bool)
  /-- the slot is locked -/
  | check (name : Text) (again : Bool)
  | resolve (name : Text) (again : Bool)
  | dial (name : Text) (again : Bool) (since : Nat)
  /-- and no longer -/
  | opening (name : Text) (again : Bool) (client : Client)
  /-- `network_changed` -/
  | change
  | list
  | close (names : List Text)
  deriving DecidableEq, Repr

namespace Shared

variable (s : Shared) (name : Text)

/-- `entry(name).or_default()`. -/
def enter : Shared :=
  { s with slots := if name ∈ s.slots then s.slots else s.slots.insert name none }

/-- The client in a slot. -/
def clientOf : Option Client := (s.slots.lookup name).join

/-- The client in a slot, if it is alive. -/
def aliveIn : Option Client :=
  (s.clientOf name).filter fun client => !s.closed client.id

def lock (caller : Nat) : Shared :=
  { s with holder := update s.holder name (some caller) }

def unlock : Shared :=
  { s with holder := update s.holder name none }

/-- A new client is put into its slot. -/
def connected (since : Nat) : Shared :=
  { s with
    slots := s.slots.insert name (some ⟨s.nextClient, since⟩)
    nextClient := s.nextClient + 1 }

/-- The client of a slot is taken out and closed. -/
def take : Shared :=
  match s.clientOf name with
  | some client =>
    { s with
      slots := s.slots.insert name none
      closed := update s.closed client.id true }
  | none => s

end Shared

/-- One step of a call. -/
inductive Act (caller now : Nat) : Local → Shared → Local ⊕ Result → Shared → Prop where
  -- `vless_stream` of a gRPC proxy
  | begin {r addresses s} :
      Act caller now (.connect r addresses) s
        (.inl (.grpc r addresses (.waiting r now))) s
  | unconnected {r addresses s} : Act caller now (.connect r addresses) s (.inr .failed) s
  | grpc {r addresses here there s pool} (hact : Grpc.Act here s.pool (.inl there) pool) :
      Act caller now (.grpc r addresses here) s (.inl (.grpc r addresses there)) { s with pool }
  | grpcStream {r addresses here s pool physical}
      (hact : Grpc.Act here s.pool (.inr (.stream physical)) pool) :
      Act caller now (.grpc r addresses here) s (.inr (.stream .grpc physical.since))
        { s with pool }
  | grpcAgain {r addresses left here s pool} (hact : Grpc.Act here s.pool (.inr .failed) pool)
      (hleft : left < addresses) :
      Act caller now (.grpc r addresses here) s (.inl (.connect r left)) { s with pool }
  | grpcFailed {r addresses here s pool} (hact : Grpc.Act here s.pool (.inr .failed) pool) :
      Act caller now (.grpc r addresses here) s (.inr .failed) { s with pool }
  -- `hysteria2_client`
  | enter {name again s} :
      Act caller now (.client name again) s (.inl (.wait name again)) (s.enter name)
  | abandon {name again s} : Act caller now (.wait name again) s (.inr .failed) s
  | lock {name again s} (hfree : s.holder name = none) :
      Act caller now (.wait name again) s (.inl (.check name again)) (s.lock name caller)
  | reuse {name again s client} (halive : s.aliveIn name = some client) :
      Act caller now (.check name again) s (.inl (.opening name again client)) (s.unlock name)
  | resolve {name again s} (halive : s.aliveIn name = none) :
      Act caller now (.check name again) s (.inl (.resolve name again)) s
  | unresolved {name again s} :
      Act caller now (.resolve name again) s (.inr .failed) (s.unlock name)
  | dial {name again s} :
      Act caller now (.resolve name again) s (.inl (.dial name again now)) s
  | dialFailed {name again since s} :
      Act caller now (.dial name again since) s (.inr .failed) (s.unlock name)
  | connected {name again since s} :
      Act caller now (.dial name again since) s
        (.inl (.opening name again ⟨s.nextClient, since⟩)) ((s.connected name since).unlock name)
  -- `hysteria2_stream`
  | opened {name again client s} :
      Act caller now (.opening name again client) s
        (.inr (.stream (.hysteria2 name) client.since)) s
  | again {name client s} (hclosed : s.closed client.id = true) :
      Act caller now (.opening name true client) s (.inl (.client name false)) s
  | refused {name again client s} :
      Act caller now (.opening name again client) s (.inr .failed) s
  -- `network_changed`
  | reset {s} : Act caller now .change s (.inl .list) { s with pool := s.pool.reset }
  | list {s} : Act caller now .list s (.inl (.close s.slots.keys)) s
  | take {name names s} (hfree : s.holder name = none) :
      Act caller now (.close (name :: names)) s (.inl (.close names)) (s.take name)
  | skip {name names s} (hheld : s.holder name ≠ none) :
      Act caller now (.close (name :: names)) s (.inl (.close names)) s
  | changed {s} : Act caller now (.close []) s (.inr .changed) s

/-- What happens beside: in the pool, and clients that lose their connection. -/
inductive Environment : Shared → Shared → Prop where
  | pool {s pool} (h : Grpc.Environment s.pool pool) : Environment s { s with pool }
  | closed {s} (id : Nat) : Environment s { s with closed := update s.closed id true }

/-- Where a call begins. -/
def Local.Begins : Local → Prop
  | .connect .. => True
  | .client _ again => again = true
  | .change => True
  | _ => False

variable (hash : Text → Nat)

/-- The keys of gRPC connects share 64 locks. -/
def shard (key : Text) : Nat := hash key % 64

/-- The lock a call holds. -/
def Local.holds : Local → Nat → Prop
  | .grpc _ _ here, lock => here.locked.map (shard hash) = some lock
  | _, _ => False

/-- The lock a step takes. A call that is dropped while it waits takes none. -/
def Local.needs : Local → Local ⊕ Result → Nat → Prop
  | .grpc _ _ (.waiting r _), .inl (.grpc ..), lock => shard hash r.key = lock
  | _, _, _ => False

theorem Act.acquired {hash : Text → Nat} {caller now : Nat} {here there : Local} {s s' : Shared}
    (h : Act caller now here s (.inl there) s') (lock : Nat) (hheld : there.holds hash lock) :
    here.holds hash lock ∨ here.needs hash (.inl there) lock := by
  cases h with
  | grpc hact =>
    cases hact with
    | lock => exact .inr (Option.some.inj hheld)
    | ready => cases hheld
    | settle => cases hheld
    | _ => exact .inl hheld
  | begin => cases hheld
  | _ => exact hheld.elim

/-- The core as a component. -/
def component : Component Nat Shared Local Result where
  starts := Local.Begins
  act := Act
  environment := Environment
  needs := Local.needs hash
  holds := Local.holds hash
  starts_free := by
    intro here hstart lock hheld
    cases here <;> first | exact hstart | exact hheld
  acquired := Act.acquired

/-! ## Slots -/

variable {out : Local ⊕ Result} {client : Client} {here : Local}

section Slots

variable {caller now : Nat} {here : Local} {s s' : Shared} {n : Text}

theorem clientOf_eq_some :
    s.clientOf n = some client ↔ s.slots.lookup n = some (some client) :=
  join_eq_some_iff

/-- The slot that a call has locked. -/
def Local.slot : Local → Option Text
  | .check name _ => some name
  | .resolve name _ => some name
  | .dial name _ _ => some name
  | _ => none

/-- A slot that a call has seen. -/
def Local.seen : Local → Option Text
  | .wait name _ => some name
  | here => here.slot

theorem Local.seen_of_slot (h : here.slot = some n) : here.seen = some n := by
  cases here <;> first | exact h | cases h

/-- What a step does to the slots and their locks. -/
inductive SlotEffect (caller : Nat) (here : Local) (s : Shared) :
    Local ⊕ Result → Shared → Prop where
  | quiet {out : Local ⊕ Result} {s' : Shared} (hslots : s'.slots = s.slots)
      (hholder : s'.holder = s.holder)
      (hslot : ∀ there, out = .inl there → there.slot = here.slot ∧ there.seen = here.seen)
      (hreturn : ∀ result, out = .inr result → here.slot = none) : SlotEffect caller here s out s'
  | enter {there} (name : Text) (hhere : here.slot = none) (hthere : there.slot = none)
      (hseen : there.seen = some name) : SlotEffect caller here s (.inl there) (s.enter name)
  | lock {there} (name : Text) (hfree : s.holder name = none) (hhere : here.slot = none)
      (hseen : here.seen = some name) (hthere : there.slot = some name)
      (hseen' : there.seen = some name) : SlotEffect caller here s (.inl there) (s.lock name caller)
  | unlock {out : Local ⊕ Result} {s' : Shared} (name : Text)
      (hslots : ∀ m, m ∈ s.slots → m ∈ s'.slots) (hholder : s'.holder = s.holder)
      (hhere : here.slot = some name)
      (hout : ∀ there, out = .inl there → there.seen = none) :
      SlotEffect caller here s out (s'.unlock name)
  | take {there} (name : Text) (hhere : here.slot = none) (hthere : there.seen = none) :
      SlotEffect caller here s (.inl there) (s.take name)

theorem Act.slotEffect (h : Act caller now here s out s') : SlotEffect caller here s out s' := by
  cases h with
  | enter => exact .enter _ rfl rfl rfl
  | lock hfree => exact .lock _ hfree rfl rfl rfl rfl
  | reuse halive =>
    refine .unlock _ (fun _ => id) rfl rfl fun there hthere => ?_
    obtain rfl := Sum.inl.inj hthere
    rfl
  | unresolved | dialFailed => exact .unlock _ (fun _ => id) rfl rfl fun _ hthere => by cases hthere
  | connected =>
    refine .unlock _ (fun m hm => (mem_insert _).mpr (.inr hm)) rfl rfl fun there hthere => ?_
    obtain rfl := Sum.inl.inj hthere
    rfl
  | take hfree => exact .take _ rfl rfl
  | _ =>
    refine .quiet rfl rfl (fun there hthere => ?_) fun result hresult => ?_
    · cases hthere <;> exact ⟨rfl, rfl⟩
    · cases hresult <;> rfl

/-- A call that has locked a slot is the one that holds it, and slots that calls have seen
are there. -/
structure HeldInv (s : System Shared Local Result) : Prop where
  held : ∀ i here, s.At i here → ∀ name, here.slot = some name → s.shared.holder name = some i
  seen : ∀ i here, s.At i here → ∀ name, here.seen = some name → name ∈ s.shared.slots

theorem Shared.mem_enter {m : Text} : m ∈ (s.enter n).slots ↔ m = n ∨ m ∈ s.slots := by
  unfold Shared.enter
  split
  · rename_i hn
    exact ⟨.inr, fun hm => hm.elim (fun heq => heq ▸ hn) id⟩
  · exact mem_insert _

theorem Shared.mem_take {m : Text} (hm : m ∈ s.slots) : m ∈ (s.take n).slots := by
  unfold Shared.take
  split
  · exact (mem_insert _).mpr (.inr hm)
  · exact hm

theorem Shared.holder_take : (s.take n).holder = s.holder := by
  unfold Shared.take
  split
  · rfl
  · rfl

theorem HeldInv.step {hash : Text → Nat} {s t : System Shared Local Result} (h : HeldInv s)
    (hstep : Step (component hash) s t) : HeldInv t := by
  cases hstep with
  | @start i here hidle hstart =>
    have hbegin : here.seen = none ∧ here.slot = none := by
      cases here <;> first | exact ⟨rfl, rfl⟩ | exact hstart.elim
    exact ⟨System.Shows.start h.held (fun _ _ => id) hbegin.2,
      System.Shows.start h.seen (fun _ _ => id) hbegin.1⟩
  | @act i began here out shared hcall hfree hact =>
    have hat : s.At i here := ⟨began, hcall⟩
    cases hact.slotEffect with
    | quiet hslots hholder hslot hreturn =>
      constructor
      · rw [System.set_shared, hholder]
        exact System.Shows.next_same h.held (fun _ _ => id) hat fun there hthere =>
          (hslot there hthere).1
      · rw [System.set_shared, hslots]
        exact System.Shows.next_same h.seen (fun _ _ => id) hat fun there hthere =>
          (hslot there hthere).2
    | enter name hhere hthere hseen =>
      exact ⟨System.Shows.move_none h.held (fun _ _ => id) hthere,
        System.Shows.move_some h.seen (fun _ _ hm => Shared.mem_enter.mpr (.inr hm)) hseen
          (Shared.mem_enter.mpr (.inl rfl))⟩
    | lock name hnone hhere hseen hthere hseen' =>
      refine ⟨System.Shows.move_some h.held (fun j m hheld => ?_) hthere (update_self ..),
        System.Shows.move_some h.seen (fun _ _ => id) hseen' (h.seen i here hat name hseen)⟩
      refine update_some_eq_some.mpr (.inr ⟨?_, hheld⟩)
      rintro rfl
      rw [hnone] at hheld
      cases hheld
    | unlock name hslots hholder hhere hout =>
      constructor
      · refine System.forall_at_set (fun there hin m hm => ?_) fun j there hne hj m hm => ?_
        · have hnone := hout there (System.at_set_next.mp hin)
          rw [Local.seen_of_slot hm] at hnone
          cases hnone
        · have hheld := h.held j there hj m hm
          refine update_none_eq_some.mpr ⟨?_, hholder ▸ hheld⟩
          rintro rfl
          rw [h.held i here hat _ hhere] at hheld
          exact hne (Option.some.inj hheld).symm
      · exact System.Shows.next_none h.seen (fun _ => hslots) hout
    | @take there name hhere hthere =>
      have hslot : there.slot = none :=
        eq_none_iff_forall_ne_some.mpr fun m hm => by
          rw [Local.seen_of_slot hm] at hthere
          cases hthere
      constructor
      · rw [System.set_shared, Shared.holder_take]
        exact System.Shows.move_none h.held (fun _ _ => id) hslot
      · exact System.Shows.move_none h.seen (fun _ _ => Shared.mem_take) hthere
  | environment henv =>
    cases henv with
    | pool | closed => exact ⟨h.held, h.seen⟩

end Slots

/-! ## What is old -/

section

variable {hash : Text → Nat} {s t : System Shared Local Result} {n : Text}

/-- The call has taken the client of this slot, or found no such slot. -/
def Emptied (n : Text) : Call Local Result → Prop
  | .running _ (.close names) => n ∉ names
  | .done _ _ .changed => True
  | _ => False

/-- The call has emptied the pool. -/
def ResetPool : Call Local Result → Prop
  | .running _ .list => True
  | .running _ (.close _) => True
  | .done _ _ .changed => True
  | _ => False

/-- The call dials a client for this slot, has one from it, or a stream of one. -/
def UsesClient (n : Text) : Call Local Result → Nat → Prop
  | .running _ (.dial name _ since), b => name = n ∧ since = b
  | .running _ (.opening name _ client), b => name = n ∧ client.since = b
  | .done _ _ (.stream (.hysteria2 name) since), b => name = n ∧ since = b
  | _, _ => False

/-- The call is concerned with this connection, or has a stream of it. -/
def UsesConnection : Call Local Result → Nat → Prop
  | .running _ (.grpc _ _ here), b => b ∈ here.sinces
  | .done _ _ (.stream .grpc since), b => since = b
  | _, _ => False

/-- The client of a slot, and those that are being dialed for it. -/
def slotSweep (n : Text) : Sweep Shared Local Result where
  present s b := (∃ client, s.shared.clientOf n = some client ∧ client.since = b) ∨
    ∃ i again, s.At i (.dial n again b)
  uses _ := UsesClient n
  swept := Emptied n
  not_uses_idle _ _ := id
  not_swept_idle := id

/-- The connections in the pool. -/
def poolSweep : Sweep Shared Local Result where
  present s b := ∃ physical, s.shared.pool.Has physical ∧ physical.since = b
  uses _ := UsesConnection
  swept := ResetPool
  not_uses_idle _ _ := id
  not_swept_idle := id

/-- No slot is locked when `network_changed` tries it, and no connection is put into the pool
that was begun before a call of `network_changed` that has emptied the pool. -/
structure Prompt (s t : System Shared Local Result) : Prop where
  slot : ∀ i name names, s.At i (.close (name :: names)) → t.calls i ≠ s.calls i →
    s.shared.holder name = none
  pool : ∀ i r addresses r' since physical, s.At i (.grpc r addresses (.shaking r' since)) →
    t.At i (.grpc r addresses (.created r' physical)) →
      ∀ j began, (s.calls j).began = some began → ResetPool (s.calls j) → began ≤ since

section Act

variable {caller now began time : Nat} {here : Local} {s s' : Shared}

/-- The client of a slot was there before, or has been dialed. -/
theorem Act.clientOf (h : Act caller now here s out s')
    (hclient : s'.clientOf n = some client) :
    s.clientOf n = some client ∨ ∃ again, here = .dial n again client.since := by
  cases h with
  | @enter name =>
    rw [clientOf_eq_some, Shared.enter] at hclient
    split at hclient
    · exact .inl (clientOf_eq_some.mpr hclient)
    · rcases lookup_insert_iff.mp hclient with ⟨-, hnone⟩ | ⟨-, hold⟩
      · cases hnone
      · exact .inl (clientOf_eq_some.mpr hold)
  | @connected name again since =>
    rw [clientOf_eq_some] at hclient
    rcases lookup_insert_iff.mp hclient with ⟨rfl, hnew⟩ | ⟨-, hold⟩
    · cases hnew
      exact .inr ⟨again, rfl⟩
    · exact .inl (clientOf_eq_some.mpr hold)
  | @take name =>
    unfold Shared.take at hclient
    split at hclient
    · rw [clientOf_eq_some] at hclient
      rcases lookup_insert_iff.mp hclient with ⟨-, hnone⟩ | ⟨-, hold⟩
      · cases hnone
      · exact .inl (clientOf_eq_some.mpr hold)
    · exact .inl hclient
  | _ => exact .inl hclient

variable {b : Nat}

/-- A client is begun when it is dialed. -/
theorem Act.since_of_dial {again : Bool} (h : Act caller now here s (.inl (.dial n again b)) s') :
    b = now := by
  cases h with
  | dial => rfl

/-- A call uses the client it used before, that of the slot, or a new one. -/
theorem Act.usesClient (h : Act caller now here s out s')
    (huses : UsesClient n (.next began time out) b) :
    UsesClient n (.running began here) b ∨
      (∃ client, s.clientOf n = some client ∧ client.since = b) ∨ b = now := by
  cases h with
  | @reuse name again _ client halive =>
    obtain ⟨rfl, rfl⟩ := huses
    exact .inr (.inl ⟨client, (filter_eq_some_iff.mp halive).1, rfl⟩)
  | dial => exact .inr (.inr huses.2.symm)
  | connected | opened => exact .inl huses
  | _ => exact huses.elim

/-- A call that has emptied a slot has found it missing or unlocked. -/
theorem Act.emptied (h : Act caller now here s out s')
    (hempty : Emptied n (.next began time out)) :
    Emptied n (.running began here) ∨
      ∃ names, out = .inl (.close names) ∧ (here = .list ∧ n ∉ s.slots ∧ s' = s ∨
        here = .close (n :: names) ∧ (s.holder n = none → s' = s.take n)) := by
  cases h with
  | list => exact .inr ⟨_, rfl, .inl ⟨rfl, fun hn => hempty (mem_keys.mp hn), rfl⟩⟩
  | @take name names hfree =>
    by_cases hname : n = name
    · subst hname
      exact .inr ⟨names, rfl, .inr ⟨rfl, fun _ => rfl⟩⟩
    · exact .inl (not_mem_cons_of_ne_of_not_mem hname hempty)
  | @skip name names _ hheld =>
    by_cases hname : n = name
    · subst hname
      exact .inr ⟨names, rfl, .inr ⟨rfl, fun hfree => absurd hfree hheld⟩⟩
    · exact .inl (not_mem_cons_of_ne_of_not_mem hname hempty)
  | changed => exact .inl not_mem_nil
  | _ => exact hempty.elim

theorem Shared.pool_take : (s.take n).pool = s.pool := by
  unfold Shared.take
  split
  · rfl
  · rfl

variable (h : Act caller now here s out s')
include h

/-- A connection was in the pool before, or has been made by the step. -/
theorem Act.has {p : Grpc.Physical} (hp : s'.pool.Has p) :
    s.pool.Has p ∨ ∃ r addresses r', here = .grpc r addresses (.shaking r' p.since) ∧
      out = .inl (.grpc r addresses (.created r' p)) := by
  cases h with
  | grpc hact =>
    rcases hact.has hp with hold | ⟨r', since, rfl, rfl, hout⟩
    · exact .inl hold
    · cases hout
      exact .inr ⟨_, _, r', rfl, rfl⟩
  | grpcStream hact | grpcAgain hact | grpcFailed hact =>
    rcases hact.has hp with hold | ⟨r', since, -, -, hout⟩
    · exact .inl hold
    · cases hout
  | reset => exact absurd hp Grpc.not_has_reset
  | take hfree =>
    rw [Shared.pool_take] at hp
    exact .inl hp
  | _ => exact .inl hp

/-- A call is concerned with the connection it was before, one of the pool, or a new one. -/
theorem Act.usesConnection (huses : UsesConnection (.next began time out) b) :
    UsesConnection (.running began here) b ∨ (∃ p, s.pool.Has p ∧ p.since = b) ∨ b = now := by
  cases h with
  | begin => exact .inr (.inr (mem_singleton.mp huses))
  | grpc hact => exact (hact.sinces huses).imp_right .inl
  | grpcStream hact =>
    obtain rfl := huses
    exact .inl hact.since_of_stream
  | _ => exact huses.elim

theorem Act.resetPool (hreset : ResetPool (.next began time out)) :
    ResetPool (.running began here) ∨ s'.pool = s.pool.reset := by
  cases h with
  | reset => exact .inr rfl
  | list | take | skip | changed => exact .inl trivial
  | _ => exact hreset.elim

omit h

theorem Shared.clientOf_take : (s.take n).clientOf n = none := by
  unfold Shared.take
  split
  · show ((s.slots.insert n none).lookup n).join = none
    rw [lookup_insert]
    rfl
  · assumption

end Act

variable {i : Nat} {shared : Shared} {call : Call Local Result}

/-- A call that has just emptied a slot leaves neither a client nor a dial for it behind. -/
theorem not_present_of_emptied {began : Nat} {out : Local ⊕ Result}
    (hinv : HeldInv s) (hcall : s.calls i = .running began here)
    (hact : Act i s.now here s.shared out shared)
    (hok : Prompt s (s.set i (.next began s.now out) shared))
    (hempty : Emptied n (.next began s.now out)) (hnew : ¬ Emptied n (.running began here))
    (b : Nat) : ¬ (slotSweep n).present (s.set i (.next began s.now out) shared) b := by
  have hat : s.At i here := ⟨began, hcall⟩
  obtain ⟨names, rfl, hslot⟩ := (hact.emptied hempty).resolve_left hnew
  have hdial : ∀ j again, (s.set i (.next began s.now (.inl (.close names))) shared).At j
      (.dial n again b) → s.At j (.dial n again b) := by
    intro j again hj
    by_cases hji : j = i
    · subst hji
      cases System.at_set_next.mp hj
    · exact (System.at_set_of_ne hji).mp hj
  rcases hslot with ⟨rfl, hmissing, rfl⟩ | ⟨rfl, htake⟩
  · rintro (⟨client, hclient, -⟩ | ⟨j, again, hj⟩)
    · exact hmissing (mem_iff_lookup.mpr ⟨_, clientOf_eq_some.mp hclient⟩)
    · exact hmissing (hinv.seen j _ (hdial j again hj) n rfl)
  · have hfree : s.shared.holder n = none := by
      refine hok.slot i n names hat fun hsame => ?_
      rw [System.set_calls_self, hcall] at hsame
      exact cons_ne_self n names (Local.close.inj (Call.running.inj hsame).2).symm
    rintro (⟨client, hclient, -⟩ | ⟨j, again, hj⟩)
    · rw [System.set_shared, htake hfree, Shared.clientOf_take] at hclient
      cases hclient
    · have hheld := hinv.held j _ (hdial j again hj) n rfl
      rw [hfree] at hheld
      cases hheld

theorem kept_slot (hinv : HeldInv s) (hstep : Step (component hash) s t) (hok : Prompt s t) :
    (slotSweep n).Kept s t := by
  cases hstep with
  | @start i here hidle hstart =>
    refine Sweep.kept_of_set ?_ (fun hempty => ?_) (fun b huses => ?_) fun _ _ => .inl
    · rintro b (hclient | ⟨j, again, hj⟩)
      · exact .inl (.inl hclient)
      · by_cases hji : j = i
        · subst hji
          rw [← System.at_set_running.mp hj] at hstart
          exact hstart.elim
        · exact .inl (.inr ⟨j, again, (System.at_set_of_ne hji).mp hj⟩)
    · cases here <;> first | exact hempty.elim | exact hstart.elim
    · cases here <;> first | exact huses.elim | exact hstart.elim
  | @act i began here out shared hcall hfree hact =>
    refine Sweep.kept_of_set ?_ (fun hempty => ?_) (fun b huses => ?_) fun _ _ => .inl
    · rintro b (⟨client, hclient, rfl⟩ | ⟨j, again, hj⟩)
      · rcases hact.clientOf hclient with hold | ⟨again, rfl⟩
        · exact .inl (.inl ⟨client, hold, rfl⟩)
        · exact .inl (.inr ⟨i, again, began, hcall⟩)
      · by_cases hji : j = i
        · subst hji
          obtain rfl := System.at_set_next.mp hj
          exact .inr (.inl (Nat.le_of_eq hact.since_of_dial.symm))
        · exact .inl (.inr ⟨j, again, (System.at_set_of_ne hji).mp hj⟩)
    · rw [hcall]
      by_cases hold : Emptied n (.running began here)
      · exact .inl hold
      · exact .inr (not_present_of_emptied hinv hcall hact hok hempty hold)
    · rw [hcall]
      exact (hact.usesClient huses).imp_right fun h => h.imp .inl fun h => Nat.le_of_eq h.symm
  | environment henv =>
    refine ⟨fun b hb => .inl ?_, fun _ => .inl, fun _ _ => .inl⟩
    cases henv with
    | pool | closed => exact hb

theorem kept_pool (hstep : Step (component hash) s t) (hok : Prompt s t) :
    poolSweep.Kept s t := by
  cases hstep with
  | @start i here hidle hstart =>
    refine Sweep.kept_of_set (fun _ => .inl) (fun hreset => ?_) (fun b huses => ?_)
      fun _ _ => .inl
    · cases here <;> first | exact hreset.elim | exact hstart.elim
    · cases here <;> first | exact huses.elim | exact hstart.elim
  | @act i began here out shared hcall hfree hact =>
    refine Sweep.kept_of_set ?_ (fun hreset => ?_) (fun b huses => ?_) fun _ _ => .inl
    · rintro b ⟨p, hp, rfl⟩
      rcases hact.has hp with hold | ⟨r, addresses, r', rfl, rfl⟩
      · exact .inl ⟨p, hold, rfl⟩
      · exact .inr (.inr (hok.pool i r addresses r' p.since p ⟨began, hcall⟩
          (System.at_set_next.mpr rfl)))
    · rw [hcall]
      refine (hact.resetPool hreset).imp_right ?_
      rintro hempty b ⟨p, hp, -⟩
      rw [System.set_shared, hempty] at hp
      exact Grpc.not_has_reset hp
    · rw [hcall]
      exact (hact.usesConnection huses).imp_right fun h => h.imp_right fun h => Nat.le_of_eq h.symm
  | environment henv =>
    refine ⟨fun b hb => .inl ?_, fun _ => .inl, fun _ _ => .inl⟩
    cases henv with
    | pool henv =>
      obtain ⟨p, hp, rfl⟩ := hb
      exact ⟨p, henv.has hp, rfl⟩
    | closed id => exact hb

/-- If `network_changed` finds no slot locked, and no connection that was begun before is put
into the pool after it, then a request that begins after it has returned has a stream of a
transport that was not begun before it was called. -/
theorem old_transports_not_used (hash : Text → Nat) {s t : System Shared Local Result}
    (hreach : Reaches (component hash) Prompt s t) (hs : ∀ i, s.calls i = .idle)
    {c q began ended start returned since : Nat} {carrier : Carrier}
    (hc : t.calls c = .done began ended .changed)
    (hq : t.calls q = .done start returned (.stream carrier since)) (hafter : ended < start) :
    began ≤ since := by
  have hstart : (t.calls q).began = some start := by
    rw [hq]
    rfl
  have hidle : HeldInv s := by
    constructor
    · exact fun i here hat => absurd hat (System.not_at_of_idle (hs i))
    · exact fun i here hat => absurd hat (System.not_at_of_idle (hs i))
  by_contra hlt
  rw [Nat.not_le] at hlt
  cases carrier with
  | grpc =>
    refine Sweep.not_old hreach hs (fun u v _ hstep hok => kept_pool hstep hok) hc
      (show poolSweep.swept (.done began ended .changed) from trivial) hstart hafter hlt ?_
    rw [hq]
    exact rfl
  | hysteria2 name =>
    have hinv : ∀ u, Reaches (component hash) Prompt s u → HeldInv u :=
      fun u hu => hu.invariant hidle fun _ _ h hstep _ => h.step hstep
    refine Sweep.not_old hreach hs (fun u v hu hstep hok => kept_slot (hinv u hu) hstep hok) hc
      (show (slotSweep name).swept (.done began ended .changed) from trivial) hstart hafter hlt ?_
    rw [hq]
    exact ⟨rfl, rfl⟩

/-! ### Runs -/

/-- One proxy. -/
def proxy : Text := "p".toList

/-- The core before any call. -/
def startSystem : System Shared Local Result := ⟨0, {}, fun _ => .idle⟩

theorem startSystem_quiescent : startSystem.Quiescent := fun _ _ => System.not_at_of_idle rfl

/-- Where no slot is tried that is locked, and no gRPC connection made. -/
def Local.prompt (s : Shared) : Local → Bool
  | .close (name :: _) => (s.holder name).isNone
  | .grpc .. => false
  | _ => true

theorem prompt_set
    (h : ∀ asked here, s.calls i = .running asked here → here.prompt s.shared = true) :
    Prompt s (s.set i call shared) := by
  constructor
  · rintro j name names ⟨asked, hj⟩ hmoved
    by_cases hji : j = i
    · subst hji
      exact isNone_iff_eq_none.mp (h asked _ hj)
    · exact absurd (System.set_calls_of_ne s hji _ _) hmoved
  · rintro j r addresses r' since physical ⟨asked, hj⟩ hcreated
    by_cases hji : j = i
    · subst hji
      cases h asked _ hj
    · cases ((System.at_set_of_ne hji).mp hcreated).unique ⟨asked, hj⟩

theorem prompt_begin (hidle : s.calls i = .idle) : Prompt s (s.set i call shared) :=
  prompt_set (System.forall_running_of_idle hidle)

theorem prompt_go {asked : Nat}
    (hcall : s.calls i = .running asked here) (h : here.prompt s.shared = true) :
    Prompt s (s.set i call shared) :=
  prompt_set (System.forall_running hcall h)

/-- Of two requests with a change of network between them, the second one dials again. -/
theorem second_request_dials :
    ∃ (t : System Shared Local Result) (began ended start returned since asked e old : Nat),
      Reaches (component fun _ => 0) Prompt startSystem t ∧
      t.calls 0 = .done asked e (.stream (.hysteria2 proxy) old) ∧ asked < began ∧
      t.calls 1 = .done began ended .changed ∧ ended < start ∧
      t.calls 2 = .done start returned (.stream (.hysteria2 proxy) since) ∧ began ≤ since := by
  have hstart : Going (component fun _ => 0) Prompt startSystem 0 startSystem :=
    .refl startSystem_quiescent
  have hfirst := hstart
    |>.begin (.client proxy true) rfl rfl (prompt_begin rfl)
    |>.go rfl .enter (prompt_go rfl rfl)
    |>.go rfl (.lock rfl) (prompt_go rfl rfl)
    |>.go rfl (.resolve rfl) (prompt_go rfl rfl)
    |>.go rfl .dial (prompt_go rfl rfl)
    |>.go rfl .connected (prompt_go rfl rfl)
    |>.go rfl .opened (prompt_go rfl rfl)
  have hchange := hfirst.turn_done rfl 1
    |>.begin .change rfl trivial (prompt_begin rfl)
    |>.go rfl .reset (prompt_go rfl rfl)
    |>.go rfl .list (prompt_go rfl rfl)
    |>.go rfl (.take rfl) (prompt_go rfl rfl)
    |>.go rfl .changed (prompt_go rfl rfl)
  have hsecond := hchange.turn_done rfl 2
    |>.begin (.client proxy true) rfl rfl (prompt_begin rfl)
    |>.go rfl .enter (prompt_go rfl rfl)
    |>.go rfl (.lock rfl) (prompt_go rfl rfl)
    |>.go rfl (.resolve rfl) (prompt_go rfl rfl)
    |>.go rfl .dial (prompt_go rfl rfl)
    |>.go rfl .connected (prompt_go rfl rfl)
    |>.go rfl .opened (prompt_go rfl rfl)
  exact ⟨_, 7, 11, 12, 18, 16, 0, 6, 4, hsecond.reach, rfl, by decide, rfl, by decide, rfl,
    old_transports_not_used (fun _ => 0) (c := 1) (q := 2) hsecond.reach (fun _ => rfl) rfl rfl
      (by decide)⟩

/-- The network changes while a client is dialed: its slot is left out, and the next request
gets that client. -/
theorem dialed_client_reused :
    ∃ (t : System Shared Local Result) (began ended start returned since : Nat),
      Reaches (component fun _ => 0) (fun _ _ => True) startSystem t ∧
      t.calls 1 = .done began ended .changed ∧
      t.calls 2 = .done start returned (.stream (.hysteria2 proxy) since) ∧ ended < start ∧
      since < began := by
  have hstart : Going (component fun _ => 0) (fun _ _ => True) startSystem 0 startSystem :=
    .refl startSystem_quiescent
  -- a client is dialed
  have hdial := hstart
    |>.begin (.client proxy true) rfl rfl trivial
    |>.go rfl .enter trivial
    |>.go rfl (.lock rfl) trivial
    |>.go rfl (.resolve rfl) trivial
    |>.go rfl .dial trivial
  -- the network changes
  have hchange := hdial.turn rfl (fun _ => id) 1
    |>.begin .change rfl trivial trivial
    |>.go rfl .reset trivial
    |>.go rfl .list trivial
    |>.go rfl (.skip (some_ne_none 0)) trivial
    |>.go rfl .changed trivial
  -- the dial succeeds, and the client is there for the next request
  have hreuse := hchange.turn_done rfl 0
    |>.go rfl .connected trivial
    |>.go rfl .opened trivial
    |>.turn_done rfl 2
    |>.begin (.client proxy true) rfl rfl trivial
    |>.go rfl .enter trivial
    |>.go rfl (.lock rfl) trivial
    |>.go rfl (.reuse rfl) trivial
    |>.go rfl .opened trivial
  exact ⟨_, 5, 9, 12, 16, 4, hreuse.reach, rfl, rfl, by decide, by decide⟩

end

end Clyntis.Core.Transports
