import Clyntis.Protocol.Xudp

/-!
# Session ids

`session()` takes the first value of its counter that has no route. A route can go before
its session does: the peer's END removes it, and the drop of a session removes it before
END is written. Once the counter has gone round, such an id is handed out again.

- `Mux.idOf`, `Pc.closes`: the ids of the live sessions, and the ids for which END may
  still be written;
- `IdEffect`: what a step can do to ids, routes and pending ENDs, said once;
- `Mux.RoutesLive`, `Mux.CallsLive`, `Mux.GuardLive`: what holds in every run;
- `Mux.Separate`: no two live sessions share an id, and what follows from it;
- `Mux.Spare`: every id that is spoken for but has no route comes after a free one in the
  order of the counter.

`separate_iff` says that a step keeps sessions apart exactly when a `session()` call that
returns in it finds the ids spare, and that all runs of such steps do.
-/

namespace Clyntis.Protocol.Xudp

open Lib Lib.Framed Function Option Table AList

variable {s s' : Mux} {id : UInt16} {routes : Table UInt16 Route}

/-! ## The search for an id -/

/-- The search returns the first id without a route, in the order of the counter. -/
theorem findId_eq_some {tries : Nat} {next after : UInt16}
    (h : findId routes tries next = (some id, after)) :
    ∃ k < tries, id = next + UInt16.ofNat k ∧ routes.lookup id = none ∧
      ∀ j < k, (routes.lookup (next + UInt16.ofNat j)).isSome := by
  induction tries generalizing next with
  | zero => cases h
  | succ tries ih =>
    rw [findId] at h
    by_cases hnext : (routes.lookup next).isSome
    · rw [if_pos hnext] at h
      obtain ⟨k, hk, hid, hfree, hbefore⟩ := ih h
      have shift : ∀ j : Nat, next + 1 + UInt16.ofNat j = next + UInt16.ofNat (j + 1) := by
        intro j
        rw [UInt16.ofNat_add, UInt16.add_comm (UInt16.ofNat j), ← UInt16.add_assoc]
        rfl
      refine ⟨k + 1, by omega, by rw [hid, shift], hfree, ?_⟩
      intro j hj
      cases j with
      | zero =>
        show (routes.lookup (next + 0)).isSome
        rwa [UInt16.add_zero]
      | succ j =>
        rw [← shift]
        exact hbefore j (by omega)
    · rw [if_neg hnext] at h
      obtain ⟨rfl, -⟩ : next = id ∧ _ := by simpa using h
      refine ⟨0, by omega, (UInt16.add_zero _).symm, by simpa using hnext, ?_⟩
      intro j hj
      omega

/-- How far an id is from the counter. -/
theorem add_ofNat_sub_toNat (next : UInt16) {k : Nat} (hk : k < 65536) :
    (next + UInt16.ofNat k - next).toNat = k := by
  rw [UInt16.add_comm, UInt16.add_sub_cancel]
  exact UInt16.toNat_ofNat_of_lt' hk

theorem add_ofNat_toNat_sub (next id : UInt16) :
    next + UInt16.ofNat (id - next).toNat = id := by
  rw [UInt16.ofNat_toNat, UInt16.add_comm, UInt16.sub_add_cancel]

/-! ## Ids, routes and pending ENDs -/

/-- The id of a live session. -/
def Mux.idOf (s : Mux) (c : Nat) : Option UInt16 := (s.sessions c).map (·.id)

/-- The id for which this call or task may still write END. -/
def Pc.closes : Pc → Option UInt16
  | dropping id .checking | dropping id .spawning | dropping id .counting => some id
  | ending id .waiting | ending id .writing => some id
  | _ => none

variable {c n : Nat} {m : MuxSession} {payload : Bytes} {target : Target}

theorem Mux.idOf_eq (h : s.sessions c = some m) : s.idOf c = some m.id := by
  rw [Mux.idOf, h]
  rfl

theorem Mux.idOf_eq_some : s.idOf c = some id ↔ ∃ m, s.sessions c = some m ∧ m.id = id := by
  rw [Mux.idOf, map_eq_some_iff]

/-- What a step can do to the ids: nothing but drop routes and pending ENDs; give a
session an id; or end a session, whose id may then wait for its END. -/
inductive IdEffect (s s' : Mux) : Prop
  | same : s'.idOf = s.idOf →
      (∀ id r, s'.routes.lookup id = some r → s.routes.lookup id = some r) →
      (∀ n id, (s'.pcs n).closes = some id → (s.pcs n).closes = some id) → IdEffect s s'
  | opens (n : Nat) (id : UInt16) (target : Target) : SessionStep n s s' →
      s'.pcs n = .returned .opened → s.pcs n ≠ .returned .opened →
      (∃ next, findId s.routes 65536 s.nextId = (some id, next)) →
      s'.idOf = update s.idOf n (some id) →
      s'.routes = s.routes.insert id ⟨target, n⟩ →
      (∀ k o, (s'.pcs k).closes = some o → (s.pcs k).closes = some o) → IdEffect s s'
  | drops (c : Nat) (id : UInt16) : s.idOf c = some id →
      s'.idOf = update s.idOf c none → s'.routes = s.routes.erase id →
      (∀ k, ¬ (s.pcs k).Uses c) →
      (∀ k o, (s'.pcs k).closes = some o → (s.pcs k).closes = some o ∨ o = id) → IdEffect s s'

/-- Changing one session changes its id and no other. -/
theorem Mux.idOf_set {m : Option MuxSession} {o : Option UInt16}
    (hs : s'.sessions = update s.sessions c m) (ho : m.map (·.id) = o) :
    s'.idOf = update s.idOf c o := by
  subst ho
  show Option.map (·.id) ∘ s'.sessions = _
  rw [hs, Function.comp_update]
  rfl

theorem Mux.idOf_update {m' : MuxSession} (h : s.sessions c = some m)
    (hs : s'.sessions = update s.sessions c (some m')) (hid : m'.id = m.id) :
    s'.idOf = s.idOf := by
  rw [Mux.idOf_set hs rfl, map_some, hid, ← Mux.idOf_eq h, update_eq_self]

/-- A call that goes on without a new id to close leaves the pending ENDs. -/
theorem closes_update {pc : Pc} (h : ∀ o, pc.closes = some o → (s.pcs n).closes = some o) (k : Nat)
    (o : UInt16) (hk : (update s.pcs n pc k).closes = some o) :
    (s.pcs k).closes = some o := by
  by_cases hkn : k = n
  · subst hkn
    rw [update_self] at hk
    exact h o hk
  · rwa [update_of_ne hkn] at hk

/-- A call that changes no id and no route, and has none to close. -/
theorem IdEffect.of_call {pc : Pc} (hid : s'.idOf = s.idOf) (hroutes : s'.routes = s.routes)
    (hpcs : s'.pcs = update s.pcs n pc) (hcloses : pc.closes = none) : IdEffect s s' := by
  refine .same hid (fun _ _ h => hroutes ▸ h) ?_
  rw [hpcs]
  exact closes_update fun _ h => nomatch hcloses.symm.trans h

theorem SessionStep.idEffect (hs : SessionStep n s s') : IdEffect s s' := by
  cases hs with
  | @reserve target globalId id next hpc hfind =>
    refine .opens n id target (.reserve hpc hfind) (update_self _ _ _) ?_
      ⟨next, hfind⟩ (Mux.idOf_set rfl rfl) rfl (closes_update fun _ h => nomatch h)
    rw [hpc]
    exact nofun
  | _ => exact .of_call rfl rfl rfl rfl

theorem SendStep.idEffect (hs : SendStep n s s') : IdEffect s s' := by
  cases hs with
  | call | refused | passed | enter | cancelLocking => exact .of_call rfl rfl rfl rfl
  | lock _ hm | unprepared _ hm | prepared _ hm | closed _ hm | commit _ hm | release _ hm
  | cancelWaiting _ hm => exact .of_call (Mux.idOf_update hm rfl rfl) rfl rfl rfl

theorem RecvStep.idEffect (hs : RecvStep n s s') : IdEffect s s' := by
  cases hs with
  | call | cancelLocking => exact .of_call rfl rfl rfl rfl
  | lock _ hm | packet _ hm | closed _ hm | cancelReceiving _ hm =>
    exact .of_call (Mux.idOf_update hm rfl rfl) rfl rfl rfl

theorem EndStep.idEffect (hs : EndStep n s s') : IdEffect s s' := by
  cases hs with
  | enter hpc =>
    refine .same rfl (fun _ _ h => h) (closes_update fun o h => ?_)
    rw [hpc]
    exact h
  | _ => exact .of_call rfl rfl rfl rfl

theorem DropStep.idEffect (hs : DropStep n s s') : IdEffect s s' := by
  cases hs with
  | @remove c m hpc hm hunused hlock =>
    refine .drops c m.id (Mux.idOf_eq hm) (Mux.idOf_set rfl rfl) rfl hunused ?_
    intro k o hk
    change (update s.pcs n _ k).closes = some o at hk
    by_cases hkn : k = n
    · rw [hkn, update_self] at hk
      split at hk
      · exact .inr (Option.some.inj hk).symm
      · cases hk
    · rw [update_of_ne hkn] at hk
      exact .inl hk
  | passed hpc | runtime hpc =>
    refine .same rfl (fun _ _ h => h) (closes_update fun o h => ?_)
    rw [hpc]
    exact h
  | count hpc =>
    refine .same rfl (fun _ _ h => h) (closes_update fun o h => ?_)
    rw [hpc]
    split at h
    · cases h
    · exact h
  | _ => exact .of_call rfl rfl rfl rfl

theorem ReaderStep.idEffect (hs : ReaderStep s s') : IdEffect s s' := by
  cases hs with
  | pick hr hl =>
    refine .same rfl (fun id r h => ?_) (fun _ _ h => h)
    split at h
    · exact (lookup_erase_iff.mp h).2
    · exact h
  | _ => exact .same rfl (fun _ _ h => h) (fun _ _ h => h)

theorem FailStep.idEffect {t : Tid} (hs : FailStep t s s') : IdEffect s s' := by
  cases hs with
  | take => exact .same rfl (fun _ _ h => nomatch h) (fun _ _ h => h)
  | _ => exact .same rfl (fun _ _ h => h) (fun _ _ h => h)

/-- Every step has one of the three effects. -/
theorem Step.idEffect (hs : Step s s') : IdEffect s s' := by
  cases hs with
  | session h | send h | ending h | recv h | dropping h | reader h | fail h => exact h.idEffect
  | writing h | owner h => cases h <;> exact .same rfl (fun _ _ h => h) (fun _ _ h => h)

/-! ## What holds in every run -/

/-- A live session is the one its `session()` call returned. -/
theorem Reachable.opened (h : Reachable s) :
    ∀ c id, s.idOf c = some id → s.pcs c = .returned .opened := by
  induction h using Reachable.induction with
  | new => exact fun _ _ hc => nomatch hc
  | step s s' hr hs ih =>
    intro c id hc
    cases hs.idEffect with
    | same hid _ _ =>
      rw [hid] at hc
      exact hs.returned (ih c id hc)
    | opens n o target _ hpc _ _ hid _ _ =>
      rw [hid, update_some_eq_some] at hc
      rcases hc with ⟨rfl, -⟩ | ⟨-, hold⟩
      · exact hpc
      · exact hs.returned (ih c id hold)
    | drops d o _ hid _ _ _ =>
      rw [hid, update_none_eq_some] at hc
      exact hs.returned (ih c id hc.2)

/-- The call that takes an id in this step has no session yet. -/
theorem Reachable.idOf_none (h : Reachable s) (hn : s.pcs n ≠ .returned .opened) :
    s.idOf n = none := by
  rw [eq_none_iff_forall_not_mem]
  intro id hid
  exact hn (h.opened n id hid)

/-- Every route leads to a live session with that id. -/
def Mux.RoutesLive (s : Mux) : Prop :=
  ∀ id r, s.routes.lookup id = some r → s.idOf r.sender = some id

theorem Reachable.routesLive (h : Reachable s) : s.RoutesLive := by
  induction h using Reachable.induction with
  | new => exact fun _ _ hlook => nomatch hlook
  | step s s' hr hs ih =>
    intro id r hlook
    cases hs.idEffect with
    | same hid hroutes _ =>
      rw [hid]
      exact ih id r (hroutes id r hlook)
    | opens n o target _ _ hpc _ hid hroutes _ =>
      rw [hroutes, lookup_insert_iff] at hlook
      rw [hid]
      rcases hlook with ⟨rfl, rfl⟩ | ⟨-, hold⟩
      · exact update_self _ _ _
      · have hlive := ih id r hold
        rw [update_of_ne]
        · exact hlive
        · rintro rfl
          rw [hr.idOf_none hpc] at hlive
          cases hlive
    | drops d o hd hid hroutes _ _ =>
      rw [hroutes, lookup_erase_iff] at hlook
      have hlive := ih id r hlook.2
      rw [hid, update_of_ne]
      · exact hlive
      · rintro rfl
        exact hlook.1 (Option.some.inj (hlive.symm.trans hd))

theorem routesLive_opened : ∃ s : Mux, Reachable s ∧ 0 ∈ s.routes ∧ s.RoutesLive := by
  have h : Reachable _ := runs_open (n := 0) ⟨[], 0⟩ none rfl rfl rfl rfl rfl
  exact ⟨_, h, (mem_insert _).mpr (.inl rfl), h.routesLive⟩

/-- The session a call borrows stays, with its id. -/
theorem Step.idOf_of_uses (hs : Step s s') (hr : Reachable s) (hu : (s.pcs n).Uses c)
    (hc : s.idOf c = some id) : s'.idOf c = some id := by
  cases hs.idEffect with
  | same hid _ _ => rwa [hid]
  | opens k o target _ _ hpc _ hid _ _ =>
    rw [hid, update_of_ne]
    · exact hc
    · rintro rfl
      rw [hr.idOf_none hpc] at hc
      cases hc
  | drops d o hd hid _ hunused _ =>
    rw [hid, update_of_ne]
    · exact hc
    · rintro rfl
      exact hunused n hu

theorem Job.make_message {message : Message} {job : Job} (h : Job.make message = .ok job) :
    job.message = message := by
  unfold Job.make at h
  split at h <;> cases h
  rfl

theorem prepareSend_message {job : Job} (h : prepareSend m target payload = .ok job) :
    job.message = .packet m.id target payload m.send.first m.globalId := by
  unfold prepareSend at h
  split at h
  · cases h
  · exact Job.make_message h

/-- Where a `send` can come from: its session is live and the frame is made from it, or the
call was already under way with the same frame. -/
theorem Step.send_pc (hs : Step s s') {point : SendPoint}
    (h : s'.pcs n = .send c target payload point) :
    (∃ m, s.sessions c = some m ∧ s'.idOf c = some m.id ∧
      ∀ job, point = .waiting job → prepareSend m target payload = .ok job) ∨
    ∃ before, s.pcs n = .send c target payload before ∧
      ∀ job, point = .waiting job → before = .waiting job := by
  rcases hs.call n with hsame | hown
  · exact .inr ⟨point, hsame ▸ h, fun _ => id⟩
  · cases hown.to_send (by rw [h]; rfl) with
    | call _ _ hpc hm =>
      cases Mux.pc_of_update rfl h
      exact .inl ⟨_, hm, Mux.idOf_eq (s := Mux.goto _ _ _) hm, nofun⟩
    | passed hpc | lock hpc | enter hpc =>
      cases Mux.pc_of_update rfl h
      exact .inr ⟨_, hpc, nofun⟩
    | prepared hpc hm hjob =>
      cases Mux.pc_of_update rfl h
      refine .inl ⟨_, hm, ?_, ?_⟩
      · refine (congrFun ?_ c).trans (Mux.idOf_eq hm)
        exact Mux.idOf_update hm rfl rfl
      · rintro _ ⟨⟩
        exact hjob
    | _ => exact absurd (Mux.pc_of_update rfl h) nofun

/-- The session of every `send` is live, and the frame it waits to write carries its id. -/
def Mux.CallsLive (s : Mux) : Prop :=
  ∀ n c target payload point, s.pcs n = .send c target payload point →
    ∃ id, s.idOf c = some id ∧ ∀ job, point = .waiting job →
      ∃ first globalId, job.message = .packet id target payload first globalId

theorem Reachable.callsLive (h : Reachable s) : s.CallsLive := by
  induction h using Reachable.induction with
  | new => exact fun _ _ _ _ _ hpc => nomatch hpc
  | step s s' hr hs ih =>
    intro n c target payload point hpc
    rcases hs.send_pc hpc with ⟨m, hm, hid, hjob⟩ | ⟨before, hbefore, hjob⟩
    · exact ⟨m.id, hid, fun job hpoint => ⟨_, _, prepareSend_message (hjob job hpoint)⟩⟩
    · obtain ⟨id, hid, hwait⟩ := ih n c target payload before hbefore
      have huses : (s.pcs n).Uses c := by
        rw [hbefore]
        rfl
      exact ⟨id, hs.idOf_of_uses hr huses hid, fun job hpoint => hwait job (hjob job hpoint)⟩

/-- Who holds the stream after a step: who held it before, a `send` that waited for it with
its frame, or an END task. -/
theorem Step.guard (hs : Step s s') {g' : Guard Turn UInt8} (h : s'.writer.guard = some g') :
    (∃ g, s.writer.guard = some g ∧ g.owner = g'.owner) ∨
    (∃ c target payload, s.pcs g'.owner.call = .send c target payload (.waiting g'.owner.job) ∧
      s'.pcs g'.owner.call = .send c target payload .writing) ∨
    ∃ id, s'.pcs g'.owner.call = .ending id .writing ∧ g'.owner.job = .close id := by
  cases hs with
  | session hs | recv hs | dropping hs | reader hs | fail hs | owner hs =>
    cases hs <;> exact .inl ⟨g', h, rfl⟩
  | send hs =>
    cases hs with
    | enter hpc hg =>
      cases h
      exact .inr (.inl ⟨_, _, _, hpc, update_self _ _ _⟩)
    | closed | commit | release => cases h
    | _ => exact .inl ⟨g', h, rfl⟩
  | writing hs =>
    cases hs with
    | arm hg | write hg | flush hg | tear hg =>
      cases h
      exact .inl ⟨_, hg, rfl⟩
  | ending hs =>
    cases hs with
    | enter hpc hg =>
      cases h
      exact .inr (.inr ⟨_, update_self _ _ _, rfl⟩)
    | closed | commit | release => cases h
    | _ => exact .inl ⟨g', h, rfl⟩

/-- What is being written is END, by the task for that id, or the packet of a `send` on a
live session with that id. -/
def Mux.GuardLive (s : Mux) : Prop :=
  ∀ g, s.writer.guard = some g →
    (∃ id, s.pcs g.owner.call = .ending id .writing ∧ g.owner.job.message = .close id) ∨
    ∃ c target payload id first globalId, s.pcs g.owner.call = .send c target payload .writing ∧
      g.owner.job.message = .packet id target payload first globalId ∧ s.idOf c = some id

theorem Reachable.guardLive (h : Reachable s) : s.GuardLive := by
  induction h using Reachable.induction with
  | new => exact fun _ hg => nomatch hg
  | step s s' hr hs ih =>
    intro g' hg'
    have held : s'.writer.guard ≠ none := by simp [hg']
    rcases hs.guard hg' with ⟨g, hg, howner⟩ | ⟨c, target, payload, hpc, hpc'⟩ | ⟨id, hpc', hjob⟩
    · rw [← howner]
      rcases ih g hg with ⟨id, hpc, hm⟩ | ⟨c, target, payload, id, first, gid, hpc, hm, hid⟩
      · refine .inl ⟨id, ?_, hm⟩
        rw [hs.writing_pc (by rw [hpc]; trivial) held, hpc]
      · refine .inr ⟨c, target, payload, id, first, gid, ?_, hm, ?_⟩
        · rw [hs.writing_pc (by rw [hpc]; trivial) held, hpc]
        · exact hs.idOf_of_uses hr (n := g.owner.call) (by rw [hpc]; rfl) hid
    · obtain ⟨id, hid, hwait⟩ := hr.callsLive _ _ _ _ _ hpc
      obtain ⟨first, gid, hm⟩ := hwait _ rfl
      refine .inr ⟨c, target, payload, id, first, gid, hpc', hm, ?_⟩
      exact hs.idOf_of_uses hr (n := g'.owner.call) (by rw [hpc]; rfl) hid
    · exact .inl ⟨id, hpc', by rw [hjob]; rfl⟩

/-! ## Sessions kept apart -/

/-- No two live sessions share an id. So dropping one leaves the routes of all others, END
is neither written nor pending for the id of a live session, and what a `send` writes
carries the id of its own session only. -/
structure Mux.Separate (s : Mux) : Prop where
  ids : ∀ c c' id, s.idOf c = some id → s.idOf c' = some id → c = c'
  drops : ∀ n s' c id, DropStep n s s' → s'.idOf c = some id →
    s'.routes.lookup id = s.routes.lookup id
  pending : ∀ n c id, (s.pcs n).closes = some id → s.idOf c ≠ some id
  ends : ∀ g c id, s.writer.guard = some g → g.owner.job.message = .close id →
    s.idOf c ≠ some id
  sends : ∀ g id target payload first globalId, s.writer.guard = some g →
    g.owner.job.message = .packet id target payload first globalId →
    ∃ c, s.pcs g.owner.call = .send c target payload .writing ∧
      ∀ c', s.idOf c' = some id ↔ c' = c

/-- An id is spoken for: a live session has it, or END may still be written for it. -/
def Mux.Spoken (s : Mux) (id : UInt16) : Prop :=
  (∃ c, s.idOf c = some id) ∨ ∃ n, (s.pcs n).closes = some id

/-- Every id that is spoken for and has no route comes after an id without a route, in the
order of the counter. -/
def Mux.Spare (s : Mux) : Prop :=
  ∀ id, s.Spoken id → s.routes.lookup id = none →
    ∃ k < (id - s.nextId).toNat, s.routes.lookup (s.nextId + UInt16.ofNat k) = none

/-- With different ids, and no END pending for one of them, the sessions are apart. -/
theorem Reachable.separate (h : Reachable s)
    (ids : ∀ c c' id, s.idOf c = some id → s.idOf c' = some id → c = c')
    (pending : ∀ n c id, (s.pcs n).closes = some id → s.idOf c ≠ some id) : s.Separate where
  ids := ids
  pending := pending
  drops := by
    intro n s' c id hs hc
    cases hs with
    | @remove d m hpc hm hunused hlock =>
      rw [Mux.idOf_set (c := d) rfl rfl] at hc
      obtain ⟨hcd, hold⟩ := update_none_eq_some.mp hc
      refine lookup_erase_ne ?_
      rintro rfl
      exact hcd (ids c d _ hold (Mux.idOf_eq hm))
    | _ => rfl
  ends := by
    intro g c id hg hm
    rcases h.guardLive g hg with ⟨o, hpc, hm'⟩ | ⟨_, _, _, _, _, _, _, hm', _⟩
    · obtain rfl : o = id := Message.close.inj (hm'.symm.trans hm)
      exact pending g.owner.call c o (by rw [hpc]; rfl)
    · exact absurd (hm'.symm.trans hm) nofun
  sends := by
    intro g id target payload first gid hg hm
    rcases h.guardLive g hg with ⟨o, hpc, hm'⟩ | ⟨c, _, _, o, _, _, hpc, hm', hid⟩
    · exact absurd (hm'.symm.trans hm) nofun
    · obtain ⟨rfl, rfl, rfl, -, -⟩ := Message.packet.inj (hm'.symm.trans hm)
      refine ⟨c, hpc, fun c' => ⟨fun hc' => ids c' c o hc' hid, ?_⟩⟩
      rintro rfl
      exact hid

/-- The ids are spare exactly when nobody speaks for the one the search returns. -/
theorem Mux.spare_iff (hfind : ∃ next, findId s.routes 65536 s.nextId = (some id, next)) :
    s.Spare ↔ ¬ s.Spoken id := by
  obtain ⟨next, hfind⟩ := hfind
  obtain ⟨k, hk, rfl, hfree, hbefore⟩ := findId_eq_some hfind
  constructor
  · intro hspare hspoken
    obtain ⟨j, hj, hjfree⟩ := hspare _ hspoken hfree
    rw [add_ofNat_sub_toNat _ hk] at hj
    simpa [hjfree] using hbefore j hj
  · intro hnot o ho hofree
    refine ⟨k, ?_, hfree⟩
    -- `o` is not before the first id without a route, and it is not that id.
    have hne : k ≠ (o - s.nextId).toNat := by
      rintro rfl
      rw [add_ofNat_toNat_sub] at hnot
      exact hnot ho
    have hle : ¬ (o - s.nextId).toNat < k := by
      intro hlt
      have hrouted := hbefore _ hlt
      rw [add_ofNat_toNat_sub, hofree] at hrouted
      cases hrouted
    omega

/-- A `session()` call that returns in this step finds the ids spare. -/
def SpareIfOpens (s s' : Mux) : Prop :=
  ∀ n, SessionStep n s s' → s'.pcs n = .returned .opened → s.Spare

/-- A `session()` step that returns a session took an id. -/
theorem SessionStep.opens (hs : SessionStep n s s') (hret : s'.pcs n = .returned .opened) : ∃ id,
      (∃ next, findId s.routes 65536 s.nextId = (some id, next)) ∧
      (∃ target globalId, s.pcs n = .session target globalId .reserving) ∧
      s'.idOf = update s.idOf n (some id) ∧ ∀ k, k ≠ n → s'.pcs k = s.pcs k := by
  cases hs with
  | reserve hpc hfind =>
    refine ⟨_, ⟨_, hfind⟩, ⟨_, _, hpc⟩, Mux.idOf_set rfl rfl, ?_⟩
    intro k hk
    exact update_of_ne hk _ _
  | _ => exact absurd (Mux.pc_of_update rfl hret) nofun

/-- A step that finds the ids spare, if it has to, keeps the sessions apart. -/
theorem Mux.Separate.step (h : s.Separate) (hr : Reachable s) (hs : Step s s')
    (hspare : SpareIfOpens s s') : s'.Separate := by
  refine (hr.step hs).separate ?_ ?_
  · intro c c' o hc hc'
    cases hs.idEffect with
    | same hid _ _ =>
      rw [hid] at hc hc'
      exact h.ids c c' o hc hc'
    | opens n id target hstep hpc hnew hfind hid _ _ =>
      have hnot := (Mux.spare_iff hfind).mp (hspare n hstep hpc)
      rw [hid, update_some_eq_some] at hc hc'
      -- A session that already had the new id would have spoken for it.
      rcases hc with ⟨rfl, rfl⟩ | ⟨-, hold⟩
      · rcases hc' with ⟨rfl, -⟩ | ⟨-, hold'⟩
        · rfl
        · exact absurd (.inl ⟨c', hold'⟩) hnot
      · rcases hc' with ⟨rfl, rfl⟩ | ⟨-, hold'⟩
        · exact absurd (.inl ⟨c, hold⟩) hnot
        · exact h.ids c c' o hold hold'
    | drops d id hd hid _ _ _ =>
      rw [hid, update_none_eq_some] at hc hc'
      exact h.ids c c' o hc.2 hc'.2
  · intro n c o hn hc
    cases hs.idEffect with
    | same hid _ hcloses =>
      rw [hid] at hc
      exact h.pending n c o (hcloses n o hn) hc
    | opens k id target hstep hpc hnew hfind hid _ hcloses =>
      have hnot := (Mux.spare_iff hfind).mp (hspare k hstep hpc)
      rw [hid, update_some_eq_some] at hc
      rcases hc with ⟨-, rfl⟩ | ⟨-, hold⟩
      · exact hnot (.inr ⟨n, hcloses n id hn⟩)
      · exact h.pending n c o (hcloses n o hn) hold
    | drops d id hd hid _ _ hcloses =>
      rw [hid, update_none_eq_some] at hc
      obtain ⟨hcd, hold⟩ := hc
      rcases hcloses n o hn with hpending | rfl
      · exact h.pending n c o hpending hold
      · exact hcd (h.ids c d _ hold hd)

/-- If the sessions are still apart after a step, a `session()` call that returned in it
found the ids spare. -/
theorem Mux.Separate.spare (h : s'.Separate) (hr : Reachable s) : SpareIfOpens s s' := by
  intro n hstep hret
  obtain ⟨id, hfind, ⟨target, globalId, hpc⟩, hid, hpcs⟩ := hstep.opens hret
  have hnone : s.idOf n = none := hr.idOf_none (by rw [hpc]; exact nofun)
  have hn : s'.idOf n = some id := by rw [hid, update_self]
  refine (Mux.spare_iff hfind).mpr ?_
  rintro (⟨c, hc⟩ | ⟨k, hk⟩)
  · have hcn : c ≠ n := by
      rintro rfl
      rw [hnone] at hc
      cases hc
    exact hcn (h.ids c n id (by rw [hid, update_of_ne hcn, hc]) hn)
  · have hkn : k ≠ n := by
      rintro rfl
      rw [hpc] at hk
      cases hk
    exact h.pending k n id (by rw [hpcs k hkn, hk]) hn

/-- A step in which a `session()` call that returns finds the ids spare. -/
def CarefulStep (s s' : Mux) : Prop := Step s s' ∧ SpareIfOpens s s'

/-- **Session identity.** In every state a run of careful steps reaches, no two live
sessions share an id, with all that follows; and the next step keeps it so exactly when it
is careful too. -/
theorem separate_iff (h : Relation.ReflTransGen CarefulStep .new s) :
    s.Separate ∧ ∀ s', Step s s' → (s'.Separate ↔ SpareIfOpens s s') := by
  have hboth : Reachable s ∧ s.Separate := by
    induction h with
    | refl =>
      refine ⟨.refl, Reachable.separate .refl ?_ ?_⟩
      · intro c c' id hc _
        cases hc
      · intro n c id hn _
        cases hn
    | tail _ hs ih => exact ⟨ih.1.step hs.1, ih.2.step ih.1 hs.1 hs.2⟩
  obtain ⟨hr, hsep⟩ := hboth
  exact ⟨hsep, fun s' hs => ⟨fun h' => h'.spare hr, hsep.step hr hs⟩⟩

/-- Some target; nothing depends on it. -/
def anyTarget : Target := ⟨"1.2.3.4".toList, 53⟩

/-- Two sessions on a new multiplexer: each gets an id that nobody speaks for. -/
theorem separate_opened : ∃ s, Relation.ReflTransGen CarefulStep .new s ∧ s.idOf 0 = some 0 ∧
    s.idOf 1 = some 1 ∧ s.Separate := by
  -- A step is careful if after it every session has its own number as id and no END waits.
  have careful : ∀ {x x' : Mux}, Relation.ReflTransGen CarefulStep .new x → Step x x' →
      (∀ c id, x'.idOf c = some id → c = id.toNat) → (∀ n o, (x'.pcs n).closes ≠ some o) →
      Relation.ReflTransGen CarefulStep .new x' := by
    intro x x' h hs hids hcloses
    have hr : Reachable x :=
      Relation.ReflTransGen.mono (r := CarefulStep) (fun _ _ => And.left) _ _ h
    have hsep : x'.Separate := (hr.step hs).separate
      (fun c c' id hc hc' => (hids c id hc).trans (hids c' id hc').symm)
      fun n _ id hn => absurd hn (hcloses n id)
    exact h.tail ⟨hs, hsep.spare hr⟩
  obtain ⟨s, h, hids⟩ : ∃ s, Relation.ReflTransGen CarefulStep .new s ∧
      s.idOf 0 = some 0 ∧ s.idOf 1 = some 1 := by
    have h0 := careful .refl (.session (.call (n := 0) anyTarget none rfl rfl)) ?_ ?_
    have h1 := careful h0 (.session (.passed (n := 0) rfl rfl)) ?_ ?_
    have h2 := careful h1 (.session (.lock (n := 0) rfl rfl)) ?_ ?_
    have h3 := careful h2 (.session (.passedAgain (n := 0) rfl rfl)) ?_ ?_
    have h4 := careful h3 (.session (.reserve (n := 0) rfl (findId_of_free 65535 rfl))) ?_ ?_
    have h5 := careful h4 (.session (.call (n := 1) anyTarget none rfl rfl)) ?_ ?_
    have h6 := careful h5 (.session (.passed (n := 1) rfl rfl)) ?_ ?_
    have h7 := careful h6 (.session (.lock (n := 1) rfl rfl)) ?_ ?_
    have h8 := careful h7 (.session (.passedAgain (n := 1) rfl rfl)) ?_ ?_
    have h9 := careful h8 (.session (.reserve (n := 1) rfl (findId_of_free 65535 rfl))) ?_ ?_
    · exact ⟨_, h9, rfl, rfl⟩
    all_goals
      rintro (_ | _ | k) _ h
      · cases h <;> rfl
      · cases h <;> rfl
      · cases h
  exact ⟨s, h, hids.1, hids.2, (separate_iff h).1⟩

/-! ## An id handed out twice -/

/-- A session with a route, dropped outside the runtime: the route goes, no END is written. -/
theorem runs_drop (hpc : s.pcs n = .idle) (hm : s.sessions c = some m)
    (hunused : ∀ k, ¬ (s.pcs k).Uses c) (hl : s.routesLock = none)
    (hroute : (s.routes.lookup m.id).isSome) (ha : s.alive = true) :
    Runs s ({ s with
      routes := s.routes.erase m.id
      sessions := update s.sessions c none }.goto n (.returned .dropped)) := by
  have h1 : Runs s ({ s with
      routes := s.routes.erase m.id
      sessions := update s.sessions c none }.goto n (.dropping m.id .checking)) := by
    have h := Relation.ReflTransGen.single (Step.dropping (.remove hpc hm hunused hl))
    rwa [if_pos hroute] at h
  have h2 := h1.tail (.dropping (.passed (Mux.goto_pcs_self _ n _) ha))
  rw [Mux.goto_goto] at h2
  have h3 := h2.tail (.dropping (.noRuntime (Mux.goto_pcs_self _ n _)))
  rwa [Mux.goto_goto] at h3

/-- The first session lives, its route was removed by the peer's END, and `k` further
sessions came and went. -/
structure Mux.Round (k : Nat) (s : Mux) : Prop where
  reachable : Reachable s
  alive : s.alive = true
  dropped : s.dropped = false
  lock : s.routesLock = none
  routes : ∀ id, s.routes.lookup id = none
  nextId : s.nextId = UInt16.ofNat (k + 1)
  first : s.idOf 0 = some 0
  idle : ∀ n, 2 * k < n → s.pcs n = .idle
  unused : ∀ n c, ¬ (s.pcs n).Uses c

theorem lookup_erase_insert (h : ∀ id, routes.lookup id = none)
    (o : UInt16) (r : Route) (id : UInt16) :
    AList.lookup id (AList.erase o (AList.insert o r routes)) = none := by
  refine eq_none_iff_forall_ne_some.mpr fun v hv => ?_
  obtain ⟨hne, hv⟩ := lookup_erase_iff.mp hv
  rcases lookup_insert_iff.mp hv with ⟨heq, -⟩ | ⟨-, hold⟩
  · exact hne heq
  · rw [h id] at hold
    cases hold

theorem not_uses_update {pcs : Nat → Pc} (h : ∀ n c, ¬ (pcs n).Uses c) (k : Nat) (o : Outcome)
    (n c : Nat) : ¬ (update pcs k (.returned o) n).Uses c := by
  by_cases hn : n = k
  · rw [hn, update_self]
    exact id
  · rw [update_of_ne hn]
    exact h n c

theorem exists_round_zero : ∃ s, Mux.Round 0 s := by
  have h0 : Reachable (Mux.new.opened 0 anyTarget none 0) := runs_open _ _ rfl rfl rfl rfl rfl
  have h1 := h0.step (.reader (.frame ⟨0, .close, false, none⟩ none rfl rfl))
  have h2 := h1.step (.reader (.pick rfl rfl))
  have h3 := h2.step (.reader (.deliver rfl rfl))
  refine ⟨_, h3, rfl, rfl, rfl, ?_, rfl, rfl, ?_, ?_⟩
  · exact lookup_erase_insert (fun _ => rfl) 0 ⟨anyTarget, 0⟩
  · intro n hn
    exact update_of_ne (by omega) _ _
  · exact not_uses_update (fun _ _ => id) 0 .opened

/-- One more session comes and goes. -/
theorem Mux.Round.next {k : Nat} (h : s.Round k) : ∃ s', Mux.Round (k + 1) s' := by
  have hopen : Runs s (s.opened (2 * k + 1) anyTarget none s.nextId) :=
    runs_open _ _ (h.idle _ (by omega)) h.dropped h.alive h.lock (h.routes _)
  have unused : ∀ n c, ¬ ((s.opened (2 * k + 1) anyTarget none s.nextId).pcs n).Uses c :=
    not_uses_update h.unused _ _
  have hidle : ∀ n, 2 * k + 1 < n →
      (s.opened (2 * k + 1) anyTarget none s.nextId).pcs n = .idle := by
    intro n hn
    rw [Mux.opened_pcs, update_of_ne (by omega)]
    exact h.idle n (by omega)
  have hdrop := runs_drop (n := 2 * k + 2) (c := 2 * k + 1)
    (hidle _ (by omega)) (update_self _ _ _) (fun n => unused n _) rfl
    (by rw [Mux.opened_routes, lookup_insert]; rfl) h.alive
  refine ⟨_, (h.reachable.runs hopen).runs hdrop, h.alive, h.dropped, rfl, ?_, ?_, ?_, ?_,
    not_uses_update unused _ _⟩
  · exact lookup_erase_insert h.routes s.nextId ⟨anyTarget, 2 * k + 1⟩
  · show s.nextId + 1 = _
    rw [h.nextId, UInt16.ofNat_add (k + 1) 1]
    rfl
  · -- The first session is not the one that came and went.
    refine Eq.trans ?_ h.first
    rw [Mux.idOf, Mux.idOf, Mux.goto_sessions]
    dsimp only
    rw [Mux.opened_sessions, update_of_ne (by omega), update_of_ne (by omega)]
  · intro n hn
    rw [Mux.goto_pcs, update_of_ne (by omega)]
    exact hidle n (by omega)

theorem exists_round (k : Nat) : ∃ s, Mux.Round k s := by
  induction k with
  | zero => exact exists_round_zero
  | succ k ih => exact ih.elim fun _ h => h.next

/-- The peer ends the first session, whose owner keeps it; 65535 sessions come and go. The
next `session()` call gets the first one's id again, and dropping the first session then
removes the route of the new one, which lives. -/
theorem id_taken_twice : ∃ s s' c n r, Reachable s ∧ s.idOf 0 = some 0 ∧ c ≠ 0 ∧
    s.idOf c = some 0 ∧ s.routes.lookup 0 = some r ∧ r.sender = c ∧
    DropStep n s s' ∧ s'.idOf c = some 0 ∧ s'.routes.lookup 0 = none := by
  obtain ⟨s, h⟩ := exists_round 65535
  have hnext : s.nextId = 0 := h.nextId
  have hopen := runs_open (n := 131071) anyTarget none (h.idle _ (by omega)) h.dropped h.alive
    h.lock (h.routes _)
  rw [hnext] at hopen
  obtain ⟨m, hm, hid⟩ := Mux.idOf_eq_some.mp h.first
  have hold : (s.opened 131071 anyTarget none 0).sessions 0 = some m := by
    exact hm
  have hnew : (s.opened 131071 anyTarget none 0).sessions 131071 =
      some ⟨0, anyTarget, none, {}, none, none⟩ := by
    rw [Mux.opened_sessions, update_self]
  have hidle : (s.opened 131071 anyTarget none 0).pcs 131072 = .idle := by
    exact h.idle _ (by omega)
  have hunused : ∀ n, ¬ ((s.opened 131071 anyTarget none 0).pcs n).Uses 0 :=
    fun n => not_uses_update h.unused _ _ n 0
  refine ⟨_, _, 131071, 131072, ⟨anyTarget, 131071⟩, h.reachable.runs hopen, ?_, by omega,
    Mux.idOf_eq hnew, ?_, rfl, .remove hidle hold hunused rfl, ?_, ?_⟩
  · rw [Mux.idOf_eq hold, hid]
  · exact lookup_insert _
  · rfl
  · rw [hid]
    exact lookup_erase _ _

end Clyntis.Protocol.Xudp
