import Clyntis.Lib.Fair
import Clyntis.Protocol.XudpFrames
import Clyntis.Protocol.XudpIds

/-!
# Failure of the multiplexer

`fail_multiplexer` can run in several places at once. The call that clears `alive` empties
the route table; `session()` looks at `alive` under the table's lock, so no route comes
after that. A session without a route has no sender left once those that took the route
are done with it, and `recv` then ends in an error, whatever fitted into its queue.

- `Mux.Sealed`: no route, and no `session()` call that can still add one;
- `Mux.Removed`, `Step.hasSender`: a session whose route is gone gets no new sender;
- `FairTrace`: infinite runs in which started code goes on, a waiting `recv` whose message
  or end is there is woken, and the receiver's lock is handed on;
- `FairTrace.released`, `FairTrace.returns`: the senders go, and every `recv` returns.

`failure_total` puts these together.
-/

namespace Clyntis.Protocol.Xudp

open Lib Function Table

variable {s s' : Mux}

/-! ## The route table after a failure -/

/-- The call holds the lock of the route table. -/
def Pc.Locks : Pc → Prop
  | session _ _ .rechecking | session _ _ .reserving => True
  | _ => False

/-- A `session()` call between its lock and its return holds the route table's lock. -/
theorem Reachable.locks (h : Reachable s) : ∀ n, (s.pcs n).Locks → s.routesLock = some n := by
  induction h using Reachable.induction with
  | new => exact fun _ hn => hn.elim
  | step s s' hr hs ih =>
    intro n hn
    -- A call that moves to a point outside the lock is not `n`.
    have other : ∀ {k : Nat} {pc : Pc}, s'.pcs = update s.pcs k pc → ¬ pc.Locks →
        n ≠ k ∧ (s.pcs n).Locks := by
      intro k pc hpcs hpc
      rw [hpcs] at hn
      by_cases hk : n = k
      · rw [hk, update_self] at hn
        exact absurd hn hpc
      · rw [update_of_ne hk] at hn
        exact ⟨hk, hn⟩
    -- Two calls cannot both be between lock and return.
    have sole : ∀ {k : Nat} {pc : Pc}, s.pcs k = pc → pc.Locks → (s.pcs n).Locks → n = k := by
      rintro k _ rfl hk hold
      exact Option.some.inj ((ih n hold).symm.trans (ih k hk))
    cases hs with
    | @session k hs =>
      cases hs with
      | call | refused | passed => exact ih n (other rfl id).2
      | lock hpc hl =>
        by_cases hk : n = k
        · rw [hk]
          rfl
        · change (update s.pcs k _ n).Locks at hn
          rw [update_of_ne hk] at hn
          rw [ih n hn] at hl
          cases hl
      | passedAgain hpc ha =>
        by_cases hk : n = k
        · subst hk
          exact ih n (by rw [hpc]; trivial)
        · change (update s.pcs k _ n).Locks at hn
          rw [update_of_ne hk] at hn
          exact ih n hn
      | refusedAgain hpc | exhausted hpc | reserve hpc =>
        obtain ⟨hne, hold⟩ := other rfl id
        exact absurd (sole hpc trivial hold) hne
    | send hs | ending hs | recv hs => cases hs <;> exact ih n (other rfl id).2
    | dropping hs =>
      cases hs with
      | remove | count =>
        refine ih n (other rfl ?_).2
        split <;> exact id
      | _ => exact ih n (other rfl id).2
    | writing hs | reader hs | fail hs | owner hs => cases hs <;> exact ih n hn

variable {n c : Nat} {globalId : Option (Vector UInt8 8)} {point : SessionPoint} {target : Target}

/-- Where a `session()` call can come from. It passes a look at `alive` only while the flag
is set. -/
theorem Step.session_pc (hs : Step s s') (h : s'.pcs n = .session target globalId point) :
    s.pcs n = .session target globalId point ∨ point = .checking ∨ s.alive = true ∨
      point = .rechecking ∧ s.pcs n = .session target globalId .locking := by
  rcases hs.call n with hsame | hown
  · exact .inl (hsame ▸ h)
  · cases hown.to_session (by rw [h]; rfl) with
    | call =>
      cases Mux.pc_of_update rfl h
      exact .inr (.inl rfl)
    | passed hpc ha | passedAgain hpc ha => exact .inr (.inr (.inl ha))
    | lock hpc hl =>
      cases Mux.pc_of_update rfl h
      exact .inr (.inr (.inr ⟨rfl, hpc⟩))
    | _ => exact absurd (Mux.pc_of_update rfl h) nofun

/-- No route is left and no `session()` call can add one. -/
structure Mux.Sealed (s : Mux) : Prop where
  closed : s.alive = false
  routes : ∀ id, s.routes.lookup id = none
  reserving : ∀ n target globalId, s.pcs n ≠ .session target globalId .reserving

theorem Mux.Sealed.step (h : s.Sealed) (hs : Step s s') : s'.Sealed where
  closed := hs.alive_of_closed h.closed
  routes := by
    intro id
    refine Option.eq_none_iff_forall_ne_some.mpr fun r hr => ?_
    have hold : s.routes.lookup id = some r := by
      cases hs.idEffect with
      | same _ hroutes _ => exact hroutes id r hr
      | opens n o target hstep hret =>
        obtain ⟨_, -, ⟨target, globalId, hpc⟩, -, -⟩ := hstep.opens hret
        exact absurd hpc (h.reserving n target globalId)
      | drops c o _ _ hroutes =>
        rw [hroutes] at hr
        exact (lookup_erase_iff.mp hr).2
    rw [h.routes id] at hold
    cases hold
  reserving := by
    intro n target globalId hpc
    rcases hs.session_pc hpc with hsame | hpoint | halive | ⟨hpoint, -⟩
    · exact h.reserving n target globalId hsame
    · cases hpoint
    · rw [h.closed] at halive
      cases halive
    · cases hpoint

theorem Mux.Sealed.runs (h : s.Sealed) (hr : Runs s s') : s'.Sealed := by
  induction hr with
  | refl => exact h
  | tail _ hs ih => exact ih.step hs

/-- The `fail_multiplexer` has emptied the route table. -/
def FailPoint.Emptied : FailPoint → Prop
  | notify _ _ | returned true => True
  | _ => False

/-- **No route after a failure**: once the call that cleared `alive` has emptied the table,
the multiplexer is sealed. -/
theorem Reachable.sealed (h : Reachable s) : ∀ t, (s.fails t).Emptied → s.Sealed := by
  induction h using Reachable.induction with
  | new => exact fun _ ht => ht.elim
  | step s s' hr hs ih =>
    intro t ht
    rcases hs.fails t with hsame | ⟨message, hstart⟩ | hstep
    · rw [hsame] at ht
      exact (ih t ht).step hs
    · rw [hstart] at ht
      exact ht.elim
    · cases hstep with
      | cancel | lost | won =>
        rw [Mux.failAt_fails, update_self] at ht
        exact ht.elim
      | take hf hl hrs =>
        refine ⟨hr.closed_of_past t (by rw [hf]; trivial), fun _ => rfl, ?_⟩
        -- A call about to add a route would hold the lock that `take` found free.
        intro n target globalId hpc
        have hlock := hr.locks n (by rw [show s.pcs n = _ from hpc]; trivial)
        rw [hl] at hlock
        cases hlock
      | notify hf | finish hf => exact (ih t (by rw [hf]; trivial)).step hs

/-- A `session()` call that starts after `alive` was cleared: no session, and no further than
its first look at the flag. -/
structure Mux.Late (n : Nat) (s : Mux) : Prop where
  closed : s.alive = false
  none : s.idOf n = none
  checking : ∀ target globalId point, s.pcs n = .session target globalId point →
    point = .checking

theorem Mux.Late.step (h : s.Late n) (hs : Step s s') : s'.Late n where
  closed := hs.alive_of_closed h.closed
  none := by
    cases hs.idEffect with
    | same hid => rw [hid, h.none]
    | opens k id target hstep hret _ _ hid =>
      obtain ⟨_, -, ⟨target, globalId, hpc⟩, -, -⟩ := hstep.opens hret
      have hk : n ≠ k := by
        rintro rfl
        exact absurd (h.checking target globalId _ hpc) nofun
      rw [hid, update_of_ne hk, h.none]
    | drops c id _ hid =>
      rw [hid]
      by_cases hc : n = c
      · rw [hc, update_self]
      · rw [update_of_ne hc, h.none]
  checking := by
    intro target globalId point hpc
    rcases hs.session_pc hpc with hsame | hpoint | halive | ⟨-, hlocking⟩
    · exact h.checking target globalId point hsame
    · exact hpoint
    · rw [h.closed] at halive
      cases halive
    · exact absurd (h.checking target globalId _ hlocking) nofun

theorem Mux.Late.runs (h : s.Late n) (hr : Runs s s') : s'.Late n := by
  induction hr with
  | refl => exact h
  | tail _ hs ih => exact ih.step hs

/-- Such a call returns the error in its first step. -/
theorem Mux.Late.refused (h : s.Late n) (hpc : s.pcs n = .session target globalId point) :
    Enabled (SessionStep n) s ∧ ∀ s', SessionStep n s s' →
      s'.pcs n = .returned (.failed "XUDP multiplexer is closed") := by
  obtain rfl := h.checking target globalId point hpc
  refine ⟨⟨_, .refused hpc h.closed⟩, fun s' hs => ?_⟩
  cases hs with
  | refused => exact update_self _ _ _
  | passed _ ha =>
    rw [h.closed] at ha
    cases ha
  | call _ _ hpc' | lock hpc' | refusedAgain hpc' | passedAgain hpc' | exhausted hpc'
  | reserve hpc' => exact absurd (hpc'.symm.trans hpc) nofun

/-! ## Sessions without a route -/

/-- The session was opened and no route leads to it any more. -/
structure Mux.Removed (c : Nat) (s : Mux) : Prop where
  opened : s.pcs c = .returned .opened
  routes : ∀ id r, s.routes.lookup id = some r → r.sender ≠ c

theorem Mux.Removed.step (h : s.Removed c) (hs : Step s s') : s'.Removed c where
  opened := hs.returned h.opened
  routes := by
    intro id r hr
    cases hs.idEffect with
    | same _ hroutes _ => exact h.routes id r (hroutes id r hr)
    | opens n o target _ _ hnew _ _ hroutes =>
      rw [hroutes, lookup_insert_iff] at hr
      rcases hr with ⟨-, rfl⟩ | ⟨-, hold⟩
      · rintro rfl
        exact hnew h.opened
      · exact h.routes id r hold
    | drops d o _ _ hroutes =>
      rw [hroutes] at hr
      exact h.routes id r (lookup_erase_iff.mp hr).2

/-- This `fail_multiplexer` has a sender of the channel in its hands. -/
def Mux.FailHolds (c : Nat) (t : Tid) (s : Mux) : Prop :=
  ∃ message rs, s.fails t = .notify message rs ∧ ∃ r ∈ rs, r.sender = c

/-- The reader has a sender of the channel in its hands. -/
def Mux.ReaderHolds (c : Nat) (s : Mux) : Prop :=
  ∃ r metadata payload, s.reader = .holding r metadata payload ∧ r.sender = c

theorem Mux.Removed.hasSender_iff (h : s.Removed c) :
    s.HasSender c ↔ s.ReaderHolds c ∨ ∃ t, s.FailHolds c t := by
  constructor
  · rintro (⟨id, r, hr, hc⟩ | hreader | hfail)
    · exact absurd hc (h.routes id r hr)
    · exact .inl hreader
    · exact .inr hfail
  · rintro (hreader | hfail)
    · exact .inr (.inl hreader)
    · exact .inr (.inr hfail)

/-- A `fail_multiplexer` does not get hold of a sender whose route is gone. -/
theorem Mux.Removed.failHolds {t : Tid} (h : s.Removed c) (hs : Step s s') (ht : s'.FailHolds c t) :
    s.FailHolds c t := by
  obtain ⟨message, rs, hf', r, hr, hc⟩ := ht
  rcases hs.fails t with hsame | ⟨message, hstart⟩ | hstep
  · exact ⟨message, rs, hsame ▸ hf', r, hr, hc⟩
  · rw [hstart] at hf'
    cases hf'
  · cases hstep with
    | cancel | lost | won | finish =>
      rw [Mux.failAt_fails, update_self] at hf'
      cases hf'
    | take hf hl hperm =>
      rw [Mux.failAt_fails, update_self] at hf'
      cases hf'
      obtain ⟨id, hid⟩ := mem_values.mp (hperm.mem_iff.mp hr)
      exact absurd hc (h.routes id r hid)
    | notify hf =>
      rw [Mux.failAt_fails, update_self] at hf'
      cases hf'
      exact ⟨_, _, hf, r, List.mem_cons_of_mem _ hr, hc⟩

/-- What a step does to the reader is a step of the reader. -/
theorem Step.reader_eq (hs : Step s s') : s'.reader = s.reader ∨ ReaderStep s s' := by
  cases hs with
  | reader h => exact .inr h
  | session h | send h | writing h | ending h | recv h | dropping h | fail h | owner h =>
    cases h <;> exact .inl rfl

/-- The reader does not get hold of a sender whose route is gone. -/
theorem Mux.Removed.readerHolds (h : s.Removed c) (hs : Step s s') (hr : s'.ReaderHolds c) :
    s.ReaderHolds c := by
  obtain ⟨r, metadata, payload, hreader, hc⟩ := hr
  rcases hs.reader_eq with hsame | hstep
  · exact ⟨r, metadata, payload, hsame ▸ hreader, hc⟩
  · cases hstep with
    | frame =>
      split at hreader <;> cases hreader
    | pick =>
      dsimp only at hreader
      split at hreader
      · next r' hlook =>
        cases hreader
        exact absurd hc (h.routes _ _ hlook)
      · cases hreader
    | deliver | empty | broken | failed | aborted => cases hreader

/-- **No sender comes back** to a session whose route is gone. -/
theorem Mux.Removed.hasSender (h : s.Removed c) (hs : Step s s') (hsend : s'.HasSender c) :
    s.HasSender c := by
  rw [(h.step hs).hasSender_iff] at hsend
  rw [h.hasSender_iff]
  rcases hsend with hreader | ⟨t, hfail⟩
  · exact .inl (h.readerHolds hs hreader)
  · exact .inr ⟨t, h.failHolds hs hfail⟩

/-! ## `recv` -/

/-- The session of every `recv` is live. -/
theorem Reachable.recv_live (h : Reachable s) :
    ∀ n c point, s.pcs n = .recv c point → ∃ id, s.idOf c = some id := by
  induction h using Reachable.induction with
  | new => exact fun _ _ _ hpc => nomatch hpc
  | step s s' hr hs ih =>
    intro n c point hpc
    rcases hs.call n with hsame | hown
    · rw [hsame] at hpc
      obtain ⟨id, hid⟩ := ih n c point hpc
      exact ⟨id, hs.idOf_of_uses hr (n := n) (by rw [hpc]; rfl) hid⟩
    · cases hown.to_recv (by rw [hpc]; rfl) with
      | call _ hm =>
        cases Mux.pc_of_update rfl hpc
        exact ⟨_, Mux.idOf_eq (s := Mux.goto _ _ _) hm⟩
      | lock _ hm =>
        cases Mux.pc_of_update rfl hpc
        exact ⟨_, Mux.idOf_eq (s := Mux.goto _ _ _) (update_self _ _ _)⟩
      | _ => exact absurd (Mux.pc_of_update rfl hpc) nofun

/-- Who holds the lock of the session's receiver. -/
def Mux.lockOf (s : Mux) (c : Nat) : Option Nat := (s.sessions c).bind (·.receiverLock)

theorem Mux.lockOf_set {m : Option MuxSession} {o : Option Nat}
    (hs : s'.sessions = update s.sessions c m) (ho : m.bind (·.receiverLock) = o) :
    s'.lockOf = update s.lockOf c o := by
  subst ho
  show (fun m : Option MuxSession => m.bind (·.receiverLock)) ∘ s'.sessions = _
  rw [hs, Function.comp_update]
  rfl

theorem Mux.lockOf_eq {m : MuxSession} (h : s.sessions c = some m) :
    s.lockOf c = m.receiverLock := by
  rw [Mux.lockOf, h]
  rfl

theorem Mux.lockOf_update {m m' : MuxSession} (h : s.sessions c = some m)
    (hs : s'.sessions = update s.sessions c (some m'))
    (hlock : m'.receiverLock = m.receiverLock) : s'.lockOf = s.lockOf := by
  rw [Mux.lockOf_set hs rfl, Option.bind_some, hlock, ← Mux.lockOf_eq h, update_eq_self]

/-- A step leaves the receiver's lock, frees it, or gives it to a `recv`. -/
theorem Step.lockOf (hs : Step s s') (c : Nat) :
    s'.lockOf c = s.lockOf c ∨ s'.lockOf c = none ∨
      ∃ n, s'.lockOf c = some n ∧ s'.pcs n = .recv c .receiving := by
  have kept (h : s'.lockOf = s.lockOf) : s'.lockOf c = s.lockOf c := congrFun h c
  -- A step that frees the lock of session `d`, or ends it, leaves the others.
  have freed : ∀ {d : Nat}, s'.lockOf = update s.lockOf d none →
      s'.lockOf c = s.lockOf c ∨ s'.lockOf c = none := by
    intro d hd
    rw [hd]
    by_cases hcd : c = d
    · rw [hcd, update_self]
      exact .inr rfl
    · rw [update_of_ne hcd]
      exact .inl rfl
  cases hs with
  | session hs =>
    cases hs with
    | reserve => exact (freed (Mux.lockOf_set rfl rfl)).imp_right .inl
    | _ => exact .inl rfl
  | send hs =>
    cases hs with
    | call | refused | passed | enter | cancelLocking => exact .inl rfl
    | lock _ hm | unprepared _ hm | prepared _ hm | closed _ hm | commit _ hm | release _ hm
    | cancelWaiting _ hm => exact .inl (kept (Mux.lockOf_update hm rfl rfl))
  | recv hs =>
    cases hs with
    | call | cancelLocking => exact .inl rfl
    | @lock d m hpc hm hl =>
      by_cases hcd : c = d
      · subst hcd
        refine .inr (.inr ⟨_, ?_, update_self _ _ _⟩)
        show Option.bind (update s.sessions c _ c) _ = _
        rw [update_self]
        rfl
      · left
        refine (congrFun (Mux.lockOf_set rfl rfl) c).trans ?_
        exact update_of_ne hcd _ _
    | packet | closed | cancelReceiving => exact (freed (Mux.lockOf_set rfl rfl)).imp_right .inl
  | dropping hs =>
    cases hs with
    | remove => exact (freed (Mux.lockOf_set rfl rfl)).imp_right .inl
    | _ => exact .inl rfl
  | writing hs | ending hs | reader hs | fail hs | owner hs => cases hs <;> exact .inl rfl

/-- A `recv` that holds the receiver's lock and moves has returned and freed the lock. -/
theorem RecvStep.leaves (hs : RecvStep n s s') (h : s.pcs n = .recv c .receiving) :
    (∃ o, s'.pcs n = .returned o) ∧ s'.lockOf c = none := by
  cases hs with
  | packet hpc hm | closed hpc hm | cancelReceiving hpc hm =>
    cases hpc.symm.trans h
    refine ⟨⟨_, update_self _ _ _⟩, ?_⟩
    show Option.bind (update s.sessions c _ c) _ = _
    rw [update_self]
    rfl
  | call hpc | lock hpc | cancelLocking hpc => exact absurd (hpc.symm.trans h) nofun

/-- The holder of a receiver's lock is a `recv` that waits for a message. -/
theorem Reachable.lock_receiving (h : Reachable s) :
    ∀ c n, s.lockOf c = some n → s.pcs n = .recv c .receiving := by
  induction h using Reachable.induction with
  | new => exact fun _ _ hlock => nomatch hlock
  | step s s' hr hs ih =>
    intro c n hlock
    rcases hs.lockOf c with hsame | hfree | ⟨k, hk, hpc⟩
    · have hpc := ih c n (hsame ▸ hlock)
      rcases hs.call n with hpcs | hown
      · rw [hpcs, hpc]
      · have hleft := ((hown.of_recv (by rw [hpc]; rfl)).leaves hpc).2
        rw [hleft] at hlock
        cases hlock
    · rw [hfree] at hlock
      cases hlock
    · obtain rfl : k = n := Option.some.inj (hk.symm.trans hlock)
      exact hpc

/-- How a `recv` ended: its future was dropped, it got the front of the queue, or the queue was
empty and it got the error. -/
def RecvEnded (c : Nat) (s s' : Mux) (o : Outcome) : Prop :=
  o = .cancelled ∨ (∃ p, s.inbox c = p :: s'.inbox c ∧ o = received p) ∨
    s.inbox c = [] ∧ o = .failed "XUDP multiplexer closed"

theorem RecvStep.result {point : RecvPoint} {o : Outcome} (hs : RecvStep n s s')
    (h : s.pcs n = .recv c point) (ho : s'.pcs n = .returned o) : RecvEnded c s s' o := by
  cases hs with
  | call | lock => exact absurd (Mux.pc_of_update rfl ho) nofun
  | @packet d m p rest hpc hm hin =>
    cases hpc.symm.trans h
    cases Mux.pc_of_update rfl ho
    refine .inr (.inl ⟨p, ?_, rfl⟩)
    show _ = p :: update s.inbox c rest c
    rw [hin, update_self]
  | closed hpc hm hin =>
    cases hpc.symm.trans h
    cases Mux.pc_of_update rfl ho
    exact .inr (.inr ⟨hin, rfl⟩)
  | cancelLocking | cancelReceiving =>
    cases Mux.pc_of_update rfl ho
    exact .inl rfl

/-- What a step can do to a session's queue: nothing; take its front; let somebody with a
sender add an error; or let the reader add the packet of the route in its hands, which it
then lets go. -/
def QueueStep (c : Nat) (s s' : Mux) : Prop :=
  s'.inbox c = s.inbox c ∨ (∃ p, s.inbox c = p :: s'.inbox c) ∨
    (s.HasSender c ∧ ∃ e, s'.inbox c = s.inbox c ++ [.error e]) ∨
    s.ReaderHolds c ∧ ¬ s'.ReaderHolds c ∧ ∃ packet, s'.inbox c = s.inbox c ++ [.ok packet]

/-- Sending to a full queue changes nothing; sending to another session's neither. -/
theorem Mux.trySend_inbox_cases (s : Mux) (c d : Nat) (p : RoutedPacket) :
    (s.trySend d p).inbox c = s.inbox c ∨
      c = d ∧ (s.trySend d p).inbox c = s.inbox c ++ [p] := by
  rw [Mux.trySend_inbox]
  by_cases hcd : c = d
  · subst hcd
    rw [update_self]
    split
    · exact .inr ⟨rfl, rfl⟩
    · exact .inl rfl
  · exact .inl (update_of_ne hcd _ _)

theorem Step.inbox (hs : Step s s') (c : Nat) : QueueStep c s s' := by
  cases hs with
  | recv hs =>
    cases hs with
    | @packet d m p rest hpc hm hin =>
      by_cases hcd : c = d
      · subst hcd
        refine .inr (.inl ⟨p, ?_⟩)
        show _ = p :: update s.inbox c rest c
        rw [hin, update_self]
      · exact .inl (update_of_ne hcd _ _)
    | _ => exact .inl rfl
  | reader hs =>
    cases hs with
    | @deliver r metadata payload p hr hd =>
      rcases Mux.trySend_inbox_cases { s with reader := .reading } c r.sender p with
        hsame | ⟨rfl, hadd⟩
      · exact .inl hsame
      · have hsender : s.ReaderHolds r.sender := ⟨r, metadata, payload, hr, rfl⟩
        cases p with
        | error e => exact .inr (.inr (.inl ⟨.inr (.inl hsender), e, hadd⟩))
        | ok packet =>
          refine .inr (.inr (.inr ⟨hsender, ?_, packet, hadd⟩))
          rintro ⟨_, _, _, hholding, -⟩
          cases hholding
    | _ => exact .inl rfl
  | fail hs =>
    cases hs with
    | @notify message r rs hf =>
      rcases Mux.trySend_inbox_cases s c r.sender (.error message) with hsame | ⟨rfl, hadd⟩
      · exact .inl hsame
      · refine .inr (.inr (.inl ⟨.inr (.inr ?_), message, hadd⟩))
        exact ⟨_, _, _, hf, r, List.mem_cons_self, rfl⟩
    | _ => exact .inl rfl
  | session hs | send hs | writing hs | ending hs | dropping hs | owner hs =>
    cases hs <;> exact .inl rfl

/-! ## The one that cleared the flag -/

/-- The `fail_multiplexer` that cleared `alive`. -/
def FailPoint.Won : FailPoint → Prop
  | take _ | notify _ _ | returned true => True
  | _ => False

theorem FailPoint.Won.past {f : FailPoint} (h : f.Won) : f.Past := by
  cases f with
  | take | notify | returned => trivial
  | idle | cancel | swap => exact h.elim

/-- A call has won, or wins now and no other call moves. -/
theorem Step.won (hs : Step s s') {t : Tid} (h : (s'.fails t).Won) :
    (s.fails t).Won ∨ s.alive = true ∧ ∀ u, u ≠ t → s'.fails u = s.fails u := by
  rcases hs.fails t with hsame | ⟨message, hstart⟩ | hstep
  · exact .inl (hsame ▸ h)
  · rw [hstart] at h
    exact h.elim
  · cases hstep with
    | cancel | lost =>
      rw [Mux.failAt_fails, update_self] at h
      exact h.elim
    | won hf ha => exact .inr ⟨ha, fun u hu => update_of_ne hu _ _⟩
    | take hf | notify hf | finish hf =>
      left
      rw [hf]
      trivial

theorem Reachable.won_unique (h : Reachable s) :
    ∀ t u, (s.fails t).Won → (s.fails u).Won → t = u := by
  induction h using Reachable.induction with
  | new => exact fun _ _ ht => ht.elim
  | step s s' hr hs ih =>
    intro t u ht hu
    -- Whoever wins now finds `alive` set, so nobody has won before.
    have alone : ∀ {v w : Tid}, s.alive = true → (∀ x, x ≠ v → s'.fails x = s.fails x) →
        (s'.fails w).Won → w = v := by
      intro v w ha hrest hw
      by_contra hne
      rw [hrest w hne] at hw
      rw [hr.closed_of_past w hw.past] at ha
      cases ha
    rcases hs.won ht with hold | ⟨ha, hrest⟩
    · rcases hs.won hu with hold' | ⟨ha, hrest⟩
      · exact ih t u hold hold'
      · exact alone ha hrest ht
    · exact (alone ha hrest hu).symm

/-! ## Fair runs -/

/-- The reader goes on with a route in its hands. -/
def DeliverStep (s s' : Mux) : Prop :=
  (∃ r metadata payload, s.reader = .holding r metadata payload) ∧ ReaderStep s s'

/-- A `recv` that waits for a message gets one, or learns that none will come. -/
def WakeStep (n : Nat) (s s' : Mux) : Prop :=
  RecvStep n s s' ∧ (s.pcs n).kind = .recv ∧ ∃ o, s'.pcs n = .returned o ∧ o ≠ .cancelled

/-- A `recv` gets the receiver's lock. -/
def LockStep (n : Nat) (s s' : Mux) : Prop :=
  RecvStep n s s' ∧ ∃ c, s.pcs n = .recv c .locking ∧ s'.pcs n = .recv c .receiving

/-- A run in which code that has started goes on, a task whose message or end is there is
woken, and a lock is handed on to those who wait. Nothing is asked of the peer, the
stream, or those who drop futures. -/
structure FairTrace (ρ : Nat → Mux) : Prop where
  reachable : Reachable (ρ 0)
  trace : IsTrace Step ρ
  fails : ∀ t, WeakFair (FailStep t) ρ
  delivers : WeakFair DeliverStep ρ
  wakes : ∀ n, WeakFair (WakeStep n) ρ
  locks : ∀ n, StrongFair (LockStep n) ρ

section Fair

variable {ρ : Nat → Mux} {c i : Nat} (h : FairTrace ρ)
include h

theorem FairTrace.reachable_at (i : Nat) : Reachable (ρ i) :=
  h.reachable.runs (h.trace.runs (Nat.zero_le i))

theorem FairTrace.removed (hr : (ρ i).Removed c) {j : Nat} (hij : i ≤ j) : (ρ j).Removed c :=
  h.trace.stable (P := fun s => s.Removed c) (fun _ _ h hs => h.step hs) hr hij

/-- The routes that a `fail_multiplexer` still has to tell get fewer, until there are none. -/
theorem FairTrace.told (t : Tid) (k : Nat) :
    ∀ i, (ρ i).Removed c → (∃ message rs, (ρ i).fails t = .notify message rs ∧ rs.length = k) →
      ∃ j, i ≤ j ∧ ¬ (ρ j).FailHolds c t := by
  induction k using Nat.strong_induction_on with
  | _ k ih =>
    intro i hr hi
    let P : Mux → Prop := fun s => s.Removed c ∧
      ∃ message rs, s.fails t = .notify message rs ∧ rs.length = k
    let Q : Mux → Prop := fun s => s.Removed c ∧
      (¬ s.FailHolds c t ∨ ∃ message rs, s.fails t = .notify message rs ∧ rs.length < k)
    have act : ∀ s s', P s → FailStep t s s' → s'.Removed c → Q s' := by
      rintro s s' ⟨-, message, rs, hf, hk⟩ hs hr'
      refine ⟨hr', ?_⟩
      cases hs with
      | cancel hf' | lost hf' | won hf' | take hf' => exact absurd (hf'.symm.trans hf) nofun
      | @notify _ r rs' hf' =>
        cases hf'.symm.trans hf
        exact .inr ⟨_, rs', update_self _ _ _, by rw [← hk, List.length_cons]; omega⟩
      | finish hf' =>
        left
        rintro ⟨_, _, hret, -⟩
        rw [Mux.failAt_fails, update_self] at hret
        cases hret
    have hunless : ∀ s s', P s → Step s s' → P s' ∨ Q s' := by
      rintro s s' ⟨hrem, message, rs, hf, hk⟩ hs
      rcases hs.fails t with hsame | ⟨message', hstart⟩ | hstep
      · exact .inl ⟨hrem.step hs, message, rs, hsame.trans hf, hk⟩
      · refine .inr ⟨hrem.step hs, .inl ?_⟩
        rintro ⟨_, _, hnotify, -⟩
        rw [hstart] at hnotify
        cases hnotify
      · exact .inr (act s s' ⟨hrem, message, rs, hf, hk⟩ hstep (hrem.step hs))
    have henabled : ∀ s, P s → Enabled (FailStep t) s := by
      rintro s ⟨-, message, rs, hf, -⟩
      cases rs with
      | nil => exact ⟨_, .finish hf⟩
      | cons r rs => exact ⟨_, .notify hf⟩
    obtain ⟨j, hij, -, hdone | ⟨message, rs, hf, hlt⟩⟩ := (h.fails t).leadsTo h.trace hunless
      henabled (fun s s' hp hs => act s s' hp hs (hp.1.step (.fail hs))) ⟨hr, hi⟩
    · exact ⟨j, hij, hdone⟩
    · obtain ⟨l, hjl, hl⟩ := ih rs.length hlt j (h.removed hr hij) ⟨message, rs, hf, rfl⟩
      exact ⟨l, by omega, hl⟩

/-- No `fail_multiplexer` keeps a sender of a session whose route is gone. -/
theorem FairTrace.fails_release (hr : (ρ i).Removed c) :
    ∃ j, i ≤ j ∧ ∀ t, ¬ (ρ j).FailHolds c t := by
  by_cases hnone : ∀ t, ¬ (ρ i).FailHolds c t
  · exact ⟨i, Nat.le_refl i, hnone⟩
  · obtain ⟨t, message, rs, hf, hrs⟩ : ∃ t, (ρ i).FailHolds c t := by
      simpa using hnone
    obtain ⟨j, hij, hj⟩ := h.told t rs.length i hr ⟨message, rs, hf, rfl⟩
    refine ⟨j, hij, fun u hu => ?_⟩
    by_cases hut : u = t
    · exact hj (hut ▸ hu)
    · -- Only the one that cleared `alive` took routes; `u` is another and never gets one.
      have hnot : ¬ (ρ i).FailHolds c u := by
        rintro ⟨_, _, hf', -⟩
        exact hut ((h.reachable_at i).won_unique u t (by rw [hf']; trivial) (by rw [hf]; trivial))
      have hkeep := h.trace.stable (P := fun s => s.Removed c ∧ ¬ s.FailHolds c u)
        (fun s s' hp hs => ⟨hp.1.step hs, fun hold => hp.2 (hp.1.failHolds hs hold)⟩)
        ⟨hr, hnot⟩ hij
      exact hkeep.2 hu

/-- **The senders go**: some time after its route is gone, a session has no sender left, and
never gets one again. -/
theorem FairTrace.released (hr : (ρ i).Removed c) :
    ∃ j, i ≤ j ∧ ∀ k, j ≤ k → ¬ (ρ k).HasSender c := by
  obtain ⟨j, hij, hfail⟩ := h.fails_release hr
  have hrem := h.removed hr hij
  let P : Mux → Prop := fun s => s.Removed c ∧ (∀ t, ¬ s.FailHolds c t) ∧ s.ReaderHolds c
  let Q : Mux → Prop := fun s => s.Removed c ∧ ¬ s.HasSender c
  have settled : ∀ s : Mux, s.Removed c → (∀ t, ¬ s.FailHolds c t) → ¬ s.ReaderHolds c → Q s := by
    intro s hs hf hread
    refine ⟨hs, ?_⟩
    rw [hs.hasSender_iff]
    rintro (hreader | ⟨t, ht⟩)
    · exact hread hreader
    · exact hf t ht
  have hQ : ∃ k, j ≤ k ∧ Q (ρ k) := by
    by_cases hreader : (ρ j).ReaderHolds c
    · have hnext : ∀ s s', P s → Step s s' → ∀ t, ¬ s'.FailHolds c t :=
        fun s s' hp hs t ht => hp.2.1 t (hp.1.failHolds hs ht)
      refine h.delivers.leadsTo h.trace (P := P) ?_ ?_ ?_ ⟨hrem, hfail, hreader⟩
      · intro s s' hp hs
        by_cases hread : s'.ReaderHolds c
        · exact .inl ⟨hp.1.step hs, hnext s s' hp hs, hread⟩
        · exact .inr (settled s' (hp.1.step hs) (hnext s s' hp hs) hread)
      · rintro s ⟨-, -, r, metadata, payload, hread, -⟩
        cases hd : delivery r metadata payload with
        | none => exact ⟨_, ⟨_, _, _, hread⟩, .empty hread hd⟩
        | some p => exact ⟨_, ⟨_, _, _, hread⟩, .deliver hread hd⟩
      · rintro s s' hp ⟨⟨r, metadata, payload, hread⟩, hs⟩
        refine settled s' (hp.1.step (.reader hs)) (hnext s s' hp (.reader hs)) ?_
        rintro ⟨_, _, _, hread', -⟩
        cases hs with
        | deliver | empty => cases hread'
        | frame _ _ hread'' | pick hread'' | broken _ hread'' | failed hread''
        | aborted hread'' => exact absurd (hread''.symm.trans hread) nofun
    · exact ⟨j, Nat.le_refl j, settled _ hrem hfail hreader⟩
  obtain ⟨k, hjk, hk⟩ := hQ
  refine ⟨k, by omega, fun l hkl => ?_⟩
  exact (h.trace.stable (P := Q)
    (fun s s' hp hs => ⟨hp.1.step hs, fun hsend => hp.2 (hp.1.hasSender hs hsend)⟩) hk hkl).2

omit h

variable {n : Nat}

/-- A `recv` on a session whose route and senders are gone. -/
structure Waits (n c : Nat) (point : RecvPoint) (s : Mux) : Prop where
  reachable : Reachable s
  removed : s.Removed c
  noSender : ¬ s.HasSender c
  pc : s.pcs n = .recv c point

variable {point : RecvPoint}

theorem Waits.step (h : Waits n c point s) (hs : Step s s') :
    Waits n c point s' ∨ RecvStep n s s' := by
  rcases hs.call n with hsame | hown
  · exact .inl ⟨h.reachable.step hs, h.removed.step hs,
      fun hs' => h.noSender (h.removed.hasSender hs hs'), hsame.trans h.pc⟩
  · exact .inr (hown.of_recv (by rw [h.pc]; rfl))

theorem Waits.live (h : Waits n c point s) : ∃ m, s.sessions c = some m := by
  obtain ⟨id, hid⟩ := h.reachable.recv_live n c _ h.pc
  exact (Mux.idOf_eq_some.mp hid).imp fun _ hm => hm.1

/-- A `recv` that holds the receiver's lock, on a session without senders, returns and frees
the lock. -/
theorem FairTrace.leaves (h : FairTrace ρ) (hi : Waits n c .receiving (ρ i)) :
    ∃ j, i ≤ j ∧ (∃ o, (ρ j).pcs n = .returned o) ∧ (ρ j).lockOf c = none := by
  refine (h.wakes n).leadsTo h.trace
    (Q := fun s => (∃ o, s.pcs n = .returned o) ∧ s.lockOf c = none) ?_ ?_ ?_ hi
  · exact fun s s' hs hstep => (hs.step hstep).imp_right fun hown => hown.leaves hs.pc
  · intro s hs
    obtain ⟨m, hm⟩ := hs.live
    have hkind : (s.pcs n).kind = .recv := by rw [hs.pc]; rfl
    cases hin : s.inbox c with
    | nil =>
      exact ⟨_, .closed hs.pc hm hin hs.noSender, hkind, _, update_self _ _ _, nofun⟩
    | cons p rest =>
      refine ⟨_, .packet hs.pc hm hin, hkind, _, update_self _ _ _, ?_⟩
      cases p <;> exact nofun
  · exact fun s s' hs hstep => hstep.1.leaves hs.pc

/-- A `recv` that waits for the receiver's lock, on a session without senders, gets it or is
dropped. -/
theorem FairTrace.locked (h : FairTrace ρ) (hi : Waits n c .locking (ρ i)) :
    ∃ j, i ≤ j ∧ ((ρ j).pcs n = .recv c .receiving ∨ ∃ o, (ρ j).pcs n = .returned o) := by
  have free : ∀ s, Waits n c .locking s → s.lockOf c = none → Enabled (LockStep n) s := by
    intro s hs hlock
    obtain ⟨m, hm⟩ := hs.live
    rw [Mux.lockOf_eq hm] at hlock
    exact ⟨_, .lock hs.pc hm hlock, c, hs.pc, update_self _ _ _⟩
  refine (h.locks n).leadsTo h.trace
    (Q := fun s => s.pcs n = .recv c .receiving ∨ ∃ o, s.pcs n = .returned o) ?_ ?_ ?_ hi
  · refine fun s s' hs hstep => (hs.step hstep).imp_right fun hown => ?_
    cases hown with
    | lock hpc' =>
      cases hpc'.symm.trans hs.pc
      exact .inl (update_self _ _ _)
    | cancelLocking => exact .inr ⟨_, update_self _ _ _⟩
    | call hpc' | packet hpc' | closed hpc' | cancelReceiving hpc' =>
      exact absurd (hpc'.symm.trans hs.pc) nofun
  · intro j hj
    cases hlock : (ρ j).lockOf c with
    | none => exact ⟨j, Nat.le_refl j, fun hp => free _ hp hlock⟩
    | some k =>
      -- Whoever holds the lock returns and frees it.
      obtain ⟨l, hjl, -, hfree⟩ := h.leaves
        ⟨hj.reachable, hj.removed, hj.noSender, hj.reachable.lock_receiving c k hlock⟩
      exact ⟨l, hjl, fun hp => free _ hp hfree⟩
  · rintro s s' hs ⟨-, d, hpc', hnext⟩
    cases hpc'.symm.trans hs.pc
    exact .inl hnext

/-- A `recv` under way stays a `recv` on its session until it returns. -/
theorem Step.recv_stays (hs : Step s s') (h : s.pcs n = .recv c point) :
    (∃ point', s'.pcs n = .recv c point') ∨ ∃ o, s'.pcs n = .returned o := by
  rcases hs.call n with hsame | hown
  · exact .inl ⟨point, hsame.trans h⟩
  · cases hown.of_recv (by rw [h]; rfl) with
    | call hpc => exact absurd (hpc.symm.trans h) nofun
    | lock hpc =>
      cases hpc.symm.trans h
      exact .inl ⟨_, update_self _ _ _⟩
    | packet | closed | cancelLocking | cancelReceiving =>
      exact .inr ⟨_, update_self _ _ _⟩

/-- **Every `recv` returns** on a session whose route is gone. -/
theorem FairTrace.returns (h : FairTrace ρ) (hr : (ρ i).Removed c)
    (hpc : (ρ i).pcs n = .recv c point) : ∃ j, i ≤ j ∧ ∃ o, (ρ j).pcs n = .returned o := by
  rcases h.trace.unless (P := fun s => ∃ point, s.pcs n = .recv c point)
    (Q := fun s => ∃ o, s.pcs n = .returned o)
    (fun s s' hp hs => hp.elim fun _ hp => hs.recv_stays hp) ⟨point, hpc⟩ with hdone | hwaits
  · exact hdone
  · obtain ⟨j, hij, hno⟩ := h.released hr
    have waits : ∀ {k point}, j ≤ k → (ρ k).pcs n = .recv c point → Waits n c point (ρ k) :=
      fun hjk hk => ⟨h.reachable_at _, h.removed hr (hij.trans hjk), hno _ hjk, hk⟩
    have received : ∀ k, j ≤ k → (ρ k).pcs n = .recv c .receiving →
        ∃ l, i ≤ l ∧ ∃ o, (ρ l).pcs n = .returned o := by
      intro k hjk hk
      obtain ⟨l, hkl, hret, -⟩ := h.leaves (waits hjk hk)
      exact ⟨l, by omega, hret⟩
    obtain ⟨point', hpc'⟩ := hwaits j hij
    cases point' with
    | receiving => exact received j (Nat.le_refl j) hpc'
    | locking =>
      obtain ⟨k, hjk, hk | hret⟩ := h.locked (waits (Nat.le_refl j) hpc')
      · exact received k hjk hk
      · exact ⟨k, by omega, hret⟩

/-- The step in which a `recv` returns, and what it returns. -/
theorem FairTrace.result (h : FairTrace ρ) (hpc : (ρ i).pcs n = .recv c point) {j : Nat}
    (hij : i ≤ j) (hj : ∃ o, (ρ j).pcs n = .returned o) :
    ∃ k o, i ≤ k ∧ (ρ (k + 1)).pcs n = .returned o ∧ RecvEnded c (ρ k) (ρ (k + 1)) o := by
  -- At every later state the call is still this `recv`, or such a step is behind.
  have along : ∀ j, i ≤ j → (∃ point, (ρ j).pcs n = .recv c point) ∨
      ∃ k o, i ≤ k ∧ (ρ (k + 1)).pcs n = .returned o ∧ RecvEnded c (ρ k) (ρ (k + 1)) o := by
    intro j hij
    induction j, hij using Nat.le_induction with
    | base => exact .inl ⟨point, hpc⟩
    | succ j hij ih =>
      rcases ih with ⟨point, hpc⟩ | hbehind
      · rcases h.trace j with hsame | hs
        · exact .inl ⟨point, hsame ▸ hpc⟩
        · rcases hs.recv_stays hpc with hstays | ⟨o, ho⟩
          · exact .inl hstays
          · right
            rcases hs.call n with hsame | hown
            · exact absurd (ho.symm.trans (hsame.trans hpc)) nofun
            · exact ⟨j, o, hij, ho, (hown.of_recv (by rw [hpc]; rfl)).result hpc ho⟩
      · exact .inr hbehind
  rcases along j hij with ⟨point, hpc'⟩ | hbehind
  · exact hj.elim fun o ho => absurd (ho.symm.trans hpc') nofun
  · exact hbehind

end Fair

/-- The reader's `fail_multiplexer` has cleared `alive` and not yet emptied the table; the one
of a torn `send` finds the flag cleared and returns, with a route still there. Or the reader
has picked a route, the one of the `send` clears and empties all and returns, and then the
reader hands its packet over, after the error. -/
theorem route_left_after_return :
    (∃ s t, Reachable s ∧ s.fails t = .returned false ∧ s.routes ≠ ∅) ∧
    ∃ s s' t e packet, Reachable s ∧ s.fails t = .returned true ∧ s.inbox 0 = [.error e] ∧
      Step s s' ∧ s'.inbox 0 = [.error e, .ok packet] := by
  have h0 : Reachable (Mux.new.opened 0 anyTarget none 0) := runs_open _ _ rfl rfl rfl rfl rfl
  have h1 := h0.step (.send (.call (n := 1) (c := 0) anyTarget [0xab, 0xcd] rfl rfl))
  have h2 := h1.step (.send (.passed (n := 1) rfl rfl rfl))
  have h3 := h2.step (.send (.lock (n := 1) rfl rfl rfl))
  have h4 := h3.step (.send (.prepared (n := 1) rfl rfl (Job.make_eq goldenJob.bytes_eq)))
  have h5 := h4.step (.send (.enter (n := 1) rfl rfl))
  have h6 := h5.step (.writing (.arm (n := 1) rfl rfl rfl rfl))
  have h7 := h6.step (.writing (.tear (n := 1) rfl rfl rfl))
  constructor
  · have h8 := h7.step (.reader (.broken "early eof" rfl))
    have h9 := h8.step (.fail (.cancel (t := .reader) rfl))
    have h10 := h9.step (.fail (.won (t := .reader) rfl rfl))
    have h11 := h10.step (.fail (.cancel (t := .call 1) rfl))
    have h12 := h11.step (.fail (.lost (t := .call 1) rfl rfl))
    exact ⟨_, .call 1, h12, rfl, nofun⟩
  · have h8 := h7.step (.reader (.frame ⟨0, .keep, true, none⟩ (some [1]) rfl rfl))
    have h9 := h8.step (.reader (.pick rfl rfl))
    have h10 := h9.step (.fail (.cancel (t := .call 1) rfl))
    have h11 := h10.step (.fail (.won (t := .call 1) rfl rfl))
    have h12 := h11.step (.fail (.take (t := .call 1) rfl rfl (List.Perm.refl _)))
    have h13 := h12.step (.fail (.notify (t := .call 1) rfl))
    have h14 := h13.step (.fail (.finish (t := .call 1) rfl))
    exact ⟨_, _, .call 1, _, _, h14, rfl, rfl, .reader (.deliver rfl rfl), rfl⟩

/-- How a session without a route ends, along a run. Its queue gets no packet but at most the
one in the reader's hands; from some point on nobody has a sender, so nothing is added; and
every `recv` returns, with the front of the queue or, when that is empty, the error. -/
structure Drains (c : Nat) (ρ : Nat → Mux) : Prop where
  queue : ∀ k, QueueStep c (ρ k) (ρ (k + 1))
  once : ∀ k, ¬ (ρ k).ReaderHolds c → ¬ (ρ (k + 1)).ReaderHolds c
  closes : ∃ j, ∀ k, j ≤ k → ¬ (ρ k).HasSender c
  returns : ∀ i n point, (ρ i).pcs n = .recv c point →
    ∃ k o, i ≤ k ∧ (ρ (k + 1)).pcs n = .returned o ∧ RecvEnded c (ρ k) (ρ (k + 1)) o

theorem FairTrace.drains {ρ : Nat → Mux} (h : FairTrace ρ) (hr : (ρ 0).Removed c) : Drains c ρ where
  queue := by
    intro k
    rcases h.trace k with hsame | hs
    · exact .inl (by rw [hsame])
    · exact hs.inbox c
  once := by
    intro k hnot hread
    rcases h.trace k with hsame | hs
    · exact hnot (hsame ▸ hread)
    · exact hnot ((h.removed hr (Nat.zero_le k)).readerHolds hs hread)
  closes := (h.released hr).imp fun _ hj => hj.2
  returns := by
    intro i n point hpc
    obtain ⟨j, hij, hret⟩ := h.returns (h.removed hr (Nat.zero_le i)) hpc
    exact h.result hpc hij hret

/-- **Failure is total and observable.** After the `fail_multiplexer` that cleared `alive` has
returned, the route table is and stays empty. After any has returned, every `session()` call
that starts later gets no session and returns the error in its first step. And in every fair
run a session whose route is gone drains: after what is in its queue, `recv` returns an
error. -/
theorem failure_total (h : Reachable s) :
    (∀ t, s.fails t = .returned true → ∀ s', Runs s s' → s'.routes = ∅) ∧
    (∀ t won n, s.fails t = .returned won → s.pcs n = .idle → ∀ s', Runs s s' →
      s'.idOf n = none ∧ ∀ target globalId point, s'.pcs n = .session target globalId point →
        Enabled (SessionStep n) s' ∧ ∀ s'', SessionStep n s' s'' →
          s''.pcs n = .returned (.failed "XUDP multiplexer is closed")) ∧
    ∀ ρ c, FairTrace ρ → ρ 0 = s → s.Removed c → Drains c ρ := by
  refine ⟨?_, ?_, ?_⟩
  · intro t ht s' hr
    exact eq_empty_of_lookup ((h.sealed t (by rw [ht]; trivial)).runs hr).routes
  · intro t won n ht hidle s' hr
    have hlate : s.Late n := by
      constructor
      · exact h.closed_of_past t (by rw [ht]; trivial)
      · exact h.idOf_none (by rw [hidle]; exact nofun)
      · intro target globalId point hpc
        rw [hidle] at hpc
        cases hpc
    exact ⟨(hlate.runs hr).none, fun _ _ _ hpc => (hlate.runs hr).refused hpc⟩
  · rintro ρ c hfair rfl hrem
    exact hfair.drains hrem

/-- A run to a state in which all is done, and then pauses, is fair. -/
theorem exists_fairTrace (h : Reachable s) (hr : Runs s s')
    (hfails : ∀ t, s'.fails t = .idle ∨ ∃ won, s'.fails t = .returned won)
    (hreader : ∀ r metadata payload, s'.reader ≠ .holding r metadata payload)
    (hrecv : ∀ n, (s'.pcs n).kind ≠ .recv) : ∃ ρ, FairTrace ρ ∧ ρ 0 = s := by
  obtain ⟨ρ, N, hstart, htrace, hlast⟩ := exists_trace hr
  refine ⟨ρ, ⟨hstart ▸ h, htrace, ?_, ?_, ?_, ?_⟩, hstart⟩
  · refine fun t => (StrongFair.of_last hlast ?_).weakFair
    rintro ⟨x, hx⟩
    rcases hfails t with hf | ⟨won, hf⟩ <;> cases hx <;> simp_all
  · refine (StrongFair.of_last hlast ?_).weakFair
    rintro ⟨x, ⟨r, metadata, payload, hr⟩, -⟩
    exact hreader r metadata payload hr
  · refine fun n => (StrongFair.of_last hlast ?_).weakFair
    rintro ⟨x, -, hkind, -⟩
    exact hrecv n hkind
  · refine fun n => StrongFair.of_last hlast ?_
    rintro ⟨x, -, c, hpc, -⟩
    exact hrecv n (by rw [hpc]; rfl)

/-- The reader fails while a `recv` waits: the table stays empty, and the `recv` returns. -/
theorem recv_after_failure : ∃ ρ, FairTrace ρ ∧ (ρ 0).fails .reader = .returned true ∧
    (∀ s', Runs (ρ 0) s' → s'.routes = ∅) ∧ (ρ 0).pcs 1 = .recv 0 .locking ∧
    ∃ k o, (ρ (k + 1)).pcs 1 = .returned o ∧ RecvEnded 0 (ρ k) (ρ (k + 1)) o := by
  have h0 : Reachable (Mux.new.opened 0 anyTarget none 0) := runs_open _ _ rfl rfl rfl rfl rfl
  have h1 := h0.step (.recv (.call (n := 1) (c := 0) rfl rfl))
  have h2 := h1.step (.reader (.broken "early eof" rfl))
  have h3 := h2.step (.fail (.cancel (t := .reader) rfl))
  have h4 := h3.step (.fail (.won (t := .reader) rfl rfl))
  have h5 := h4.step (.fail (.take (t := .reader) rfl rfl (List.Perm.refl _)))
  have h6 := h5.step (.fail (.notify (t := .reader) rfl))
  have h7 := h6.step (.fail (.finish (t := .reader) rfl))
  -- The `recv` takes the lock and gets the message; then nothing is left to do.
  obtain ⟨ρ, hfair, hρ⟩ := exists_fairTrace h7
    (.tail (.single (.recv (.lock (n := 1) rfl rfl rfl))) (.recv (.packet (n := 1) rfl rfl rfl)))
    (by
      intro t
      by_cases ht : t = .reader
      · exact .inr ⟨true, by rw [ht]; rfl⟩
      · exact .inl (by simp [Mux.opened, update_of_ne ht, Mux.new]))
    (by
      rintro r metadata payload ⟨⟩)
    (by
      intro n
      rcases n with _ | _ | n
      · rintro ⟨⟩
      · rintro ⟨⟩
      · simp [Mux.opened, Mux.new, Pc.kind])
  obtain ⟨hroutes, -, hrecv⟩ := failure_total hfair.reachable
  have hret : (ρ 0).fails .reader = .returned true := by rw [hρ]; rfl
  have hpc : (ρ 0).pcs 1 = .recv 0 .locking := by rw [hρ]; rfl
  have hrem : (ρ 0).Removed 0 := by
    rw [hρ]
    refine ⟨rfl, ?_⟩
    rintro id r ⟨⟩
  obtain ⟨k, o, -, ho, hended⟩ := (hrecv ρ 0 hfair rfl hrem).returns 0 1 .locking hpc
  exact ⟨ρ, hfair, hret, hroutes .reader hret, hpc, k, o, ho, hended⟩

end Clyntis.Protocol.Xudp
