import Mathlib.Order.Basic

/-!
# Operations that run side by side

A component offers operations on a shared state. Each call is a small program: it has a
local state, and its next atomic step may read and change the shared state, go on in
another local state or return. Between two steps of a call any steps of other calls may
come. A local state may hold locks; a step that needs a lock waits until no other call
holds it.

- `Component`, `System`, `Step`: the interleavings;
- `Reaches ok`: runs whose steps all satisfy `ok`, with the invariant rule;
- `System.Shows`: what holds of all calls at some point of their code;
- `Exclusive`: no lock is held twice, in every state reached;
- `Going`: a run that is written down step by step;
- `Timed`: calls are stamped with the numbers of the steps at which they began and ended.

What calls leave behind, and how it is removed, is in `Clyntis.Lib.Sweep`.
-/

namespace Clyntis.Lib

open Function

/-- What calls do: `Λ` are their local states, `ρ` what they return, `κ` the locks. -/
structure Component (κ σ Λ ρ : Type) where
  /-- the local states a call can begin in -/
  starts : Λ → Prop
  /-- one atomic step of a call, at this point of the run -/
  act : (caller now : Nat) → Λ → σ → Λ ⊕ ρ → σ → Prop
  /-- what can happen outside of all calls -/
  environment : σ → σ → Prop
  /-- the locks that a step takes -/
  needs : Λ → Λ ⊕ ρ → κ → Prop
  /-- the locks that are held between steps -/
  holds : Λ → κ → Prop
  starts_free : ∀ {here}, starts here → ∀ lock, ¬ holds here lock
  acquired : ∀ {caller now here shared there shared'},
    act caller now here shared (.inl there) shared' →
      ∀ lock, holds there lock → holds here lock ∨ needs here (.inl there) lock

/-- A call that has not begun, is in progress or has returned. -/
inductive Call (Λ ρ : Type) where
  | idle
  | running (began : Nat) (here : Λ)
  | done (began ended : Nat) (result : ρ)

/-- The shared state and all calls; `now` counts the steps. -/
structure System (σ Λ ρ : Type) where
  now : Nat
  shared : σ
  calls : Nat → Call Λ ρ

variable {κ σ Λ ρ : Type} {call : Call Λ ρ} {result : ρ} {there : Λ} {ended : Nat}

namespace System

variable (s : System σ Λ ρ)

/-- One step later, with another state of call `i` and of what is shared. -/
def set (i : Nat) (call : Call Λ ρ) (shared : σ) : System σ Λ ρ :=
  { now := s.now + 1, shared, calls := update s.calls i call }

/-- Call `i` is in progress, here. -/
def At (i : Nat) (here : Λ) : Prop := ∃ began, s.calls i = .running began here

/-- No call is in progress. -/
def Quiescent : Prop := ∀ i here, ¬ s.At i here

/-- No other call holds a lock that this step of call `i` takes. -/
def Free (c : Component κ σ Λ ρ) (i : Nat) (here : Λ) (out : Λ ⊕ ρ) : Prop :=
  ∀ j there, j ≠ i → s.At j there → ∀ lock, c.needs here out lock → ¬ c.holds there lock

@[simp] theorem set_shared (i : Nat) (call : Call Λ ρ) (shared : σ) :
    (s.set i call shared).shared = shared := rfl

@[simp] theorem set_calls_self (i : Nat) (call : Call Λ ρ) (shared : σ) :
    (s.set i call shared).calls i = call := by
  show update s.calls i call i = call
  rw [update_self]

variable {i : Nat} {here : Λ} {shared : σ}

theorem set_calls_of_ne {j : Nat} (h : j ≠ i) (call : Call Λ ρ) (shared : σ) :
    (s.set i call shared).calls j = s.calls j := by
  show update s.calls i call j = s.calls j
  rw [update_of_ne h]

variable {s}

theorem at_set_of_ne {j : Nat} (h : j ≠ i) : (s.set i call shared).At j here ↔ s.At j here := by
  rw [At, At, set_calls_of_ne s h]

/-- The call that has moved is where it moved to. -/
theorem at_set_running {began : Nat} :
    (s.set i (.running began there) shared).At i here ↔ here = there := by
  rw [At, set_calls_self]
  constructor
  · rintro ⟨b, hb⟩
    exact ((Call.running.inj hb).2).symm
  · rintro rfl
    exact ⟨began, rfl⟩

theorem not_at_set_done {began : Nat} :
    ¬ (s.set i (.done began ended result) shared).At i here := by
  rw [At, set_calls_self]
  rintro ⟨b, hb⟩
  cases hb

theorem At.unique (h : s.At i here) (h' : s.At i there) : here = there := by
  obtain ⟨b, hb⟩ := h
  obtain ⟨b', hb'⟩ := h'
  rw [hb] at hb'
  exact (Call.running.inj hb').2

end System

/-- The call after a step, where the step leads. -/
def Call.next (began now : Nat) : Λ ⊕ ρ → Call Λ ρ
  | .inl there => .running began there
  | .inr result => .done began now result

/-- When a call began. -/
def Call.began : Call Λ ρ → Option Nat
  | idle => none
  | running began _ => some began
  | done began _ _ => some began

theorem Call.began_next (began now : Nat) (out : Λ ⊕ ρ) :
    (Call.next began now out).began = some began := by
  cases out <;> rfl

variable {i : Nat} {s : System σ Λ ρ} {shared : σ} {J : Nat → Λ → Prop} {here : Λ}

/-- The call that has taken a step is in progress if the step leads on. -/
theorem System.at_set_next {began now : Nat} {out : Λ ⊕ ρ} :
    (s.set i (.next began now out) shared).At i there ↔ out = .inl there := by
  cases out with
  | inl next =>
    rw [Call.next, System.at_set_running, Sum.inl.injEq]
    exact eq_comm
  | inr result => simp [Call.next, System.not_at_set_done]

/-- What holds of the call that has moved and of all others holds of every call. -/
theorem System.forall_at_set (hself : ∀ there, (s.set i call shared).At i there → J i there)
    (hothers : ∀ j there, j ≠ i → s.At j there → J j there) :
    ∀ j there, (s.set i call shared).At j there → J j there := by
  intro j there hj
  by_cases hji : j = i
  · subst hji
    exact hself there hj
  · exact hothers j there hji ((System.at_set_of_ne hji).mp hj)

theorem System.not_at_of_idle (h : s.calls i = .idle) : ¬ s.At i here := by
  rintro ⟨began, hi⟩
  rw [h] at hi
  cases hi

/-- Some call in progress has the property. -/
abbrev System.Any (s : System σ Λ ρ) (J : Λ → Prop) : Prop := ∃ j there, s.At j there ∧ J there

namespace System.Any

variable {J : Λ → Prop} {began now : Nat} {out : Λ ⊕ ρ}

theorem move (h : J there) : (s.set i (.next began now (.inl there)) shared).Any J :=
  ⟨i, there, at_set_next.mpr rfl, h⟩

variable (h : s.Any J)
include h

/-- A call with a property is still there, if the one that has moved is or did not have
it. -/
theorem set (hself : ∀ here, s.At i here → J here →
      ∃ there, (s.set i call shared).At i there ∧ J there) :
    (s.set i call shared).Any J := by
  obtain ⟨j, there, hj, hthere⟩ := h
  by_cases hji : j = i
  · subst hji
    obtain ⟨there, hat⟩ := hself there hj hthere
    exact ⟨j, there, hat⟩
  · exact ⟨j, there, (at_set_of_ne hji).mpr hj, hthere⟩

theorem start (hidle : s.calls i = .idle) : (s.set i call shared).Any J :=
  h.set fun _ hat => absurd hat (not_at_of_idle hidle)

theorem keep (hat : s.At i here) (hnot : ¬ J here) : (s.set i call shared).Any J :=
  h.set fun _ hother hin => absurd (hat.unique hother ▸ hin) hnot

theorem next (hat : s.At i here) (hself : J here → ∃ there, out = .inl there ∧ J there) :
    (s.set i (.next began now out) shared).Any J := by
  refine h.set fun other hother hin => ?_
  obtain ⟨there, hout, hthere⟩ := hself (hat.unique hother ▸ hin)
  exact ⟨there, at_set_next.mpr hout, hthere⟩

end System.Any

/-- Whatever `p` shows of a call in progress has the property `P`. -/
def System.Shows {γ : Type} (s : System σ Λ ρ) (p : Λ → Option γ) (P : Nat → γ → Prop) : Prop :=
  ∀ i here, s.At i here → ∀ a, p here = some a → P i a

namespace System.Shows

variable {γ : Type} {i began now : Nat} {here there : Λ} {out : Λ ⊕ ρ} {p : Λ → Option γ}
  {P Q : Nat → γ → Prop} (h : s.Shows p P)
include h

variable (hmono : ∀ j a, P j a → Q j a)
include hmono

/-- A call that shows nothing begins. -/
theorem start (hnone : p here = none) : (s.set i (.running began here) shared).Shows p Q := by
  refine System.forall_at_set (fun other hother a ha => ?_)
    fun j other _ hj a ha => hmono j a (h j other hj a ha)
  rw [System.at_set_running.mp hother, hnone] at ha
  cases ha

/-- A call takes a step and then shows something good, or nothing. -/
theorem next (hself : ∀ there, out = .inl there → ∀ a, p there = some a → Q i a) :
    (s.set i (.next began now out) shared).Shows p Q :=
  System.forall_at_set (fun other hother => hself other (System.at_set_next.mp hother))
    fun j other _ hj a ha => hmono j a (h j other hj a ha)

theorem next_none (hnone : ∀ there, out = .inl there → p there = none) :
    (s.set i (.next began now out) shared).Shows p Q := by
  refine h.next hmono fun other hother a ha => ?_
  rw [hnone other hother] at ha
  cases ha

theorem done : (s.set i (.next began now (.inr result)) shared).Shows p Q := by
  refine h.next_none hmono ?_
  rintro _ ⟨⟩

theorem move_none (hnone : p there = none) :
    (s.set i (.next began now (.inl there)) shared).Shows p Q := by
  refine h.next_none hmono ?_
  rintro _ ⟨⟩
  exact hnone

theorem move_some {a : γ}
    (hthere : p there = some a) (ha : Q i a) :
    (s.set i (.next began now (.inl there)) shared).Shows p Q := by
  refine h.next hmono fun other hother b hb => ?_
  rw [← Sum.inl.inj hother, hthere] at hb
  exact Option.some.inj hb ▸ ha

/-- It shows what it has shown before. -/
theorem next_same (hat : s.At i here) (hsame : ∀ there, out = .inl there → p there = p here) :
    (s.set i (.next began now out) shared).Shows p Q :=
  h.next hmono fun other hother a ha => hmono i a (h i here hat a (hsame other hother ▸ ha))

omit hmono

omit h

/-- The others show nothing. -/
theorem of_others (hothers : ∀ j other, j ≠ i → s.At j other → p other = none)
    (hself : ∀ there, out = .inl there → ∀ a, p there = some a → Q i a) :
    (s.set i (.next began now out) shared).Shows p Q := by
  refine System.forall_at_set (fun other hother => hself other (System.at_set_next.mp hother))
    fun j other hne hj a ha => ?_
  rw [hothers j other hne hj] at ha
  cases ha

end System.Shows

theorem System.not_at_of_done {began : Nat}
    (h : s.calls i = .done began ended result) : ¬ s.At i here := by
  rintro ⟨b, hi⟩
  rw [h] at hi
  cases hi

theorem System.forall_running_of_idle (h : s.calls i = .idle) :
    ∀ began here, s.calls i = .running began here → J began here := by
  intro began here hcall
  rw [h] at hcall
  cases hcall

theorem System.forall_running {began : Nat} (h : s.calls i = .running began here)
    (hJ : J began here) : ∀ began here, s.calls i = .running began here → J began here := by
  intro b there hcall
  obtain ⟨rfl, rfl⟩ := Call.running.inj (h.symm.trans hcall)
  exact hJ

/-- One step of the system. -/
inductive Step (c : Component κ σ Λ ρ) : System σ Λ ρ → System σ Λ ρ → Prop where
  | start {s : System σ Λ ρ} {i : Nat} {here : Λ} (hidle : s.calls i = .idle)
      (hstart : c.starts here) : Step c s (s.set i (.running s.now here) s.shared)
  | act {s i began here out shared} (hcall : s.calls i = .running began here)
      (hfree : s.Free c i here out)
      (hact : c.act i s.now here s.shared out shared) :
      Step c s (s.set i (.next began s.now out) shared)
  | environment {s : System σ Λ ρ} {shared : σ} (h : c.environment s.shared shared) :
      Step c s { s with now := s.now + 1, shared }

/-- Runs whose steps all satisfy `ok`. -/
inductive Reaches (c : Component κ σ Λ ρ) (ok : System σ Λ ρ → System σ Λ ρ → Prop)
    (s : System σ Λ ρ) : System σ Λ ρ → Prop where
  | refl : Reaches c ok s s
  | tail {t u} (h : Reaches c ok s t) (hstep : Step c t u) (hok : ok t u) :
      Reaches c ok s u

variable {c : Component κ σ Λ ρ} {ok ok' : System σ Λ ρ → System σ Λ ρ → Prop}
  {s t u : System σ Λ ρ}

/-- What holds at first and is kept by every step holds in every state reached. -/
theorem Reaches.invariant {I : System σ Λ ρ → Prop} (h : Reaches c ok s t) (hs : I s)
    (hstep : ∀ t u, I t → Step c t u → ok t u → I u) : I t := by
  induction h with
  | refl => exact hs
  | tail _ hnext hok ih => exact hstep _ _ ih hnext hok

theorem Reaches.mono (h : Reaches c ok s t)
    (hok : ∀ t u, ok t u → ok' t u) : Reaches c ok' s t := by
  induction h with
  | refl => exact .refl
  | tail _ hstep hnext ih => exact ih.tail hstep (hok _ _ hnext)

/-! ## Locks -/

/-- No lock is held by two calls. -/
def Exclusive (c : Component κ σ Λ ρ) (s : System σ Λ ρ) : Prop :=
  ∀ i j here there, i ≠ j → s.At i here → s.At j there → ∀ lock, c.holds here lock →
    ¬ c.holds there lock

theorem System.Quiescent.exclusive (h : s.Quiescent) : Exclusive c s :=
  fun i _ here _ _ hi => absurd hi (h i here)

/-- While a call holds a lock, no other one shows what only a holder shows. -/
theorem Exclusive.others (h : Exclusive c s) {γ : Type} {p : Λ → Option γ} {lock : κ}
    (hp : ∀ there a, p there = some a → c.holds there lock) (hat : s.At i here)
    (hheld : c.holds here lock) (j : Nat) (there : Λ) (hne : j ≠ i) (hj : s.At j there) :
    p there = none :=
  Option.eq_none_iff_forall_ne_some.mpr fun a ha =>
    h i j here there hne.symm hat hj lock hheld (hp there a ha)

/-- A call that takes a step gets only locks that no other call holds. -/
theorem Exclusive.of_move (h : Exclusive c s)
    (hmove : ∀ there, (s.set i call shared).At i there → ∀ lock, c.holds there lock →
      ∀ j other, j ≠ i → s.At j other → ¬ c.holds other lock) :
    Exclusive c (s.set i call shared) := by
  intro j k here there hne hj hk lock hheld hheld'
  by_cases hji : j = i
  · subst hji
    exact hmove here hj lock hheld k there hne.symm
      ((System.at_set_of_ne hne.symm).mp hk) hheld'
  · have hj' := (System.at_set_of_ne hji).mp hj
    by_cases hki : k = i
    · subst hki
      exact hmove there hk lock hheld' j here hji hj' hheld
    · exact h j k here there hne hj' ((System.at_set_of_ne hki).mp hk) lock hheld hheld'

theorem Exclusive.step (h : Exclusive c s) (hstep : Step c s t) : Exclusive c t := by
  cases hstep with
  | start hidle hstart =>
    refine h.of_move fun there hthere lock hheld => ?_
    rw [System.at_set_running] at hthere
    exact absurd hheld (hthere ▸ c.starts_free hstart lock)
  | @act i began here out shared hcall hfree hact =>
    refine h.of_move fun there hthere lock hheld j other hji hj hheld' => ?_
    cases out with
    | inl next =>
      obtain rfl := System.at_set_running.mp hthere
      rcases c.acquired hact lock hheld with hhere | hneeds
      · exact h i j here other hji.symm ⟨began, hcall⟩ hj lock hhere hheld'
      · exact hfree j other hji hj lock hneeds hheld'
    | inr result => exact System.not_at_set_done hthere
  | environment henv => exact h

/-! ## Runs step by step -/

/-- A run to `t`, in which no call but `i` holds a lock now. -/
structure Going (c : Component κ σ Λ ρ) (ok : System σ Λ ρ → System σ Λ ρ → Prop)
    (s : System σ Λ ρ) (i : Nat) (t : System σ Λ ρ) : Prop where
  reach : Reaches c ok s t
  alone : ∀ j there, j ≠ i → t.At j there → ∀ lock, ¬ c.holds there lock

namespace Going

variable {i j began : Nat} {out : Λ ⊕ ρ}

theorem refl (h : s.Quiescent) : Going c ok s i s :=
  ⟨.refl, fun j there _ hj => absurd hj (h j there)⟩

variable (h : Going c ok s i t)
include h

theorem mono (hok : ∀ t u, ok t u → ok' t u) : Going c ok' s i t :=
  ⟨h.reach.mono hok, h.alone⟩

/-- Call `i` begins. -/
theorem begin (here : Λ) (hidle : t.calls i = .idle)
    (hstart : c.starts here) (hok : ok t (t.set i (.running t.now here) t.shared)) :
    Going c ok s i (t.set i (.running t.now here) t.shared) :=
  ⟨h.reach.tail (.start hidle hstart) hok,
    fun j there hne hj => h.alone j there hne ((System.at_set_of_ne hne).mp hj)⟩

/-- It takes a step. -/
theorem go (hcall : t.calls i = .running began here) (hact : c.act i t.now here t.shared out shared)
    (hok : ok t (t.set i (.next began t.now out) shared)) :
    Going c ok s i (t.set i (.next began t.now out) shared) :=
  ⟨h.reach.tail (.act hcall (fun j there hne hj lock _ => h.alone j there hne hj lock) hact) hok,
    fun j there hne hj => h.alone j there hne ((System.at_set_of_ne hne).mp hj)⟩

/-- It is another one's turn, where this one holds no lock, -/
theorem turn (hcall : t.calls i = .running began here)
    (hfree : ∀ lock, ¬ c.holds here lock) (j : Nat) : Going c ok s j t := by
  refine ⟨h.reach, fun k there _ hk => ?_⟩
  by_cases hki : k = i
  · subst hki
    rw [System.At.unique hk ⟨began, hcall⟩]
    exact hfree
  · exact h.alone k there hki hk

/-- or has returned. -/
theorem turn_done (hdone : t.calls i = .done began ended result) (j : Nat) : Going c ok s j t := by
  refine ⟨h.reach, fun k there _ hk => ?_⟩
  by_cases hki : k = i
  · subst hki
    exact absurd hk (System.not_at_of_done hdone)
  · exact h.alone k there hki hk

end Going

/-! ## Times -/

theorem Step.now_eq (h : Step c s t) : t.now = s.now + 1 := by
  cases h <;> rfl

/-- How one step changes a call: not at all, it begins, or it goes on. -/
theorem Step.call_cases (h : Step c s t) (i : Nat) :
    t.calls i = s.calls i ∨
    (∃ here, s.calls i = .idle ∧ t.calls i = .running s.now here) ∨
    ∃ began here out, s.calls i = .running began here ∧ t.calls i = .next began s.now out := by
  cases h with
  | @start j here hidle hstart =>
    by_cases hij : i = j
    · subst hij
      exact .inr (.inl ⟨here, hidle, System.set_calls_self ..⟩)
    · exact .inl (System.set_calls_of_ne s hij _ _)
  | @act j began here out shared hcall hfree hact =>
    by_cases hij : i = j
    · subst hij
      exact .inr (.inr ⟨began, here, out, hcall, System.set_calls_self ..⟩)
    · exact .inl (System.set_calls_of_ne s hij _ _)
  | environment henv => exact .inl rfl

/-- A call that has begun by now had begun before, or is the one that begins. -/
theorem Step.began_cases (h : Step c s t) {began : Nat} (hi : (t.calls i).began = some began) :
    (s.calls i).began = some began ∨ s.calls i = .idle ∧ began = s.now := by
  rcases h.call_cases i with hsame | ⟨here, hidle, hrunning⟩ | ⟨b, here, out, hrunning, hnext⟩
  · exact .inl (hsame ▸ hi)
  · rw [hrunning] at hi
    exact .inr ⟨hidle, (Option.some.inj hi).symm⟩
  · rw [hnext, Call.began_next] at hi
    rw [hrunning]
    exact .inl hi

/-- A call that has returned had done so before, or returns just now. -/
theorem Step.done_cases (h : Step c s t) {began : Nat} (hi : t.calls i = .done began ended result) :
    s.calls i = .done began ended result ∨ ended = s.now := by
  rcases h.call_cases i with hsame | ⟨here, hidle, hrunning⟩ | ⟨b, here, out, hrunning, hnext⟩
  · exact .inl (hsame ▸ hi)
  · rw [hrunning] at hi
    cases hi
  · rw [hnext] at hi
    cases out with
    | inl there => cases hi
    | inr r => exact .inr (Call.done.inj hi).2.1.symm

/-- Calls began, and returned, before now. -/
structure Timed (s : System σ Λ ρ) : Prop where
  began : ∀ i began, (s.calls i).began = some began → began < s.now
  ended : ∀ i began ended result, s.calls i = .done began ended result → ended < s.now

theorem Timed.of_idle (h : ∀ i, s.calls i = .idle) : Timed s := by
  constructor
  · intro i began hi
    rw [h i] at hi
    cases hi
  · intro i began ended result hi
    rw [h i] at hi
    cases hi

theorem Timed.step (h : Timed s) (hstep : Step c s t) : Timed t := by
  constructor
  · intro i began hi
    rw [hstep.now_eq]
    rcases hstep.began_cases hi with hs | ⟨-, rfl⟩
    · exact Nat.lt_succ_of_lt (h.began i began hs)
    · exact Nat.lt_succ_self _
  · intro i began ended result hi
    rw [hstep.now_eq]
    rcases hstep.done_cases hi with hs | rfl
    · exact Nat.lt_succ_of_lt (h.ended i began ended result hs)
    · exact Nat.lt_succ_self _

end Clyntis.Lib
