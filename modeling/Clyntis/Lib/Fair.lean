import Mathlib.Data.Nat.Init
import Mathlib.Logic.Relation

/-!
# Fair traces

Infinite runs of a step relation in which every step may also be a pause, and what
must happen in them.

- `IsTrace`, `Enabled`, `WeakFair`, `StrongFair`;
- `IsTrace.unless`: a property that only ends in another lasts, or ends in it;
- `WeakFair.leadsTo`, `StrongFair.leadsTo`: an action that is enabled all along, or
  again and again, happens;
- `exists_trace`: a finite run as a trace that then pauses for ever.
-/

namespace Clyntis.Lib

variable {σ : Type} {step : σ → σ → Prop}

/-- An infinite run with pauses. -/
def IsTrace (step : σ → σ → Prop) (ρ : Nat → σ) : Prop :=
  ∀ i, ρ (i + 1) = ρ i ∨ step (ρ i) (ρ (i + 1))

/-- The action is possible. -/
def Enabled (action : σ → σ → Prop) (s : σ) : Prop := ∃ s', action s s'

/-- An action that is possible from some point on happens after it. -/
def WeakFair (action : σ → σ → Prop) (ρ : Nat → σ) : Prop :=
  ∀ i, (∀ j, i ≤ j → Enabled action (ρ j)) → ∃ j, i ≤ j ∧ action (ρ j) (ρ (j + 1))

/-- An action that is possible again and again after some point happens after it. -/
def StrongFair (action : σ → σ → Prop) (ρ : Nat → σ) : Prop :=
  ∀ i, (∀ j, i ≤ j → ∃ k, j ≤ k ∧ Enabled action (ρ k)) →
    ∃ j, i ≤ j ∧ action (ρ j) (ρ (j + 1))

variable {ρ : Nat → σ} {P Q : σ → Prop} {i : Nat} {action : σ → σ → Prop}

theorem IsTrace.runs (h : IsTrace step ρ) {j : Nat} (hij : i ≤ j) :
    Relation.ReflTransGen step (ρ i) (ρ j) := by
  induction j, hij using Nat.le_induction with
  | base => exact .refl
  | succ j _ ih =>
    rcases h j with hsame | hstep
    · rwa [hsame]
    · exact ih.tail hstep

/-- A property that a step can only turn into `Q` lasts, or `Q` comes. -/
theorem IsTrace.unless (h : IsTrace step ρ) (hPQ : ∀ s s', P s → step s s' → P s' ∨ Q s')
    (hi : P (ρ i)) : (∃ j, i ≤ j ∧ Q (ρ j)) ∨ ∀ j, i ≤ j → P (ρ j) := by
  by_cases hQ : ∃ j, i ≤ j ∧ Q (ρ j)
  · exact .inl hQ
  · right
    intro j hij
    induction j, hij using Nat.le_induction with
    | base => exact hi
    | succ j hij ih =>
      rcases h j with hsame | hstep
      · rwa [hsame]
      · refine (hPQ _ _ ih hstep).resolve_right ?_
        intro hq
        exact hQ ⟨j + 1, by omega, hq⟩

/-- A property that steps keep lasts. -/
theorem IsTrace.stable (h : IsTrace step ρ) (hP : ∀ s s', P s → step s s' → P s') (hi : P (ρ i))
    {j : Nat} (hij : i ≤ j) : P (ρ j) := by
  rcases h.unless (Q := fun _ => False) (fun s s' hs hstep => .inl (hP s s' hs hstep)) hi with
    ⟨_, _, hfalse⟩ | hall
  · exact hfalse.elim
  · exact hall j hij

/-- While `P` lasts the action is possible, and it ends in `Q`: `Q` comes. -/
theorem WeakFair.leadsTo (hfair : WeakFair action ρ) (h : IsTrace step ρ)
    (hPQ : ∀ s s', P s → step s s' → P s' ∨ Q s') (henabled : ∀ s, P s → Enabled action s)
    (hact : ∀ s s', P s → action s s' → Q s') (hi : P (ρ i)) : ∃ j, i ≤ j ∧ Q (ρ j) := by
  rcases h.unless hPQ hi with hQ | hall
  · exact hQ
  · obtain ⟨j, hij, hj⟩ := hfair i fun j hij => henabled _ (hall j hij)
    exact ⟨j + 1, by omega, hact _ _ (hall j hij) hj⟩

/-- The action is possible again and again unless `P` ends, and it ends in `Q`: `Q` comes. -/
theorem StrongFair.leadsTo (hfair : StrongFair action ρ) (h : IsTrace step ρ)
    (hPQ : ∀ s s', P s → step s s' → P s' ∨ Q s')
    (henabled : ∀ j, P (ρ j) → ∃ k, j ≤ k ∧ (P (ρ k) → Enabled action (ρ k)))
    (hact : ∀ s s', P s → action s s' → Q s') (hi : P (ρ i)) : ∃ j, i ≤ j ∧ Q (ρ j) := by
  rcases h.unless hPQ hi with hQ | hall
  · exact hQ
  · obtain ⟨j, hij, hj⟩ := hfair i fun j hij =>
      (henabled j (hall j hij)).imp fun k hk => ⟨hk.1, hk.2 (hall k (by omega))⟩
    exact ⟨j + 1, by omega, hact _ _ (hall j hij) hj⟩

/-! ## Finite runs as traces -/

/-- A finite run, and then its last state for ever. -/
theorem exists_trace {s s' : σ} (h : Relation.ReflTransGen step s s') :
    ∃ ρ N, ρ 0 = s ∧ IsTrace step ρ ∧ ∀ j, N ≤ j → ρ j = s' := by
  induction h using Relation.ReflTransGen.head_induction_on with
  | refl => exact ⟨fun _ => s', 0, rfl, fun _ => .inl rfl, fun _ _ => rfl⟩
  | @head s t hst _ ih =>
    obtain ⟨ρ, N, h0, htrace, hlast⟩ := ih
    refine ⟨fun i => i.casesOn s ρ, N + 1, rfl, ?_, ?_⟩
    · intro i
      cases i with
      | zero =>
        right
        show step s (ρ 0)
        rwa [h0]
      | succ i => exact htrace i
    · intro j hj
      cases j with
      | zero => omega
      | succ j => exact hlast j (by omega)

/-- A trace that stays where the action is impossible is fair to it. -/
theorem StrongFair.of_last {s : σ} {N : Nat} (hlast : ∀ j, N ≤ j → ρ j = s)
    (hs : ¬ Enabled action s) : StrongFair action ρ := by
  intro i hi
  obtain ⟨k, hk, henabled⟩ := hi (max i N) (Nat.le_max_left _ _)
  rw [hlast k (by omega)] at henabled
  exact absurd henabled hs

theorem StrongFair.weakFair (h : StrongFair action ρ) : WeakFair action ρ :=
  fun i hi => h i fun j hij => ⟨j, Nat.le_refl j, hi j hij⟩

end Clyntis.Lib
