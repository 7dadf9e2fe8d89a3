import Clyntis.Lib.Calls

/-!
# Removing what earlier calls have left

Calls leave things behind that later calls use: answers in a cache, connections in a pool.
Some calls remove them all, so that a call that begins after such a one has returned uses
nothing whose making began before it did.

- `Sweep`: what is there, who uses it, and which calls have removed it;
- `Sweep.Kept`: what a step has to respect, and `Sweep.kept_of_set` for a step of one call;
- `Sweep.Inv.step`, `Sweep.not_old`: then nothing old is used;
- `Sweep.ofCalls`: things that are known by the call that made them.
-/

namespace Clyntis.Lib

variable {κ σ Λ ρ : Type} {shared : σ} {call : Call Λ ρ}

/-- Things that calls leave behind, each known by the step at which its making began. -/
structure Sweep (σ Λ ρ : Type) where
  /-- a thing is there -/
  present : System σ Λ ρ → (began : Nat) → Prop
  /-- a call in this state uses a thing -/
  uses : System σ Λ ρ → Call Λ ρ → (began : Nat) → Prop
  /-- a call in this state has removed all that was there -/
  swept : Call Λ ρ → Prop
  not_uses_idle : ∀ s began, ¬ uses s .idle began
  not_swept_idle : ¬ swept .idle

namespace Sweep

variable {c : Component κ σ Λ ρ} {s t : System σ Λ ρ} {w : Sweep σ Λ ρ}

/-- What a step has to respect: a thing that comes up late must not be older than a call
that has removed all by then, a call that has removed all has done so, and what is used was
there or is new. -/
structure Kept (w : Sweep σ Λ ρ) (s t : System σ Λ ρ) : Prop where
  present : ∀ b, w.present t b → w.present s b ∨ s.now ≤ b ∨
    ∀ i began, (s.calls i).began = some began → w.swept (s.calls i) → began ≤ b
  swept : ∀ i, w.swept (t.calls i) → w.swept (s.calls i) ∨ ∀ b, ¬ w.present t b
  uses : ∀ q b, w.uses t (t.calls q) b → w.uses s (s.calls q) b ∨ w.present s b ∨ s.now ≤ b

/-- The same for a step of one call. -/
theorem kept_of_set {i : Nat}
    (hpresent : ∀ b, w.present (s.set i call shared) b → w.present s b ∨ s.now ≤ b ∨
      ∀ j began, (s.calls j).began = some began → w.swept (s.calls j) → began ≤ b)
    (hswept : w.swept call → w.swept (s.calls i) ∨ ∀ b, ¬ w.present (s.set i call shared) b)
    (huses : ∀ b, w.uses (s.set i call shared) call b →
      w.uses s (s.calls i) b ∨ w.present s b ∨ s.now ≤ b)
    (hothers : ∀ other b, w.uses (s.set i call shared) other b →
      w.uses s other b ∨ w.present s b ∨ s.now ≤ b) :
    w.Kept s (s.set i call shared) := by
  refine ⟨hpresent, fun j hj => ?_, fun q b hq => ?_⟩
  · by_cases hji : j = i
    · subst hji
      rw [System.set_calls_self] at hj
      exact hswept hj
    · rw [System.set_calls_of_ne s hji] at hj
      exact .inl hj
  · by_cases hqi : q = i
    · subst hqi
      rw [System.set_calls_self] at hq
      exact huses b hq
    · rw [System.set_calls_of_ne s hqi] at hq
      exact hothers _ b hq

/-- Nothing is there that is older than a call that has removed all, and no call that began
after such a one has returned uses anything older. -/
structure Inv (w : Sweep σ Λ ρ) (s : System σ Λ ρ) : Prop where
  timed : Timed s
  present : ∀ b, w.present s b → ∀ i began, (s.calls i).began = some began →
    w.swept (s.calls i) → began ≤ b
  uses : ∀ q b, w.uses s (s.calls q) b → ∀ start, (s.calls q).began = some start →
    ∀ i began ended result, s.calls i = .done began ended result →
      w.swept (.done began ended result) → ended < start → began ≤ b

/-- Before any call. -/
theorem inv_of_idle (h : ∀ i, s.calls i = .idle) : w.Inv s := by
  refine ⟨.of_idle h, fun b _ i began hi _ => ?_, fun q b hq => ?_⟩
  · rw [h i] at hi
    cases hi
  · rw [h q] at hq
    exact absurd hq (w.not_uses_idle s b)

theorem Inv.step (h : w.Inv s) (hstep : Step c s t) (hkept : w.Kept s t) : w.Inv t := by
  have htimed := h.timed.step hstep
  refine ⟨htimed, fun b hb i began hi hswept => ?_,
    fun q b hq start hstart i began ended result hdone hswept hlt => ?_⟩
  · rcases hkept.swept i hswept with hswept | hnone
    · rcases hstep.began_cases hi with hi | ⟨hidle, -⟩
      · rcases hkept.present b hb with hold | hnew | hlate
        · exact h.present b hold i began hi hswept
        · exact Nat.le_of_lt (Nat.lt_of_lt_of_le (h.timed.began i began hi) hnew)
        · exact hlate i began hi hswept
      · exact absurd (hidle ▸ hswept) w.not_swept_idle
    · exact absurd hb (hnone b)
  · rcases hstep.done_cases hdone with hdone | rfl
    · have hi : (s.calls i).began = some began := by
        rw [hdone]
        rfl
      rcases hkept.uses q b hq with hold | hpresent | hnew
      · rcases hstep.began_cases hstart with hstart | ⟨hidle, -⟩
        · exact h.uses q b hold start hstart i began ended result hdone hswept hlt
        · exact absurd (hidle ▸ hold) (w.not_uses_idle s b)
      · exact h.present b hpresent i began hi (hdone ▸ hswept)
      · exact Nat.le_of_lt (Nat.lt_of_lt_of_le (h.timed.began i began hi) hnew)
    · -- it returns just now, so no call can have begun after that
      have hnow := htimed.began q start hstart
      rw [hstep.now_eq] at hnow
      omega

/-- In a run whose steps all respect it, a call that began after one has removed all uses
nothing whose making began before that one did. -/
theorem not_old {ok : System σ Λ ρ → System σ Λ ρ → Prop} (hreach : Reaches c ok s t)
    (hs : ∀ i, s.calls i = .idle)
    (hkept : ∀ u v, Reaches c ok s u → Step c u v → ok u v → w.Kept u v)
    {i q began ended start b : Nat} {result : ρ} (hdone : t.calls i = .done began ended result)
    (hswept : w.swept (.done began ended result)) (hq : (t.calls q).began = some start)
    (hafter : ended < start) (hold : b < began) : ¬ w.uses t (t.calls q) b := by
  intro huses
  have hinv : w.Inv t := by
    clear huses hq hdone
    induction hreach with
    | refl => exact inv_of_idle hs
    | @tail u v hu hstep hok ih => exact ih.step hstep (hkept u v hu hstep hok)
  have hle := hinv.uses q b huses start hq i began ended result hdone hswept hafter
  omega

/-! ## Things known by the call that made them -/

section

variable {tagged : σ → Nat → Prop} {taken : Call Λ ρ → Nat → Prop} {swept : Call Λ ρ → Prop}
  {htaken : ∀ maker, ¬ taken .idle maker} {hswept : ¬ swept .idle}

/-- Each thing is known by the call that made it, and its making began with that call. -/
def ofCalls (tagged : σ → Nat → Prop) (taken : Call Λ ρ → Nat → Prop)
    (swept : Call Λ ρ → Prop) (htaken : ∀ maker, ¬ taken .idle maker) (hswept : ¬ swept .idle) :
    Sweep σ Λ ρ where
  present s b := ∃ maker, tagged s.shared maker ∧ (s.calls maker).began = some b
  uses s call b := ∃ maker, taken call maker ∧ (s.calls maker).began = some b
  swept := swept
  not_uses_idle _ _ := fun ⟨maker, htook, _⟩ => htaken maker htook
  not_swept_idle := hswept

/-- A step of one call. -/
theorem kept_ofCalls {i : Nat} (hstep : Step c s (s.set i call shared))
    (hpresent : ∀ maker, tagged shared maker → tagged s.shared maker ∨ maker = i ∧
      ∀ b, (s.calls i).began = some b →
        ∀ j began, (s.calls j).began = some began → swept (s.calls j) → began ≤ b)
    (hclears : swept call → swept (s.calls i) ∨ ∀ maker, ¬ tagged shared maker)
    (huses : ∀ maker, taken call maker → taken (s.calls i) maker ∨ tagged s.shared maker) :
    (ofCalls tagged taken swept htaken hswept).Kept s (s.set i call shared) := by
  refine kept_of_set ?_ (fun hcall => (hclears hcall).imp_right ?_) ?_ ?_
  · rintro b ⟨maker, htag, hb⟩
    rcases hstep.began_cases hb with hbegan | ⟨-, rfl⟩
    · rcases hpresent maker htag with htag | ⟨rfl, hlate⟩
      · exact .inl ⟨maker, htag, hbegan⟩
      · exact .inr (.inr (hlate b hbegan))
    · exact .inr (.inl (Nat.le_refl _))
  · rintro hnone b ⟨maker, htag, -⟩
    exact hnone maker htag
  · rintro b ⟨maker, htook, hb⟩
    rcases hstep.began_cases hb with hb | ⟨-, rfl⟩
    · exact (huses maker htook).imp (fun htook => ⟨maker, htook, hb⟩)
        fun htag => .inl ⟨maker, htag, hb⟩
    · exact .inr (.inr (Nat.le_refl _))
  · rintro other b ⟨maker, htook, hb⟩
    rcases hstep.began_cases hb with hb | ⟨-, rfl⟩
    · exact .inl ⟨maker, htook, hb⟩
    · exact .inr (.inr (Nat.le_refl _))

/-- A step outside of all calls that leaves nothing behind. -/
theorem kept_ofCalls_environment (hpresent : ∀ maker, tagged shared maker → tagged s.shared maker) :
    (ofCalls tagged taken swept htaken hswept).Kept s { s with now := s.now + 1, shared } :=
  ⟨fun _ ⟨maker, htag, hb⟩ => .inl ⟨maker, hpresent maker htag, hb⟩, fun _ => .inl,
    fun _ _ => .inl⟩

end

end Sweep

end Clyntis.Lib
