import Clyntis.Lib.Exec

/-!
# State-passing handlers and what they keep

An event handler works on a state and may panic: `Handler σ α`. `Finishes R m`
says that `m` returns from every state, and relates the state before to the state
after by `R`. For a reflexive and transitive `R` (`Keeping R`) the rules below
carry `Finishes` through sequencing, branching and loops, so the frame condition
of a handler is assembled from those of its parts without unfolding them.
-/

namespace Clyntis.Lib

variable {σ α β : Type}

/-- A handler on the state `σ`. -/
abbrev Handler (σ α : Type) : Type := StateT σ Exec α

namespace Handler

/-- The run of a sequence whose first part returned. -/
theorem bind_ok {m : Handler σ α} {f : α → Handler σ β} {s t : σ} {a : α}
    (h : m s = .ok (a, t)) : (m >>= f) s = f a t := by
  change (m s >>= fun p => f p.1 p.2) = _
  rw [h]
  rfl

/-- A sequence that returned, taken apart. -/
theorem bind_inv {m : Handler σ α} {f : α → Handler σ β} {s : σ} {r : β × σ}
    (h : (m >>= f) s = .ok r) : ∃ a s', m s = .ok (a, s') ∧ f a s' = .ok r := by
  change (m s >>= fun p => f p.1 p.2) = .ok r at h
  cases hm : m s with
  | error p => rw [hm] at h; cases h
  | ok p => rw [hm] at h; exact ⟨p.1, p.2, rfl, h⟩

end Handler

/-- `m` returns from every state, with the states before and after related. -/
def Finishes (R : σ → σ → Prop) (m : Handler σ α) : Prop :=
  ∀ s, ∃ a s', m s = .ok (a, s') ∧ R s s'

/-- A relation that holds of doing nothing and of doing one thing after another. -/
structure Keeping (R : σ → σ → Prop) : Prop where
  refl : ∀ s, R s s
  trans : ∀ {s t u}, R s t → R t u → R s u

/-- Keeping the value of a projection. -/
theorem Keeping.eqOn {γ : Type} (f : σ → γ) : Keeping fun s s' : σ => f s' = f s :=
  ⟨fun _ => rfl, fun h₁ h₂ => h₂.trans h₁⟩

namespace Finishes

variable {R : σ → σ → Prop}

theorem pure (hR : Keeping R) (a : α) : Finishes R (Pure.pure a : Handler σ α) :=
  fun s => ⟨a, s, rfl, hR.refl s⟩

theorem get (hR : Keeping R) : Finishes R (MonadState.get : Handler σ σ) :=
  fun s => ⟨s, s, rfl, hR.refl s⟩

theorem modify {f : σ → σ} (hf : ∀ s, R s (f s)) :
    Finishes R (modify f : Handler σ PUnit) :=
  fun s => ⟨PUnit.unit, f s, rfl, hf s⟩

theorem bind (hR : Keeping R) {m : Handler σ α} {f : α → Handler σ β}
    (hm : Finishes R m) (hf : ∀ a, Finishes R (f a)) : Finishes R (m >>= f) := by
  intro s
  obtain ⟨a, s₁, hms, h₁⟩ := hm s
  obtain ⟨b, s₂, hfs, h₂⟩ := hf a s₁
  exact ⟨b, s₂, (Handler.bind_ok hms).trans hfs, hR.trans h₁ h₂⟩

/-- A loop over a list keeps what its body keeps. -/
theorem forM (hR : Keeping R) {f : β → Handler σ PUnit} (hf : ∀ b, Finishes R (f b)) :
    ∀ l : List β, Finishes R (l.forM f)
  | [] => pure hR PUnit.unit
  | b :: l => bind hR (hf b) fun _ => forM hR hf l

end Finishes

end Clyntis.Lib
