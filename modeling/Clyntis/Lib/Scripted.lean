import Mathlib.Tactic.Common

/-!
# Programs that can be interrupted

Code that writes to disk or to the system may fail at every operation, and the process
may end between any two of them. A `Scripted ν σ ε α` runs on the state `σ` and asks the
environment, whose answers `ν` are given in advance as a script, how each operation goes.
A script is one way things can go wrong; a statement about all scripts is one about all
of them.

- `Ending`: a run returns, returns an error, or is cut off by a crash;
- `Triple P m Q E C`: from `P`, whatever the script, `m` returns in `Q`, fails in `E` or
  is cut off in `C`; one rule for each way to build a program;
- `Keeps I D P m Q`: the triple of a program with an invariant `I`, of which a crash
  leaves `D`;
- `Verdict`, `operation`: an operation that is done, fails or is cut off, the last two
  possibly after a part of its effect.
-/

namespace Clyntis.Lib

open List

variable {ν σ τ ε α β : Type} {a : α} {e : ε} {r : Except ε α}

/-- How a run ends; `rest` is the part of the script that was not used. -/
inductive Ending (ν σ ε α : Type) where
  | ok (a : α) (rest : List ν) (s : σ)
  | error (e : ε) (rest : List ν) (s : σ)
  | crashed (s : σ)

namespace Ending

/-- The state in which the run ended. -/
def state : Ending ν σ ε α → σ
  | ok _ _ s => s
  | error _ _ s => s
  | crashed s => s

/-- The value that was returned. -/
def value : Ending ν σ ε α → Option α
  | ok a _ _ => some a
  | error .. => none
  | crashed _ => none

/-- The error that was returned. -/
def failure : Ending ν σ ε α → Option ε
  | ok .. => none
  | error e _ _ => some e
  | crashed _ => none

variable {r : Ending ν σ ε α}

theorem eq_error_of_failure (h : r.failure = some e) : ∃ rest, r = error e rest r.state := by
  cases r with
  | ok | crashed => simp [failure] at h
  | error e' rest s =>
    obtain rfl : e' = e := Option.some.inj h
    exact ⟨rest, rfl⟩

theorem eq_ok_of_value (h : r.value = some a) : ∃ rest, r = ok a rest r.state := by
  cases r with
  | ok b rest s =>
    obtain rfl : b = a := Option.some.inj h
    exact ⟨rest, rfl⟩
  | error | crashed => simp [value] at h

/-- A run that returns a value, with a default in its place if it did not. -/
theorem eq_ok_of_isSome (h : r.value.isSome = true) (d : α) :
    ∃ rest, r = ok (r.value.getD d) rest r.state := by
  obtain ⟨a, ha⟩ := Option.isSome_iff_exists.mp h
  rw [ha]
  exact eq_ok_of_value ha

/-- Whether the process is still there. -/
def survived : Ending ν σ ε α → Bool
  | ok .. => true
  | error .. => true
  | crashed _ => false

/-- Goes on with `f` where the run returned. -/
def andThen (f : α → List ν → σ → Ending ν σ ε β) : Ending ν σ ε α → Ending ν σ ε β
  | ok a rest s => f a rest s
  | error e rest s => error e rest s
  | crashed s => crashed s

/-- The result of the run as a value. -/
def reify : Ending ν σ ε α → Ending ν σ ε (Except ε α)
  | ok a rest s => ok (.ok a) rest s
  | error e rest s => ok (.error e) rest s
  | crashed s => crashed s

/-- The same ending in another state. -/
def mapState (f : σ → τ) : Ending ν σ ε α → Ending ν τ ε α
  | ok a rest s => ok a rest (f s)
  | error e rest s => error e rest (f s)
  | crashed s => crashed (f s)

end Ending

/-- A program on the state `σ` with errors `ε`, run against a script of answers. -/
def Scripted (ν σ ε α : Type) : Type := List ν → σ → Ending ν σ ε α

variable {f : β → Scripted ν σ ε α} {m₁ : Scripted ν σ ε β} {m : Scripted ν σ ε α}
  {Q : α → σ → Prop} {P' : σ → Prop} {Q' : α → σ → Prop} {R : β → σ → Prop}

namespace Scripted

instance : Monad (Scripted ν σ ε) where
  pure a := fun script s => .ok a script s
  bind m f := fun script s => (m script s).andThen f

/-- The present state. -/
def get : Scripted ν σ ε σ := fun script s => .ok s script s

/-- Changes the state. -/
def modify (f : σ → σ) : Scripted ν σ ε Unit := fun script s => .ok () script (f s)

/-- Returns an error. -/
def throw (e : ε) : Scripted ν σ ε α := fun script s => .error e script s

/-- The process is gone. -/
def crash : Scripted ν σ ε α := fun _ s => .crashed s

/-- The environment's next answer; past the end of the script, the default one. -/
def ask [Inhabited ν] : Scripted ν σ ε ν := fun script s => .ok (script.headD default) script.tail s

/-- Runs `m` and hands its error, if any, to the caller. -/
def attempt (m : Scripted ν σ ε α) : Scripted ν σ ε (Except ε α) :=
  fun script s => (m script s).reify

/-- `for x in l { f(x)? }`. -/
def forEach (f : β → Scripted ν σ ε Unit) : List β → Scripted ν σ ε Unit
  | [] => pure ()
  | x :: l => do
    f x
    forEach f l

/-- `for x in l { out.push(f(x)?) }`. -/
def collect (f : β → Scripted ν σ ε α) : List β → Scripted ν σ ε (List α)
  | [] => pure []
  | x :: l => do
    let a ← f x
    let rest ← collect f l
    pure (a :: rest)

/-- A result that was computed. -/
def ofExcept : Except ε α → Scripted ν σ ε α
  | .ok a => pure a
  | .error e => throw e

/-- A step that may fail. -/
def act (f : σ → Except ε α × σ) : Scripted ν σ ε α := fun script s =>
  match f s with
  | (.ok a, s) => .ok a script s
  | (.error e, s) => .error e script s

/-- A program on the first part of the state. -/
def onFst (m : Scripted ν σ ε α) : Scripted ν (σ × τ) ε α :=
  fun script s => (m script s.1).mapState (·, s.2)

section Inversion

variable {script rest : List ν} {s t : σ}

theorem bind_of_ok {b : β} (h : m₁ script s = .ok b rest t) : (m₁ >>= f) script s = f b rest t := by
  show (m₁ script s).andThen f = _
  rw [h]
  rfl

theorem get_bind {f : σ → Scripted ν σ ε α} : (get >>= f) script s = f s script s := rfl

theorem modify_bind {g : σ → σ} {f : Unit → Scripted ν σ ε α} :
    (modify g >>= f) script s = f () script (g s) := rfl

/-- A sequence fails in its first part, or in the second one. -/
theorem bind_eq_error (h : (m₁ >>= f) script s = .error e rest t) :
    m₁ script s = .error e rest t ∨
      ∃ b mid u, m₁ script s = .ok b mid u ∧ f b mid u = .error e rest t := by
  have hbind : (m₁ script s).andThen f = .error e rest t := h
  cases hm : m₁ script s with
  | ok b mid u =>
    rw [hm] at hbind
    exact .inr ⟨b, mid, u, rfl, hbind⟩
  | error e' mid u =>
    rw [hm] at hbind
    cases hbind
    exact .inl rfl
  | crashed u =>
    rw [hm] at hbind
    cases hbind

theorem bind_eq_ok (h : (m₁ >>= f) script s = .ok a rest t) :
    ∃ b mid u, m₁ script s = .ok b mid u ∧ f b mid u = .ok a rest t := by
  have hbind : (m₁ script s).andThen f = .ok a rest t := h
  cases hm : m₁ script s with
  | ok b mid u =>
    rw [hm] at hbind
    exact ⟨b, mid, u, rfl, hbind⟩
  | error | crashed =>
    rw [hm] at hbind
    cases hbind

/-- A part of the state is not touched. -/
theorem onFst_eq_error {s t : σ × τ}
    (h : onFst m script s = .error e rest t) : m script s.1 = .error e rest t.1 ∧ t.2 = s.2 := by
  unfold onFst at h
  cases hm : m script s.1 with
  | ok | crashed => rw [hm] at h; cases h
  | error e' mid u => rw [hm] at h; cases h; exact ⟨rfl, rfl⟩

theorem onFst_eq_ok {s t : σ × τ} (h : onFst m script s = .ok a rest t) :
    m script s.1 = .ok a rest t.1 ∧ t.2 = s.2 := by
  unfold onFst at h
  cases hm : m script s.1 with
  | ok a mid u => rw [hm] at h; cases h; exact ⟨rfl, rfl⟩
  | error | crashed => rw [hm] at h; cases h

theorem ofExcept_eq_ok (h : ofExcept r script s = .ok a rest t) : r = .ok a ∧ t = s := by
  cases r with
  | ok b => cases h; exact ⟨rfl, rfl⟩
  | error e' => cases h

theorem act_eq_error {f : σ → Except ε α × σ} (h : act f script s = .error e rest t) :
    f s = (.error e, t) := by
  unfold act at h
  split at h
  · cases h
  · next hf =>
    cases h
    exact hf

end Inversion

end Scripted

/-! ## What is returned -/

/-- The program can return this value. -/
def Scripted.MayReturn (m : Scripted ν σ ε α) (a : α) : Prop :=
  ∃ script s rest t, m script s = .ok a rest t

/-- Whatever the script, a value that is returned satisfies `Q`. -/
def Gives (m : Scripted ν σ ε α) (Q : α → Prop) : Prop :=
  ∀ script s a rest t, m script s = .ok a rest t → Q a

namespace Gives

open Scripted

variable {Q R : α → Prop}

theorem trivial : Gives m fun _ => True := fun _ _ _ _ _ _ => True.intro

theorem pure (h : Q a) : Gives (Pure.pure a : Scripted ν σ ε α) Q := by
  rintro script s _ _ _ ⟨⟩
  exact h

theorem throw : Gives (Scripted.throw e : Scripted ν σ ε α) Q := by
  rintro script s _ _ _ ⟨⟩

theorem bind {S : β → Prop} (hm : Gives m₁ S)
    (hf : ∀ b, S b → Gives (f b) Q) : Gives (m₁ >>= f) Q := by
  intro script s a rest t h
  obtain ⟨b, mid, u, hb, h⟩ := Scripted.bind_eq_ok h
  exact hf b (hm _ _ _ _ _ hb) _ _ _ _ _ h

/-- A sequence of which only the second part matters. -/
theorem after (hf : ∀ b, Gives (f b) Q) : Gives (m₁ >>= f) Q :=
  bind trivial fun b _ => hf b

theorem ofExcept (r : Except ε α) : Gives (Scripted.ofExcept r : Scripted ν σ ε α) (r = .ok ·) :=
  fun _ _ _ _ _ h => (ofExcept_eq_ok h).1

theorem attempt (h : Gives m Q) : Gives m.attempt fun r => ∀ a, r = .ok a → Q a := by
  intro script s r rest t hr a ha
  unfold Scripted.attempt at hr
  cases hm : m script s with
  | ok b mid u =>
    rw [hm] at hr
    cases hr
    cases ha
    exact h _ _ _ _ _ hm
  | error e mid u =>
    rw [hm] at hr
    cases hr
    cases ha
  | crashed u =>
    rw [hm] at hr
    cases hr

/-- A loop has a result for each element. -/
theorem collect {S : β → α → Prop} (hf : ∀ x, Gives (f x) (S x)) :
    ∀ l, Gives (Scripted.collect f l) (Forall₂ S l)
  | [] => pure .nil
  | x :: l => bind (hf x) fun _ ha => bind (collect hf l) fun _ hrest => pure (.cons ha hrest)

end Gives

/-! ## What holds at the end -/

/-- The ending satisfies the condition for its kind. -/
def Ending.Meets (Q : α → σ → Prop) (E : ε → σ → Prop) (C : σ → Prop) :
    Ending ν σ ε α → Prop
  | .ok a _ s => Q a s
  | .error e _ s => E e s
  | .crashed s => C s

/-- From `P`, whatever the script says: returned values and states satisfy `Q`, errors `E`,
and a crash leaves a state in `C`. -/
def Triple (P : σ → Prop) (m : Scripted ν σ ε α) (Q : α → σ → Prop) (E : ε → σ → Prop)
    (C : σ → Prop) : Prop :=
  ∀ script s, P s → (m script s).Meets Q E C

namespace Triple

open Scripted

variable {P P' : σ → Prop} {Q Q' : α → σ → Prop} {E E' : ε → σ → Prop} {C C' : σ → Prop}

/-- A triple with a stronger start and weaker ends. -/
theorem conseq (h : Triple P' m Q' E' C') (hP : ∀ s, P s → P' s) (hQ : ∀ a s, Q' a s → Q a s)
    (hE : ∀ e s, E' e s → E e s) (hC : ∀ s, C' s → C s) : Triple P m Q E C := by
  intro script s hs
  have hend := h script s (hP s hs)
  revert hend
  cases m script s with
  | ok a rest t => exact hQ a t
  | error e rest t => exact hE e t
  | crashed t => exact hC t

theorem pure (h : ∀ s, P s → Q a s) : Triple P (Pure.pure a : Scripted ν σ ε α) Q E C :=
  fun _ s hs => h s hs

theorem bind
    (hm : Triple P m₁ R E C) (hf : ∀ b, Triple (R b) (f b) Q E C) : Triple P (m₁ >>= f) Q E C := by
  intro script s hs
  have hend := hm script s hs
  show ((m₁ script s).andThen f).Meets Q E C
  revert hend
  cases m₁ script s with
  | ok b rest t => exact hf b rest t
  | error | crashed => exact id

theorem get {Q : σ → σ → Prop} (h : ∀ s, P s → Q s s) :
    Triple P (Scripted.get : Scripted ν σ ε σ) Q E C :=
  fun _ s hs => h s hs

theorem modify {f : σ → σ} {Q : Unit → σ → Prop} (h : ∀ s, P s → Q () (f s)) :
    Triple P (Scripted.modify f : Scripted ν σ ε Unit) Q E C :=
  fun _ s hs => h s hs

theorem throw (h : ∀ s, P s → E e s) : Triple P (Scripted.throw e : Scripted ν σ ε α) Q E C :=
  fun _ s hs => h s hs

theorem crash (h : ∀ s, P s → C s) : Triple P (Scripted.crash : Scripted ν σ ε α) Q E C :=
  fun _ s hs => h s hs

theorem ask [Inhabited ν] {Q : ν → σ → Prop} (h : ∀ v s, P s → Q v s) :
    Triple P (Scripted.ask : Scripted ν σ ε ν) Q E C :=
  fun _ s hs => h _ s hs

theorem attempt {Q : Except ε α → σ → Prop}
    (h : Triple P m (fun a => Q (.ok a)) (fun e => Q (.error e)) C) : Triple P m.attempt Q E C := by
  intro script s hs
  have hend := h script s hs
  show (m script s).reify.Meets Q E C
  revert hend
  cases m script s with
  | ok | error | crashed => exact id

/-- A loop: the invariant speaks of the elements still to come. -/
theorem forEach {f : β → Scripted ν σ ε Unit} (I : List β → σ → Prop)
    (hf : ∀ x l, Triple (I (x :: l)) (f x) (fun _ => I l) E C) :
    ∀ l, Triple (I l) (Scripted.forEach f l) (fun _ => I []) E C
  | [] => pure fun _ hs => hs
  | x :: l => bind (hf x l) fun _ => forEach I hf l

end Triple

/-! ## Keeping an invariant -/

/-- From `I` and `P`, `m` keeps `I`, also where it fails, and leaves `D` at a crash; what it
returns satisfies `Q`. -/
def Keeps (I D P : σ → Prop) (m : Scripted ν σ ε α) (Q : α → σ → Prop) : Prop :=
  Triple (fun s => I s ∧ P s) m (fun a s => I s ∧ Q a s) (fun _ => I) D

namespace Keeps

variable {I D P : σ → Prop}

theorem conseq (h : Keeps I D P' m Q')
    (hP : ∀ s, I s → P s → P' s) (hQ : ∀ a s, I s → Q' a s → Q a s) : Keeps I D P m Q :=
  Triple.conseq h (fun s hs => ⟨hs.1, hP s hs.1 hs.2⟩) (fun a s hs => ⟨hs.1, hQ a s hs.1 hs.2⟩)
    (fun _ _ he => he) (fun _ hc => hc)

/-- A stronger invariant, where it holds at the start. -/
theorem under {J : σ → Prop} (h : Keeps J D P' m Q')
    (hP : ∀ s, I s → P s → J s ∧ P' s) (hJ : ∀ s, J s → I s)
    (hQ : ∀ a s, J s → Q' a s → Q a s) : Keeps I D P m Q :=
  Triple.conseq h (fun s hs => hP s hs.1 hs.2) (fun a s hs => ⟨hJ s hs.1, hQ a s hs.1 hs.2⟩)
    (fun _ s he => hJ s he) (fun _ hc => hc)

/-- The program sees the state it starts from. -/
theorem of_state (h : ∀ s, I s → P s → Keeps I D (fun t => t = s) m Q) : Keeps I D P m Q :=
  fun script s hs => h s hs.1 hs.2 script s ⟨hs.1, rfl⟩

theorem from_state {s : σ} (h : Keeps I D P m Q) (hs : P s) : Keeps I D (fun t => t = s) m Q :=
  h.conseq (fun _ _ ht => ht ▸ hs) fun _ _ _ hq => hq

/-- What is left after the run. -/
theorem survives (h : Keeps I D P m Q) (hI : ∀ s, I s → D s) (script : List ν) {s : σ}
    (hs : I s ∧ P s) :
    ((m script s).survived = true → I (m script s).state) ∧ D (m script s).state := by
  have hend := h script s hs
  revert hend
  cases m script s with
  | ok a rest t => exact fun hend => ⟨fun _ => hend.1, hI t hend.1⟩
  | error e rest t => exact fun hend => ⟨fun _ => hend, hI t hend⟩
  | crashed t => exact fun hend => ⟨fun hgone => absurd hgone Bool.false_ne_true, hend⟩

theorem pure (h : ∀ s, I s → P s → Q a s) : Keeps I D P (Pure.pure a : Scripted ν σ ε α) Q :=
  Triple.pure fun s hs => ⟨hs.1, h s hs.1 hs.2⟩

theorem bind
    (hm : Keeps I D P m₁ R) (hf : ∀ b, Keeps I D (R b) (f b) Q) : Keeps I D P (m₁ >>= f) Q :=
  Triple.bind hm hf

theorem get {Q : σ → σ → Prop} (h : ∀ s, I s → P s → Q s s) :
    Keeps I D P (Scripted.get : Scripted ν σ ε σ) Q :=
  Triple.get fun s hs => ⟨hs.1, h s hs.1 hs.2⟩

theorem get_bind {f : σ → Scripted ν σ ε α}
    (h : ∀ s, I s → P s → Keeps I D (fun t => t = s) (f s) Q) :
    Keeps I D P (Scripted.get >>= f) Q :=
  fun script s hs => h s hs.1 hs.2 script s ⟨hs.1, rfl⟩

theorem modify {f : σ → σ} {Q : Unit → σ → Prop} (h : ∀ s, I s → P s → I (f s) ∧ Q () (f s)) :
    Keeps I D P (Scripted.modify f : Scripted ν σ ε Unit) Q :=
  Triple.modify fun s hs => h s hs.1 hs.2

theorem throw : Keeps I D P (Scripted.throw e : Scripted ν σ ε α) Q :=
  Triple.throw fun _ hs => hs.1

theorem attempt {Q : Except ε α → σ → Prop} (h : Keeps I D P m fun a => Q (.ok a))
    (he : ∀ e s, I s → Q (.error e) s) : Keeps I D P m.attempt Q :=
  Triple.attempt (Triple.conseq h (fun _ hs => hs) (fun _ _ hs => hs)
    (fun e s hs => ⟨hs, he e s hs⟩) fun _ hc => hc)

theorem forEach {f : β → Scripted ν σ ε Unit} (J : List β → σ → Prop)
    (hf : ∀ x l, Keeps I D (J (x :: l)) (f x) fun _ => J l) (l : List β) :
    Keeps I D (J l) (Scripted.forEach f l) fun _ => J [] :=
  Triple.forEach (fun l s => I s ∧ J l s) hf l

theorem ask [Inhabited ν] {Q : ν → σ → Prop} (h : ∀ v s, I s → P s → Q v s) :
    Keeps I D P (Scripted.ask : Scripted ν σ ε ν) Q :=
  Triple.ask fun v s hs => ⟨hs.1, h v s hs.1 hs.2⟩

theorem collect (hf : ∀ x, Keeps I D P (f x) fun _ => P) :
    ∀ l, Keeps I D P (Scripted.collect f l) fun _ => P
  | [] => pure fun _ _ hs => hs
  | x :: l => bind (hf x) fun _ => bind (collect hf l) fun _ => pure fun _ _ hs => hs

theorem ofExcept (h : ∀ a s, I s → P s → Q a s) :
    Keeps I D P (Scripted.ofExcept r : Scripted ν σ ε α) Q := by
  cases r with
  | ok a => exact pure (h a)
  | error e => exact throw

end Keeps

/-! ## Operations -/

/-- How one operation goes: `fails` and `crashes` after the part `p` of its effect. -/
inductive Verdict (π : Type) where
  | done
  | fails (p : π)
  | crashes (p : π)
  deriving DecidableEq, Repr

instance {π : Type} : Inhabited (Verdict π) := ⟨.done⟩

namespace Scripted

variable {π : Type}

/-- An operation with the effect `act` if it is done, the error `e` if it fails, and the
effect `part p` of a failed or cut off one. -/
def operation (e : ε) (part : π → σ → σ) (act : Scripted (Verdict π) σ ε α) :
    Scripted (Verdict π) σ ε α := do
  match ← ask with
  | .done => act
  | .fails p => do
    modify (part p)
    throw e
  | .crashes p => do
    modify (part p)
    crash

end Scripted

variable {P : σ → Prop} {π : Type} {act : Scripted (Verdict π) σ ε α} {part : π → σ → σ}

theorem Triple.operation {E : ε → σ → Prop} {C : σ → Prop} (hact : Triple P act Q E C)
    (hfail : ∀ p s, P s → E e (part p s)) (hcrash : ∀ p s, P s → C (part p s)) :
    Triple P (Scripted.operation e part act) Q E C := by
  refine .bind (R := fun _ => P) (.ask fun _ s hs => hs) ?_
  rintro (_ | p | p)
  · exact hact
  · exact .bind (R := fun _ => E e) (.modify (hfail p)) fun _ => .throw fun _ hs => hs
  · exact .bind (R := fun _ => C) (.modify (hcrash p)) fun _ => .crash fun _ hs => hs

theorem Keeps.operation {I D : σ → Prop}
    (hact : Keeps I D P act Q) (hpart : ∀ p s, I s → P s → I (part p s)) (hcrash : ∀ s, I s → D s) :
    Keeps I D P (Scripted.operation e part act) Q :=
  Triple.operation hact (fun p s hs => hpart p s hs.1 hs.2)
    fun p s hs => hcrash _ (hpart p s hs.1 hs.2)

end Clyntis.Lib
