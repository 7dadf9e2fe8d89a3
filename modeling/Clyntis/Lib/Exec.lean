import Mathlib.Data.List.Basic

/-!
# Computations that may panic

Rust code that indexes or slices a buffer either yields a value or aborts the
task with a panic. `Exec` keeps the two apart: `.ok` is a normal return and
`.error` a panic, so "never panics" is a statement about the model and not a
property of Lean's total list functions.

- `index`, `slice`, `sliceFrom`: `xs[i]`, `&xs[a..b]` and `&xs[a..]`, which panic
  out of range;
- `store`, `copyInto`: `xs[i] = v` and `xs[a..b].copy_from_slice(ys)`, which panic out of
  range and when the lengths differ;
- `getRange`, `getFrom`: `xs.get(a..b)` and `xs.get(a..)`, which report an
  out-of-range request as `none`;
- the `_ok` lemmas say when the checked operation returns, and what;
- `feed`: a run of a machine that answers events and may panic.
-/

namespace Clyntis.Lib

open List

universe u

variable {α β : Type u}

/-- Why a computation aborted. -/
inductive Panic where
  /-- an index or a slice bound outside the buffer, or `start > end` -/
  | outOfRange
  /-- `unwrap` on a missing value -/
  | unwrapNone
  deriving DecidableEq, Repr

/-- A computation that returns or panics. -/
abbrev Exec (α : Type u) : Type u := Except Panic α

namespace Exec

/-- The computation returned. -/
def Returns (m : Exec α) : Prop := ∃ a, m = .ok a

instance (m : Exec α) : Decidable m.Returns :=
  match m with
  | .ok a => isTrue ⟨a, rfl⟩
  | .error _ => isFalse fun ⟨_, h⟩ => nomatch h

@[simp] theorem returns_ok (a : α) : Returns (.ok a : Exec α) := ⟨a, rfl⟩

variable {ε : Type}

@[simp] theorem pure_eq_ok (a : α) : (pure a : Except ε α) = .ok a := rfl

@[simp] theorem ok_bind (a : α) (f : α → Except ε β) :
    ((.ok a : Except ε α) >>= f) = f a := rfl

@[simp] theorem not_returns_error (p : Panic) : ¬ Returns (.error p : Exec α) :=
  fun ⟨_, h⟩ => nomatch h

/-- Mapping over the result of a computation does not change whether it
returns. -/
@[simp] theorem returns_map {f : α → β} {m : Exec α} :
    Returns (f <$> m) ↔ m.Returns := by
  cases m with
  | ok a => exact ⟨fun _ => ⟨a, rfl⟩, fun _ => ⟨f a, rfl⟩⟩
  | error p =>
    constructor
    · rintro ⟨_, h⟩
      cases h
    · rintro ⟨_, h⟩
      cases h

end Exec

variable {γ ε δ : Type} {xs : List α} {a b : Nat}

/-- A loop that stops at the first error keeps what its body keeps. -/
theorem foldlM_keeps {σ : Type} {f : σ → γ → Except ε σ} {P : σ → Prop}
    (step : ∀ {s s' x}, P s → f s x = .ok s' → P s') :
    ∀ {l : List γ} {s s' : σ}, P s → l.foldlM f s = .ok s' → P s'
  | [], s, s', hs, h => by
    obtain rfl := Except.ok.inj h
    exact hs
  | x :: l, s, s', hs, h => by
    rw [foldlM_cons] at h
    cases hx : f s x with
    | error e => rw [hx] at h; cases h
    | ok t =>
      rw [hx] at h
      exact foldlM_keeps step (step hs hx) h

/-- A loop whose body returns under an invariant returns, and each turn's result is
still there at the end. -/
theorem foldlM_returns {σ : Type} {f : σ → γ → Option σ} {P : σ → Prop} {Q : γ → σ → Prop}
    (step : ∀ s x, P s → ∃ s', f s x = some s' ∧ P s' ∧ Q x s' ∧ ∀ y, Q y s → Q y s') :
    ∀ (l : List γ) (s : σ), P s →
      ∃ s', l.foldlM f s = some s' ∧ P s' ∧ (∀ x ∈ l, Q x s') ∧ ∀ y, Q y s → Q y s'
  | [], s, hs => ⟨s, rfl, hs, by simp, fun _ h => h⟩
  | x :: l, s, hs => by
    obtain ⟨s₁, hstep, hs₁, hx, hkeep⟩ := step s x hs
    obtain ⟨s₂, hloop, hs₂, hl, hkeep'⟩ := foldlM_returns step l s₁ hs₁
    refine ⟨s₂, ?_, hs₂, ?_, fun y hy => hkeep' y (hkeep y hy)⟩
    · rw [foldlM_cons, hstep]
      exact hloop
    · intro y hy
      rcases mem_cons.mp hy with rfl | hy
      · exact hkeep' y hx
      · exact hl y hy

variable {f : γ → Except ε δ} {x : Except ε γ} {ys : List α}

/-- A sequence that succeeds succeeds in both its parts. -/
theorem bind_eq_ok {b : δ} (h : (x >>= f) = .ok b) : ∃ a, x = .ok a ∧ f a = .ok b := by
  cases x with
  | error e => cases h
  | ok a => exact ⟨a, rfl, h⟩

/-- One that fails fails in one of them. -/
theorem bind_eq_error {e : ε} (h : (x >>= f) = .error e) :
    x = .error e ∨ ∃ a, x = .ok a ∧ f a = .error e := by
  cases x with
  | error e' =>
    cases h
    exact .inl rfl
  | ok a => exact .inr ⟨a, rfl, h⟩

/-- A loop that succeeds succeeds for each element. -/
theorem forM_eq_ok {f : γ → Except ε Unit} :
    ∀ {l : List γ}, l.forM f = .ok () → ∀ x ∈ l, f x = .ok ()
  | [], _, x, hx => absurd hx not_mem_nil
  | y :: l, h, x, hx => by
    obtain ⟨_, hy, hl⟩ := bind_eq_ok h
    rcases mem_cons.mp hx with rfl | hx
    · exact hy
    · exact forM_eq_ok hl x hx

/-- The same of a loop that collects results. -/
theorem mapM_eq_ok : ∀ {l : List γ} {results : List δ}, l.mapM f = .ok results →
    ∀ x ∈ l, ∃ y, f x = .ok y
  | [], _, _, x, hx => absurd hx not_mem_nil
  | z :: l, results, h, x, hx => by
    rw [mapM_cons] at h
    obtain ⟨y, hy, h⟩ := bind_eq_ok h
    obtain ⟨ys, hl, -⟩ := bind_eq_ok h
    rcases mem_cons.mp hx with rfl | hx
    · exact ⟨y, hy⟩
    · exact mapM_eq_ok hl x hx

/-- A loop that collects results fails only with an error of its body. -/
theorem mapM_error {e : ε} :
    ∀ {l : List γ}, l.mapM f = .error e → ∃ x ∈ l, f x = .error e
  | [], h => by cases h
  | x :: l, h => by
    rw [mapM_cons] at h
    rcases bind_eq_error h with hx | ⟨y, -, h⟩
    · exact ⟨x, mem_cons_self, hx⟩
    · rcases bind_eq_error h with hl | ⟨ys, -, h⟩
      · obtain ⟨z, hz, he⟩ := mapM_error hl
        exact ⟨z, mem_cons_of_mem _ hz, he⟩
      · cases h

/-! ## Runs -/

/-- A run of a machine that answers each event. -/
def feed {σ γ δ : Type} (step : σ → γ → Exec (δ × σ)) : σ → List γ → Exec (List δ × σ)
  | s, [] => .ok ([], s)
  | s, e :: es => do
    let out ← step s e
    let rest ← feed step out.2 es
    return (out.1 :: rest.1, rest.2)

section Feed

variable {σ γ δ : Type} {step : σ → γ → Exec (δ × σ)} {s t : σ} {e : γ} {es es' : List γ}
  {outs : List δ}

theorem feed_cons {out : δ} (hstep : step s e = .ok (out, t)) :
    feed step s (e :: es) = (feed step t es).map fun rest => (out :: rest.1, rest.2) := by
  show (step s e >>= _) = _
  rw [hstep]
  rw [Exec.ok_bind]
  cases hrest : feed step t es <;> rfl

/-- A run that returned, taken apart at its first event. -/
theorem feed_cons_inv (h : feed step s (e :: es) = .ok (outs, t)) :
    ∃ out s₁ outs', step s e = .ok (out, s₁) ∧ feed step s₁ es = .ok (outs', t) ∧
      outs = out :: outs' := by
  obtain ⟨⟨out, s₁⟩, hstep, h⟩ := bind_eq_ok h
  obtain ⟨⟨outs', t'⟩, hrest, h⟩ := bind_eq_ok h
  cases h
  exact ⟨out, s₁, outs', hstep, hrest, rfl⟩

/-- A run that returned, taken apart anywhere. -/
theorem feed_append_inv (h : feed step s (es ++ es') = .ok (outs, t)) :
    ∃ outs₁ s₁ outs₂, feed step s es = .ok (outs₁, s₁) ∧ feed step s₁ es' = .ok (outs₂, t) ∧
      outs = outs₁ ++ outs₂ := by
  induction es generalizing s outs with
  | nil => exact ⟨[], s, outs, rfl, h, rfl⟩
  | cons e es ih =>
    obtain ⟨out, s₁, outs', hstep, hrest, rfl⟩ := feed_cons_inv h
    obtain ⟨outs₁, s₂, outs₂, hfirst, hsecond, rfl⟩ := ih hrest
    refine ⟨out :: outs₁, s₂, outs₂, ?_, hsecond, rfl⟩
    rw [feed_cons hstep, hfirst]
    rfl

/-- A machine answers each event once. -/
theorem length_of_feed (h : feed step s es = .ok (outs, t)) : outs.length = es.length := by
  induction es generalizing s outs with
  | nil =>
    cases h
    rfl
  | cons e es ih =>
    obtain ⟨out, s₁, outs', -, hrest, rfl⟩ := feed_cons_inv h
    rw [length_cons, length_cons, ih hrest]

/-- A machine whose steps return under an invariant answers every event. -/
theorem feed_returns {I : σ → Prop} {Q : γ → δ → Prop}
    (hstep : ∀ s, I s → ∀ e ∈ es, ∃ out t, step s e = .ok (out, t) ∧ I t ∧ Q e out) (hs : I s) :
    ∃ outs t, feed step s es = .ok (outs, t) ∧ I t ∧ List.Forall₂ Q es outs := by
  induction es generalizing s with
  | nil => exact ⟨[], s, rfl, hs, .nil⟩
  | cons e es ih =>
    obtain ⟨out, t, hfirst, ht, hout⟩ := hstep s hs e mem_cons_self
    obtain ⟨outs, u, hrest, hu, houts⟩ :=
      ih (fun s hs e he => hstep s hs e (mem_cons_of_mem _ he)) ht
    refine ⟨out :: outs, u, ?_, hu, .cons hout houts⟩
    rw [feed_cons hfirst, hrest]
    rfl

end Feed

/-! ## Checked access to a buffer -/

/-- `xs[i]`. -/
def index (xs : List α) (i : Nat) : Exec α :=
  match xs[i]? with
  | some a => .ok a
  | none => .error .outOfRange

/-- `&xs[a..b]`. -/
def slice (xs : List α) (a b : Nat) : Exec (List α) :=
  if a ≤ b ∧ b ≤ xs.length then .ok ((xs.drop a).take (b - a))
  else .error .outOfRange

/-- `&xs[a..]`. -/
def sliceFrom (xs : List α) (a : Nat) : Exec (List α) :=
  if a ≤ xs.length then .ok (xs.drop a) else .error .outOfRange

/-- `xs[i] = v`. -/
def store (xs : List α) (i : Nat) (v : α) : Exec (List α) :=
  if i < xs.length then .ok (xs.set i v) else .error .outOfRange

/-- `xs[a..b].copy_from_slice(ys)`. -/
def copyInto (xs : List α) (a b : Nat) (ys : List α) : Exec (List α) :=
  if a ≤ b ∧ b ≤ xs.length ∧ ys.length = b - a then .ok (xs.take a ++ ys ++ xs.drop b)
  else .error .outOfRange

/-- `xs.get(a..b)`. -/
def getRange (xs : List α) (a b : Nat) : Option (List α) :=
  if a ≤ b ∧ b ≤ xs.length then some ((xs.drop a).take (b - a)) else none

/-- `xs.get(a..)`. -/
def getFrom (xs : List α) (a : Nat) : Option (List α) :=
  if a ≤ xs.length then some (xs.drop a) else none

theorem index_ok [Inhabited α] {i : Nat} (h : i < xs.length) :
    index xs i = .ok (xs.getD i default) := by
  simp [index, getElem?_eq_getElem h]

theorem slice_ok (hab : a ≤ b) (hb : b ≤ xs.length) :
    slice xs a b = .ok ((xs.drop a).take (b - a)) := if_pos ⟨hab, hb⟩

theorem sliceFrom_ok (h : a ≤ xs.length) :
    sliceFrom xs a = .ok (xs.drop a) := if_pos h

theorem store_ok {i : Nat} (h : i < xs.length) (v : α) :
    store xs i v = .ok (xs.set i v) := if_pos h

theorem copyInto_ok (hab : a ≤ b) (hb : b ≤ xs.length) (hlen : ys.length = b - a) :
    copyInto xs a b ys = .ok (xs.take a ++ ys ++ xs.drop b) :=
  if_pos ⟨hab, hb, hlen⟩

/-- A range that `getRange` finds has the requested length. -/
theorem getRange_length (h : getRange xs a b = some ys) : ys.length = b - a := by
  unfold getRange at h
  split at h
  · next hab =>
    obtain rfl := Option.some.inj h
    simp only [length_take, length_drop]
    omega
  · cases h

end Clyntis.Lib
