import Mathlib.Logic.Relation

/-!
# Frames on a shared output

Several writers share one byte stream. A writer takes the lock, looks at the flag
`alive`, writes its frame in pieces, flushes and lets go. A writer that stops in the
middle clears the flag before it lets go, and nobody starts a frame once the flag
is cleared.

- `Stage`, `Guard`, `Output`: where the holder of the lock is, and the stream with
  the frames that were committed;
- `Step`, `Poison`: what the holder and the others may do;
- `Whole`: the stream is whole frames and a rest of at most one;
- `Settled`: no byte can follow any more.

The holder is named by `ι`, and `made o f` says that `f` is the frame of `o`.
-/

namespace Clyntis.Lib.Framed

open List

variable {ι β : Type}

/-- Where the holder of the lock is: before the look at the flag, with `n` elements
written, waiting for the flush, or stopped after `n` elements. -/
inductive Stage where
  | owned
  | writing (n : Nat)
  | flushing
  | torn (n : Nat)
  deriving DecidableEq, Repr

/-- An attempt to write is under way. -/
def Stage.active : Stage → Bool
  | writing _ | flushing => true
  | owned | torn _ => false

/-- The lock, held. -/
structure Guard (ι β : Type) where
  owner : ι
  frame : List β
  stage : Stage
  deriving DecidableEq, Repr

/-- How much of its frame the holder has written. -/
def Guard.written (g : Guard ι β) : Nat :=
  match g.stage with
  | .owned => 0
  | .writing n => n
  | .flushing => g.frame.length
  | .torn n => n

/-- The stream, the lock and, as history, the committed frames. -/
structure Output (ι β : Type) where
  out : List β
  whole : List (ι × List β)
  guard : Option (Guard ι β)
  deriving DecidableEq, Repr

namespace Output

variable (w : Output ι β) (g : Guard ι β)

/-- The committed frames, one after the other. -/
def bytes : List β := (w.whole.map Prod.snd).flatten

/-- The lock as the guard says. -/
def hold : Output ι β := { w with guard := some g }

/-- The lock released. -/
def free : Output ι β := { w with guard := none }

/-- `k` more elements of the holder's frame, of which `n` were written. -/
def write (n k : Nat) : Output ι β :=
  { w with
    out := w.out ++ (g.frame.drop n).take k
    guard := some { g with stage := .writing (n + k) } }

/-- The frame is complete and the lock released. -/
def commit : Output ι β :=
  { w with whole := w.whole ++ [(g.owner, g.frame)], guard := none }

end Output

/-- What the users of the lock do while the flag is `alive`. -/
inductive Step (made : ι → List β → Prop) (alive : Bool) : Output ι β → Output ι β → Prop
  | acquire {w o f} : w.guard = none → made o f →
      Step made alive w (w.hold ⟨o, f, .owned⟩)
  | refuse {w g} : w.guard = some g → g.stage = .owned →
      alive = false → Step made alive w w.free
  | arm {w g} : w.guard = some g → g.stage = .owned →
      alive = true → Step made alive w (w.hold { g with stage := .writing 0 })
  | write {w g n k} : w.guard = some g →
      g.stage = .writing n → n + k ≤ g.frame.length → Step made alive w (w.write g n k)
  | flush {w g} : w.guard = some g →
      g.stage = .writing g.frame.length →
      Step made alive w (w.hold { g with stage := .flushing })
  | commit {w g} : w.guard = some g → g.stage = .flushing →
      Step made alive w (w.commit g)
  | tear {w g} : w.guard = some g → g.stage.active = true →
      Step made alive w (w.hold { g with stage := .torn g.written })
  | release {w g n} : w.guard = some g →
      g.stage = .torn n → alive = false → Step made alive w w.free

/-- A stream with its flag. -/
structure Line (ι β : Type) where
  alive : Bool
  output : Output ι β

/-- A step of a user of the lock, or the flag cleared by anybody at any time. -/
inductive Moves (made : ι → List β → Prop) : Line ι β → Line ι β → Prop
  | step {a w w'} : Step made a w w' → Moves made ⟨a, w⟩ ⟨a, w'⟩
  | poison {a w} : Moves made ⟨a, w⟩ ⟨false, w⟩

/-! ## Whole frames and one rest -/

/-- What may stand after the committed frames. -/
def Rest (alive : Bool) (guard : Option (Guard ι β)) (rest : List β) : Prop :=
  match guard with
  | none => rest = [] ∨ alive = false
  | some g => if g.stage = .owned then rest = [] ∨ alive = false
      else rest = g.frame.take g.written

/-- The stream is the committed frames and at most one rest, the front of a frame. -/
structure Whole (made : ι → List β → Prop) (l : Line ι β) : Prop where
  committed : ∀ e ∈ l.output.whole, made e.1 e.2
  held : ∀ g, l.output.guard = some g → made g.owner g.frame
  shape : ∃ rest, l.output.out = l.output.bytes ++ rest ∧ Rest l.alive l.output.guard rest ∧
    (rest ≠ [] → ∃ o f, made o f ∧ rest <+: f)

variable {made : ι → List β → Prop} {a : Bool} {w w' : Output ι β} {l l' : Line ι β} {rest : List β}
  {g : Guard ι β}

theorem Rest.poison {guard : Option (Guard ι β)} (h : Rest a guard rest) :
    Rest false guard rest := by
  cases guard with
  | none => exact .inr rfl
  | some g =>
    show ite _ _ _
    by_cases ho : g.stage = .owned
    · rw [if_pos ho]
      exact .inr rfl
    · have h' : rest = g.frame.take g.written := (if_neg ho).mp h
      rwa [if_neg ho]

/-- While an attempt is under way the rest is what it has written. -/
theorem Rest.of_ne_owned (hg : g.stage ≠ .owned) :
    Rest a (some g) rest ↔ rest = g.frame.take g.written := by
  show ite _ _ _ ↔ _
  rw [if_neg hg]

/-- Nobody is in an attempt: the rest is empty, or the flag is cleared. -/
theorem Rest.of_owned (hg : g.stage = .owned) : Rest a (some g) rest ↔ rest = [] ∨ a = false := by
  show ite _ _ _ ↔ _
  rw [if_pos hg]

/-- A user's step keeps the stream whole. -/
theorem Whole.step (h : Whole made ⟨a, w⟩) (hs : Step made a w w') : Whole made ⟨a, w'⟩ := by
  obtain ⟨hc, hh, rest, hout, hrest, hmade⟩ := h
  cases hs with
  | @acquire o f hg hm =>
    refine ⟨hc, ?_, rest, hout, ?_, hmade⟩
    · rintro g ⟨⟩
      exact hm
    · rw [hg] at hrest
      exact (Rest.of_owned rfl).mpr hrest
  | refuse _ _ ha | release _ _ ha =>
    refine ⟨hc, ?_, rest, hout, .inr ha, hmade⟩
    rintro g ⟨⟩
  | @arm g hg ho ha =>
    rw [hg, Rest.of_owned ho] at hrest
    have hnil : rest = [] := hrest.resolve_right (by simp [ha])
    refine ⟨hc, ?_, rest, hout, ?_, hmade⟩
    · rintro g' ⟨⟩
      exact hh g hg
    · refine (Rest.of_ne_owned (by simp)).mpr ?_
      rw [hnil]
      rfl
  | @write g n k hg hn hk =>
    have hnot : g.stage ≠ .owned := by simp [hn]
    have hw : g.written = n := by simp [Guard.written, hn]
    rw [hg, Rest.of_ne_owned hnot, hw] at hrest
    have hnext : rest ++ (g.frame.drop n).take k = g.frame.take (n + k) := by
      rw [hrest, take_add]
    refine ⟨hc, ?_, g.frame.take (n + k), ?_, ?_, ?_⟩
    · rintro g' ⟨⟩
      exact hh g hg
    · rw [← hnext, ← append_assoc]
      show w.out ++ _ = _
      rw [hout]
      rfl
    · exact (Rest.of_ne_owned (by simp)).mpr rfl
    · intro _
      exact ⟨g.owner, g.frame, hh g hg, List.take_prefix _ _⟩
  | @flush g hg hn =>
    have hnot : g.stage ≠ .owned := by simp [hn]
    rw [hg, Rest.of_ne_owned hnot] at hrest
    refine ⟨hc, ?_, rest, hout, ?_, hmade⟩
    · rintro g' ⟨⟩
      exact hh g hg
    · refine (Rest.of_ne_owned (by simp)).mpr ?_
      rw [hrest]
      simp [Guard.written, hn]
  | @commit g hg hn =>
    have hnot : g.stage ≠ .owned := by simp [hn]
    rw [hg, Rest.of_ne_owned hnot] at hrest
    have hfull : rest = g.frame := by rw [hrest]; simp [Guard.written, hn]
    refine ⟨?_, ?_, [], ?_, .inl rfl, fun h => absurd rfl h⟩
    · intro e he
      rcases mem_append.mp he with he | he
      · exact hc e he
      · rw [mem_singleton.mp he]
        exact hh g hg
    · rintro g' ⟨⟩
    · show w.out = _
      rw [hout, hfull]
      simp [Output.bytes, Output.commit]
  | @tear g hg hact =>
    have hnot : g.stage ≠ .owned := by
      intro ho
      simp [ho, Stage.active] at hact
    rw [hg, Rest.of_ne_owned hnot] at hrest
    refine ⟨hc, ?_, rest, hout, ?_, hmade⟩
    · rintro g' ⟨⟩
      exact hh g hg
    · exact (Rest.of_ne_owned (by simp)).mpr hrest

/-- **Whole frames**: every move keeps the stream whole. -/
theorem Whole.moves (h : Whole made l) (hs : Moves made l l') : Whole made l' := by
  cases hs with
  | step hs => exact h.step hs
  | poison =>
    obtain ⟨hc, hh, rest, hout, hrest, hmade⟩ := h
    exact ⟨hc, hh, rest, hout, hrest.poison, hmade⟩

/-! ## The end of the stream -/

/-- No attempt is under way and none can start. -/
def Settled (l : Line ι β) : Prop :=
  match l.output.guard with
  | none => l.alive = false
  | some g => (g.stage = .owned ∧ l.alive = false) ∨ ∃ n, g.stage = .torn n

theorem Settled.of_free (hg : l.output.guard = none) (ha : l.alive = false) : Settled l := by
  unfold Settled
  rwa [hg]

theorem Settled.of_owned (hg : l.output.guard = some g) (ho : g.stage = .owned)
    (ha : l.alive = false) : Settled l := by
  unfold Settled
  rw [hg]
  exact .inl ⟨ho, ha⟩

theorem Settled.of_torn {n : Nat} (hg : l.output.guard = some g) (hn : g.stage = .torn n) :
    Settled l := by
  unfold Settled
  rw [hg]
  exact .inr ⟨n, hn⟩

/-- Once settled, a user's step writes nothing and leaves the stream settled. -/
theorem Settled.step (h : Settled (⟨a, w⟩ : Line ι β)) (hs : Step made a w w') :
    Settled (⟨a, w'⟩ : Line ι β) ∧ w'.out = w.out := by
  unfold Settled at h
  cases hs with
  | acquire hg hm =>
    rw [hg] at h
    exact ⟨.inl ⟨rfl, h⟩, rfl⟩
  | refuse _ _ ha | release _ _ ha => exact ⟨ha, rfl⟩
  | arm hg ho ha =>
    rw [hg] at h
    simp [ho, ha] at h
  | write hg hn | flush hg hn | commit hg hn =>
    rw [hg] at h
    simp [hn] at h
  | tear hg hact => exact ⟨.inr ⟨_, rfl⟩, rfl⟩

/-- **Nothing follows**: a settled stream stays settled and as it is. -/
theorem Settled.moves (h : Settled l) (hs : Moves made l l') :
    Settled l' ∧ l'.output.out = l.output.out := by
  cases hs with
  | step hs => exact h.step hs
  | poison =>
    refine ⟨?_, rfl⟩
    unfold Settled at h ⊢
    dsimp only at h ⊢
    split at h
    · rfl
    · exact h.imp (fun ho => ⟨ho.1, rfl⟩) id

end Clyntis.Lib.Framed
