import Mathlib.Order.Basic
import Mathlib.Algebra.Ring.Nat

/-!
# The memory guard (`packet.rs`, `Guard::decide`)

Above `shed_above` new flows are refused, above `close_above` every connection is closed. Refusing
ends only well below the line, and not right after a close.

- `Guard.decide`: the decision for one reading; `Guard.run`: readings one after the other;
- `Respects`: what a reading owes to an earlier close; `Sound`: what holds of every reading;
- `Guard.decide_spec`, `Guard.run_spec`: one decision and a run of them;
- `guard_protocol`: the protocol, from the start.

Times are in nanoseconds, and `duration_since` of an earlier time is zero.
-/

namespace Clyntis.Core.MemoryGuard

open List

/-- `RECOVER_MARGIN`. -/
def recoverMargin : Nat := 2 * 1024 * 1024

def seconds (n : Nat) : Nat := n * 10 ^ 9

/-- `CLOSE_COOLDOWN`. -/
def closeCooldown : Nat := seconds 3

/-- The thresholds of `Budget` that decide. -/
structure Budget where
  shedAbove : Nat
  closeAbove : Nat

/-- `GuardCounts`. -/
structure GuardCounts where
  refusing : Nat := 0
  recovered : Nat := 0
  closed : Nat := 0

structure Decision where
  shedding : Option Bool
  close : Bool

structure Guard where
  budget : Budget
  closed : Option Nat := none
  shedding : Bool := false
  counts : GuardCounts := {}

/-- A reading, the decision for it, and the guard then. -/
structure Entry where
  footprint : Nat
  now : Nat
  decision : Decision
  after : Guard

namespace Guard

/-- `decide`. The sum with the margin is one of 64 bits. -/
def decide (g : Guard) (footprint now : Nat) : Decision × Guard :=
  let close : Bool := g.budget.closeAbove ≤ footprint ∧ ∀ t ∈ g.closed, seconds 5 ≤ now - t
  let closed := if close then some now else g.closed
  let cooling : Bool := ∃ t ∈ closed, now - t < closeCooldown
  let shedding : Bool :=
    if g.shedding then g.budget.shedAbove ≤ (footprint + recoverMargin) % 2 ^ 64 ∨ cooling
    else g.budget.shedAbove ≤ footprint ∨ close
  let changed := shedding != g.shedding
  ({ shedding := if changed then some shedding else none, close := close },
    { g with
      closed := closed, shedding := shedding
      counts := {
        refusing := g.counts.refusing + (changed && shedding).toNat
        recovered := g.counts.recovered + (changed && !shedding).toNat
        closed := g.counts.closed + close.toNat } })

/-- The decisions for some readings. -/
def run (g : Guard) : List (Nat × Nat) → List Entry
  | [] => []
  | (footprint, now) :: readings =>
    let out := g.decide footprint now
    ⟨footprint, now, out.1, out.2⟩ :: out.2.run readings

end Guard

/-- What a reading owes to a close at `t`. -/
structure Respects (t : Nat) (e : Entry) : Prop where
  apart : e.decision.close = true → t + seconds 5 ≤ e.now
  refuses : e.now < t + closeCooldown → e.after.shedding = true
  stops : e.decision.shedding = some false → t + closeCooldown ≤ e.now

theorem Respects.mono {t t' : Nat} {e : Entry} (h : Respects t' e) (hle : t ≤ t') :
    Respects t e := by
  obtain ⟨hapart, hrefuses, hstops⟩ := h
  exact ⟨fun h => by have := hapart h; omega, fun h => hrefuses (by omega),
    fun h => by have := hstops h; omega⟩

/-- What holds of a reading by itself. -/
structure Sound (budget : Budget) (e : Entry) : Prop where
  closing : e.decision.close = true → e.after.shedding = true
  stops : e.decision.shedding = some false →
    e.footprint + recoverMargin ≤ budget.shedAbove ∧ e.decision.close = false
  counts : e.after.counts.refusing = e.after.counts.recovered + e.after.shedding.toNat

namespace Guard

variable {g : Guard} {footprint before now : Nat}

/-- At `now` the guard refuses if the last close is not long ago, and its counts fit. -/
structure Inv (g : Guard) (now : Nat) : Prop where
  closed : ∀ t ∈ g.closed, t ≤ now ∧ (now < t + closeCooldown → g.shedding = true)
  counts : g.counts.refusing = g.counts.recovered + g.shedding.toNat

/-- One decision. -/
theorem decide_spec (hg : g.Inv before) (hnow : before ≤ now) (hfoot : footprint < 2 ^ 63) :
    let out := g.decide footprint now
    let e : Entry := ⟨footprint, now, out.1, out.2⟩
    out.2.Inv now ∧ Sound g.budget e ∧ (∀ t ∈ g.closed, Respects t e) ∧
      out.2.closed = if out.1.close then some now else g.closed := by
  intro out e
  have hlast : out.2.closed = if out.1.close then some now else g.closed := rfl
  have hshed : out.2.shedding =
      if g.shedding then
        Decidable.decide (g.budget.shedAbove ≤ (footprint + recoverMargin) % 2 ^ 64 ∨
          Decidable.decide (∃ t ∈ out.2.closed, now - t < closeCooldown) = true)
      else Decidable.decide (g.budget.shedAbove ≤ footprint ∨ out.1.close = true) := rfl
  have hsum : (footprint + recoverMargin) % 2 ^ 64 = footprint + recoverMargin := by
    rw [recoverMargin]
    omega
  have hpos : 0 < closeCooldown := by decide
  -- while it cools down it goes on to refuse, and a close makes it refuse
  have hcool : ∀ t ∈ out.2.closed, now < t + closeCooldown → g.shedding = true →
      out.2.shedding = true := by
    intro t ht hsoon hs
    rw [hshed, if_pos hs]
    exact decide_eq_true (.inr (decide_eq_true ⟨t, ht, by omega⟩))
  have hclosing : out.1.close = true → out.2.shedding = true := by
    intro hclose
    by_cases hs : g.shedding = true
    · refine hcool now ?_ (Nat.lt_add_of_pos_right hpos) hs
      rw [hlast, if_pos hclose]
      rfl
    · rw [hshed, if_neg hs]
      exact decide_eq_true (.inr hclose)
  have hrefuses : ∀ t ∈ g.closed, now < t + closeCooldown → out.2.shedding = true := by
    intro t ht hsoon
    by_cases hclose : out.1.close = true
    · exact hclosing hclose
    · refine hcool t ?_ hsoon ((hg.closed t ht).2 (by omega))
      rw [hlast, if_neg hclose]
      exact ht
  have hstops : out.1.shedding = some false → out.2.shedding = false ∧ g.shedding = true := by
    intro hstop
    change (if (out.2.shedding != g.shedding) = true then some out.2.shedding else none) =
      some false at hstop
    cases hafter : out.2.shedding <;> cases hs : g.shedding <;> simp_all
  have hcounts : out.2.counts.refusing = out.2.counts.recovered + out.2.shedding.toNat := by
    show g.counts.refusing + (out.2.shedding != g.shedding && out.2.shedding).toNat =
      g.counts.recovered + (out.2.shedding != g.shedding && !out.2.shedding).toNat + _
    rw [hg.counts]
    cases out.2.shedding <;> cases g.shedding <;> rfl
  refine ⟨⟨?_, hcounts⟩, ⟨hclosing, ?_, hcounts⟩, ?_, hlast⟩
  · intro t ht
    rw [hlast] at ht
    split at ht
    · next hclose =>
      cases ht
      exact ⟨le_rfl, fun _ => hclosing hclose⟩
    · exact ⟨(hg.closed t ht).1.trans hnow, hrefuses t ht⟩
  · intro hstop
    obtain ⟨hafter, hs⟩ := hstops hstop
    constructor
    · rw [hshed, if_pos hs, hsum, decide_eq_false_iff_not, not_or, not_le] at hafter
      exact hafter.1.le
    · refine Bool.eq_false_iff.mpr fun hclose => ?_
      rw [hclosing hclose] at hafter
      cases hafter
  · intro t ht
    refine ⟨?_, hrefuses t ht, ?_⟩
    · intro hclose
      have hlong := (of_decide_eq_true hclose).2 t ht
      have hfive : 0 < seconds 5 := by decide
      show t + seconds 5 ≤ now
      omega
    · intro hstop
      by_contra hsoon
      have hafter := hrefuses t ht (not_le.mp hsoon)
      rw [(hstops hstop).1] at hafter
      cases hafter

/-- Readings one after the other, by induction: a close is respected by all that follows. -/
theorem run_spec {readings : List (Nat × Nat)} (hg : g.Inv before)
    (hsorted : (before :: readings.map Prod.snd).Pairwise (· ≤ ·))
    (hfoot : ∀ r ∈ readings, r.1 < 2 ^ 63) :
    (g.run readings).Pairwise (fun a b => a.decision.close = true → Respects a.now b) ∧
      (∀ e ∈ g.run readings, Sound g.budget e) ∧
      ∀ t ∈ g.closed, ∀ e ∈ g.run readings, Respects t e := by
  induction readings generalizing g before with
  | nil => exact ⟨.nil, nofun, fun _ _ => nofun⟩
  | cons r readings ih =>
    obtain ⟨footprint, now⟩ := r
    rw [pairwise_cons] at hsorted
    have hnow : before ≤ now := hsorted.1 now mem_cons_self
    obtain ⟨hinv, hsound, hearlier, hlast⟩ := decide_spec hg hnow (hfoot _ mem_cons_self)
    obtain ⟨hpairs, hall, hafter⟩ :=
      ih hinv hsorted.2 fun r hr => hfoot r (mem_cons_of_mem _ hr)
    refine ⟨pairwise_cons.mpr ⟨?_, hpairs⟩, forall_mem_cons.mpr ⟨hsound, hall⟩, ?_⟩
    · intro e he hclose
      refine hafter now ?_ e he
      exact if_pos hclose
    · intro t ht
      refine forall_mem_cons.mpr ⟨hearlier t ht, fun e he => ?_⟩
      by_cases hclose : (g.decide footprint now).1.close = true
      · -- the close of this reading is a later one
        refine (hafter now ?_ e he).mono ((hg.closed t ht).1.trans hnow)
        rw [hlast, if_pos hclose]
        rfl
      · refine hafter t ?_ e he
        rwa [hlast, if_neg hclose]

end Guard

/-- **The memory guard.** Take readings at non-decreasing times. Two closes are at least five
seconds apart, and the guard refuses from a close on for three seconds. It stops refusing only at a
reading 2 MiB below the line and three seconds after every close, and it has begun to refuse once
more than it has recovered exactly while it refuses. -/
theorem guard_protocol (budget : Budget) (readings : List (Nat × Nat))
    (hsorted : (readings.map Prod.snd).Pairwise (· ≤ ·)) (hfoot : ∀ r ∈ readings, r.1 < 2 ^ 63) :
    let entries := Guard.run { budget := budget } readings
    entries.Pairwise (fun a b => a.decision.close = true → Respects a.now b) ∧
      ∀ e ∈ entries, Sound budget e := by
  have hinv : Guard.Inv { budget := budget } 0 := ⟨nofun, rfl⟩
  have hzero : (0 :: readings.map Prod.snd).Pairwise (· ≤ ·) :=
    pairwise_cons.mpr ⟨fun _ _ => Nat.zero_le _, hsorted⟩
  obtain ⟨hpairs, hall, -⟩ := Guard.run_spec hinv hzero hfoot
  exact ⟨hpairs, hall⟩

/-- A close at once, and a recovery four seconds later. -/
theorem guard_protocol_recovers :
    let entries := Guard.run { budget := ⟨30 * 2 ^ 20, 40 * 2 ^ 20⟩ }
      [(45 * 2 ^ 20, 0), (20 * 2 ^ 20, seconds 2), (20 * 2 ^ 20, seconds 4)]
    entries.map (fun e => (e.decision.close, e.after.shedding)) =
        [(true, true), (false, true), (false, false)] ∧
      entries.Pairwise (fun a b => a.decision.close = true → Respects a.now b) :=
  ⟨by decide +kernel, (guard_protocol _ _ (by decide) (by decide)).1⟩

end Clyntis.Core.MemoryGuard
