import Mathlib.Tactic.Common

/-!
# Three-valued verdicts

A verdict is `some b`, or `none` while it is unknown. Conjunctions and
disjunctions are evaluated in Kleene's strong sense: one deciding member decides
the whole, whatever is unknown beside it.

- `Refines`: the information order, what one verdict says the other says too;
- `scan`: a conjunction (`and = true`) or a disjunction (`and = false`) as a loop
  that stops at the first deciding member;
- `scan_eq_some_iff` says what the loop computes without the order of its members,
  and `Refines.scan` that it is monotone;
- `or`: the disjunction of two verdicts, `scan_append` of two lists.
-/

namespace Clyntis.Lib.Kleene

open List

/-- What `a` says, `b` says too. -/
def Refines (a b : Option Bool) : Prop := ∀ v, a = some v → b = some v

variable (a : Option Bool) {vs : List (Option Bool)}

theorem Refines.refl : Refines a a := fun _ h => h

theorem Refines.of_none (b : Option Bool) : Refines none b := fun _ h => nomatch h

/-- Negation is monotone. -/
theorem Refines.not {a b : Option Bool} (h : Refines a b) :
    Refines (a.map fun v => !v) (b.map fun v => !v) := by
  intro v hv
  obtain ⟨w, hw, rfl⟩ := Option.map_eq_some_iff.mp hv
  rw [h w hw]
  rfl

/-- A conjunction (`and`) or disjunction (`!and`) of verdicts, read from the left;
`unknown` says whether an unknown one has been passed. -/
def scan (and : Bool) : (unknown : Bool) → List (Option Bool) → Option Bool
  | unknown, [] => if unknown then none else some and
  | unknown, some v :: vs => if v != and then some v else scan and unknown vs
  | _, none :: vs => scan and true vs

/-- Either one member decides, or all of them are known and none does. -/
theorem scan_eq_some_iff {and v : Bool} {unknown : Bool} :
    scan and unknown vs = some v ↔
      (v ≠ and ∧ some v ∈ vs) ∨ (v = and ∧ unknown = false ∧ ∀ x ∈ vs, x = some and) := by
  induction vs generalizing unknown with
  | nil => cases unknown <;> simp [scan, eq_comm]
  | cons x vs ih =>
    cases x with
    | none =>
      -- an unknown member leaves only the first alternative
      rw [scan, ih]
      simp
    | some w =>
      rw [scan]
      by_cases hw : w = and
      · subst hw
        rw [if_neg (by simp), ih]
        constructor
        · rintro (⟨hne, hmem⟩ | ⟨rfl, hknown, hall⟩)
          · exact .inl ⟨hne, mem_cons_of_mem _ hmem⟩
          · exact .inr ⟨rfl, hknown, by simpa using hall⟩
        · rintro (⟨hne, hmem⟩ | ⟨rfl, hknown, hall⟩)
          · rcases mem_cons.mp hmem with heq | hmem
            · exact absurd (Option.some.inj heq) hne
            · exact .inl ⟨hne, hmem⟩
          · exact .inr ⟨rfl, hknown, fun x hx => hall x (mem_cons_of_mem _ hx)⟩
      · rw [if_pos (by simpa using hw)]
        -- a deciding member: on booleans, everything that differs from `and` is `w`
        constructor
        · intro h
          obtain rfl := Option.some.inj h
          exact .inl ⟨hw, mem_cons_self⟩
        · rintro (⟨hne, -⟩ | ⟨-, -, hall⟩)
          · rw [Bool.eq_not_of_ne hw, Bool.eq_not_of_ne hne]
          · exact absurd (Option.some.inj (hall _ mem_cons_self)) hw

/-- A scan that starts without an unknown member is left open by one of its own. -/
theorem none_mem_of_scan {and : Bool} (h : scan and false vs = none) :
    none ∈ vs := by
  induction vs with
  | nil => cases h
  | cons x vs ih =>
    cases x with
    | none => exact mem_cons_self
    | some w =>
      rw [scan] at h
      split at h
      · cases h
      · exact mem_cons_of_mem _ (ih h)

/-- Conjunction and disjunction are monotone in every member. -/
theorem Refines.scan {α : Type} {l : List α} {f g : α → Option Bool}
    (h : ∀ x ∈ l, Refines (f x) (g x)) (and unknown : Bool) :
    Refines (scan and unknown (l.map f)) (Kleene.scan and unknown (l.map g)) := by
  intro v hv
  rw [scan_eq_some_iff] at hv ⊢
  rcases hv with ⟨hne, hmem⟩ | ⟨rfl, hknown, hall⟩
  · obtain ⟨x, hx, hfx⟩ := mem_map.mp hmem
    exact .inl ⟨hne, mem_map.mpr ⟨x, hx, h x hx v hfx⟩⟩
  · refine .inr ⟨rfl, hknown, fun w hw => ?_⟩
    obtain ⟨x, hx, rfl⟩ := mem_map.mp hw
    exact h x hx v (hall _ (mem_map_of_mem hx))

/-- The disjunction of two verdicts. -/
def or : Option Bool → Option Bool → Option Bool
  | some true, _ => some true
  | some false, b => b
  | none, some true => some true
  | none, _ => none

theorem or_assoc (a b c : Option Bool) : or (or a b) c = or a (or b c) := by
  rcases a with _ | (_ | _) <;> rcases b with _ | (_ | _) <;> rcases c with _ | (_ | _) <;> rfl

theorem or_comm (a b : Option Bool) : or a b = or b a := by
  rcases a with _ | (_ | _) <;> rcases b with _ | (_ | _) <;> rfl

@[simp] theorem or_false_right : or a (some false) = a := by
  rcases a with _ | (_ | _) <;> rfl

@[simp] theorem or_false_left : or (some false) a = a := rfl

/-- A member moved behind what follows. -/
theorem or_right_comm (a b c : Option Bool) : or (or a b) c = or (or a c) b := by
  rw [or_assoc, or_comm b c, or_assoc]

theorem scan_cons (v : Option Bool) (vs : List (Option Bool)) :
    scan false false (v :: vs) = or v (scan false false vs) := by
  have hunknown : scan false true vs = or none (scan false false vs) := by
    induction vs with
    | nil => rfl
    | cons w vs ih =>
      match w with
      | some true => rfl
      | some false => exact ih
      | none =>
        show scan false true vs = or none (scan false true vs)
        rw [ih, ← or_assoc]
        rfl
  match v with
  | some true => rfl
  | some false => rfl
  | none => exact hunknown

/-- The disjunction of two lists. -/
theorem scan_append (vs ws : List (Option Bool)) :
    scan false false (vs ++ ws) = or (scan false false vs) (scan false false ws) := by
  induction vs with
  | nil => rfl
  | cons v vs ih => rw [cons_append, scan_cons, scan_cons, ih, or_assoc]

theorem scan_eq_true_iff : scan false false vs = some true ↔ some true ∈ vs := by
  simp [scan_eq_some_iff]

/-- Two disjunctions of as many known verdicts have the same verdict exactly if both hold or none
does. -/
theorem scan_eq_scan_iff {α : Type} {l : List α} {f g : α → Option Bool}
    (hknown : ∀ x ∈ l, f x = none ↔ g x = none) :
    scan false false (l.map f) = scan false false (l.map g) ↔
      ((∃ x ∈ l, f x = some true) ↔ ∃ x ∈ l, g x = some true) := by
  have htrue (f : α → Option Bool) :
      scan false false (l.map f) = some true ↔ ∃ x ∈ l, f x = some true := by
    rw [scan_eq_true_iff, mem_map]
  have hfalse (f : α → Option Bool) : scan false false (l.map f) = some false ↔
      (∀ x ∈ l, f x ≠ none) ∧ ¬∃ x ∈ l, f x = some true := by
    have hcases (v : Option Bool) : v = some false ↔ v ≠ none ∧ v ≠ some true := by
      rcases v with _ | (_ | _) <;> decide
    rw [scan_eq_some_iff]
    simp [hcases, imp_and, forall_and]
  rw [← htrue f, ← htrue g]
  refine ⟨fun h => by rw [h], fun h => Option.ext fun v => ?_⟩
  cases v with
  | true => exact h
  | false =>
    rw [hfalse, hfalse, ← htrue, ← htrue, h]
    exact and_congr_left fun _ => forall₂_congr fun x hx => not_congr (hknown x hx)

end Clyntis.Lib.Kleene
