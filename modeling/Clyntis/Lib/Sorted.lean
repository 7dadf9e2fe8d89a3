import Mathlib.Data.List.Sort

/-!
# Sorted vectors without duplicates

`sort_unstable` followed by `dedup`, and the run of equal keys that
`partition_point` and `take_while` cut out of such a vector.

- `sortDedup`: its members are those of the input (`mem_sortDedup`) and it is
  strictly sorted (`pairwise_sortDedup`);
- `mem_equalRange`: the run of one key holds exactly the members of the vector with
  that key.
-/

namespace Clyntis.Lib

open List

variable {α : Type}

/-- `Vec::dedup`: drops a member that equals the next one. -/
def dedupAdjacent [DecidableEq α] : List α → List α
  | [] => []
  | [a] => [a]
  | a :: b :: l => if a = b then dedupAdjacent (b :: l) else a :: dedupAdjacent (b :: l)

variable {l : List α} {x : α} {κ : Type} {key : α → κ}

theorem mem_dedupAdjacent [DecidableEq α] : x ∈ dedupAdjacent l ↔ x ∈ l := by
  fun_induction dedupAdjacent l with
  | case1 => rfl
  | case2 => rfl
  | case3 b l ih =>
    rw [ih]
    simp
  | case4 a b l hne ih => rw [mem_cons, mem_cons, ih]

/-- After sorting, members that are kept differ from all later ones. -/
theorem pairwise_dedupAdjacent [DecidableEq α] {r : α → α → Prop}
    (antisymm : ∀ {a b}, r a b → r b a → a = b) (h : l.Pairwise r) :
    (dedupAdjacent l).Pairwise fun a b => r a b ∧ a ≠ b := by
  fun_induction dedupAdjacent l with
  | case1 => exact .nil
  | case2 => exact pairwise_singleton _ _
  | case3 b l ih => exact ih (pairwise_cons.mp h).2
  | case4 a b l hne ih =>
    obtain ⟨hfirst, hrest⟩ := pairwise_cons.mp h
    refine pairwise_cons.mpr ⟨fun x hx => ?_, ih hrest⟩
    have hmem := mem_dedupAdjacent.mp hx
    refine ⟨hfirst x hmem, ?_⟩
    rintro rfl
    -- `a` would stand on both sides of `b`
    rcases mem_cons.mp hmem with heq | htail
    · exact hne heq
    · exact hne (antisymm (hfirst b mem_cons_self) ((pairwise_cons.mp hrest).1 a htail))

/-- `sort_unstable` by `le` and `dedup`. -/
def sortDedup [DecidableEq α] (le : α → α → Bool) (l : List α) : List α :=
  dedupAdjacent (l.mergeSort le)

theorem mem_sortDedup [DecidableEq α] {le : α → α → Bool} : x ∈ sortDedup le l ↔ x ∈ l :=
  mem_dedupAdjacent.trans mem_mergeSort

/-- Sorting by a linear order leaves a strictly sorted vector. -/
theorem pairwise_sortDedup [LinearOrder α] [DecidableEq α] (l : List α) :
    (sortDedup (fun a b => decide (a ≤ b)) l).Pairwise (· < ·) := by
  have hsorted : (l.mergeSort fun a b => decide (a ≤ b)).Pairwise (· ≤ ·) := by
    have h := @pairwise_mergeSort α (fun a b => decide (a ≤ b))
      (fun a b c => by simpa using le_trans) (fun a b => by simpa using le_total a b) l
    exact h.imp of_decide_eq_true
  exact (pairwise_dedupAdjacent le_antisymm hsorted).imp fun ⟨hle, hne⟩ => lt_of_le_of_ne hle hne

/-- What has different keys is strictly sorted by them. -/
theorem pairwise_mergeSort_lt [LinearOrder κ] (key : α → κ)
    (h : l.Pairwise fun a b => key a ≠ key b) :
    (l.mergeSort fun a b => decide (key a ≤ key b)).Pairwise fun a b => key a < key b := by
  have hle := @pairwise_mergeSort α (fun a b => decide (key a ≤ key b))
    (fun a b c => by simpa using le_trans) (fun a b => by simpa using le_total (key a) (key b)) l
  have hne := (mergeSort_perm l fun a b => decide (key a ≤ key b)).symm.pairwise h Ne.symm
  exact (hle.and hne).imp fun hab => lt_of_le_of_ne (of_decide_eq_true hab.1) hab.2

/-- The run of members with key `k`: past the smaller ones, as long as it lasts. -/
def equalRange {κ : Type} [LinearOrder κ] (key : α → κ) (k : κ) (l : List α) : List α :=
  (l.dropWhile fun a => decide (key a < k)).takeWhile fun a => decide (key a = k)

/-- In a vector sorted by key, the run holds every member with that key. -/
theorem equalRange_eq_filter [LinearOrder κ] {k : κ} (h : l.Pairwise fun a b => key a ≤ key b) :
    equalRange key k l = l.filter fun a => decide (key a = k) := by
  induction l with
  | nil => rfl
  | cons a l ih =>
    obtain ⟨hfirst, hrest⟩ := pairwise_cons.mp h
    rcases lt_trichotomy (key a) k with hlt | heq | hgt
    · -- still before the run
      simpa [equalRange, hlt, hlt.ne] using ih hrest
    · -- inside it: nothing smaller follows, so dropping stops here for good
      have hnone : l.dropWhile (fun b => decide (key b < k)) = l := by
        cases l with
        | nil => rfl
        | cons b l =>
          have hab := hfirst b mem_cons_self
          rw [heq] at hab
          simp [not_lt.mpr hab]
      have ih := ih hrest
      rw [equalRange, hnone] at ih
      simp [equalRange, heq, ih]
    · -- past it
      have hnone : ∀ b ∈ l, key b ≠ k := fun b hb => (hgt.trans_le (hfirst b hb)).ne'
      simpa [equalRange, hgt.ne', not_lt.mpr hgt.le] using hnone

theorem mem_equalRange [LinearOrder κ] {k : κ}
    (h : l.Pairwise fun a b => key a ≤ key b) : x ∈ equalRange key k l ↔ x ∈ l ∧ key x = k := by
  rw [equalRange_eq_filter h, mem_filter, decide_eq_true_eq]

end Clyntis.Lib
