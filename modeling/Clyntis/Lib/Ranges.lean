import Mathlib.Data.List.Sort
import Mathlib.Data.List.TakeWhile
import Mathlib.Data.Prod.Lex

/-!
# Closed ranges

Ranges of numbers, first to last. Sorted and merged where they overlap or touch, they
are searched for a number by looking at one of them.

- `InRanges`: a number is in one of the ranges;
- `sortRanges`, `mergeRanges`: into ranges with the same numbers (`inRanges_mergeRanges`) and
  gaps between them (`pairwise_mergeRanges`);
- `inLast_iff`: in ranges with gaps, only the last one that starts in time can hold a number.
-/

namespace Clyntis.Lib

open List

/-- The number is in one of the ranges. -/
def InRanges (ranges : List (Nat × Nat)) (n : Nat) : Prop := ∃ r ∈ ranges, r.1 ≤ n ∧ n ≤ r.2

variable {n : Nat} {r : Nat × Nat} {ranges : List (Nat × Nat)}

theorem inRanges_cons : InRanges (r :: ranges) n ↔ (r.1 ≤ n ∧ n ≤ r.2) ∨ InRanges ranges n :=
  exists_mem_cons_iff ..

/-- Sorted by first number, then by last. -/
def sortRanges (ranges : List (Nat × Nat)) : List (Nat × Nat) :=
  ranges.mergeSort fun a b => decide (toLex a ≤ toLex b)

theorem mem_sortRanges : r ∈ sortRanges ranges ↔ r ∈ ranges :=
  mem_mergeSort

theorem pairwise_sortRanges (ranges : List (Nat × Nat)) :
    (sortRanges ranges).Pairwise fun a b => a.1 ≤ b.1 := by
  have hsorted := @pairwise_mergeSort (Nat × Nat) (fun a b => decide (toLex a ≤ toLex b))
    (fun a b c => by simpa using le_trans) (fun a b => by simpa using le_total (toLex a) (toLex b))
    ranges
  exact hsorted.imp fun {a b} h => Prod.Lex.monotone_fst (toLex a) (toLex b) (by simpa using h)

/-- The rest of a pass over sorted ranges: `last` grows as long as the next range overlaps
it or follows it directly. `limit` is the largest number there is. -/
def mergeFrom (limit : Nat) (last : Nat × Nat) : List (Nat × Nat) → List (Nat × Nat)
  | [] => [last]
  | r :: rest =>
    if r.1 ≤ min (last.2 + 1) limit then mergeFrom limit (last.1, max last.2 r.2) rest
    else last :: mergeFrom limit r rest

/-- One pass over sorted ranges. -/
def mergeRanges (limit : Nat) : List (Nat × Nat) → List (Nat × Nat)
  | [] => []
  | r :: rest => mergeFrom limit r rest

section Merge

variable {limit : Nat} {last : Nat × Nat} {rest : List (Nat × Nat)}

/-- The last range takes in the next. -/
theorem sorted_grow {stop : Nat} (hsorted : (last :: r :: rest).Pairwise fun a b => a.1 ≤ b.1) :
    ((last.1, stop) :: rest).Pairwise fun a b => a.1 ≤ b.1 := by
  obtain ⟨hfirst, hsorted'⟩ := pairwise_cons.mp hsorted
  refine pairwise_cons.mpr ⟨fun q hq => ?_, (pairwise_cons.mp hsorted').2⟩
  exact hfirst q (mem_cons_of_mem _ hq)

/-- Merging keeps the numbers. -/
theorem inRanges_mergeFrom (hlast : last.1 ≤ last.2) (hrest : ∀ r ∈ rest, r.1 ≤ r.2)
    (hsorted : (last :: rest).Pairwise fun a b => a.1 ≤ b.1) :
    InRanges (mergeFrom limit last rest) n ↔ InRanges (last :: rest) n := by
  induction rest generalizing last with
  | nil => rfl
  | cons r rest ih =>
    obtain ⟨hfirst, hsorted'⟩ := pairwise_cons.mp hsorted
    have hr := hrest r mem_cons_self
    have hrest' := fun q hq => hrest q (mem_cons_of_mem _ hq)
    rw [mergeFrom]
    split
    · next htouch =>
      have hle : last.1 ≤ r.1 := hfirst r mem_cons_self
      have hgrown : last.1 ≤ max last.2 r.2 := Nat.le_trans hlast (Nat.le_max_left _ _)
      rw [@ih (last.1, max last.2 r.2) hgrown hrest' (sorted_grow hsorted), inRanges_cons,
        inRanges_cons, inRanges_cons, ← or_assoc]
      refine or_congr ?_ Iff.rfl
      omega
    · rw [inRanges_cons, ih hr hrest' hsorted', ← inRanges_cons]

/-- Nothing begins before the first range. -/
theorem le_of_mem_mergeFrom (hsorted : (last :: rest).Pairwise fun a b => a.1 ≤ b.1)
    (hr : r ∈ mergeFrom limit last rest) : last.1 ≤ r.1 := by
  induction rest generalizing last with
  | nil => rw [mem_singleton.mp hr]
  | cons q rest ih =>
    obtain ⟨hfirst, hsorted'⟩ := pairwise_cons.mp hsorted
    rw [mergeFrom] at hr
    split at hr
    · exact @ih (last.1, max last.2 q.2) (sorted_grow hsorted) hr
    · rcases mem_cons.mp hr with rfl | hr
      · exact le_rfl
      · exact Nat.le_trans (hfirst q mem_cons_self) (ih hsorted' hr)

/-- What is left has gaps, and no empty range. -/
theorem pairwise_mergeFrom (hlast : last.1 ≤ last.2)
    (hrest : ∀ r ∈ rest, r.1 ≤ r.2 ∧ r.2 ≤ limit)
    (hsorted : (last :: rest).Pairwise fun a b => a.1 ≤ b.1) :
    (mergeFrom limit last rest).Pairwise (fun a b => a.2 < b.1) ∧
      ∀ r ∈ mergeFrom limit last rest, r.1 ≤ r.2 := by
  induction rest generalizing last with
  | nil => exact ⟨pairwise_singleton _ _, fun r hr => by rwa [mem_singleton.mp hr]⟩
  | cons r rest ih =>
    obtain ⟨hfirst, hsorted'⟩ := pairwise_cons.mp hsorted
    obtain ⟨hr, hlimit⟩ := hrest r mem_cons_self
    have hrest' := fun q hq => hrest q (mem_cons_of_mem _ hq)
    rw [mergeFrom]
    split
    · have hgrown : last.1 ≤ max last.2 r.2 := Nat.le_trans hlast (Nat.le_max_left _ _)
      exact @ih (last.1, max last.2 r.2) hgrown hrest' (sorted_grow hsorted)
    · next htouch =>
      obtain ⟨hgaps, hnonempty⟩ := ih hr hrest' hsorted'
      have hgap : last.2 < r.1 := by omega
      refine ⟨pairwise_cons.mpr ⟨fun q hq => ?_, hgaps⟩, fun q hq => ?_⟩
      · exact Nat.lt_of_lt_of_le hgap (le_of_mem_mergeFrom hsorted' hq)
      · rcases mem_cons.mp hq with rfl | hq
        · exact hlast
        · exact hnonempty q hq

end Merge

section Sorted

variable {limit : Nat}

theorem inRanges_mergeRanges (hranges : ∀ r ∈ ranges, r.1 ≤ r.2)
    (hsorted : ranges.Pairwise fun a b => a.1 ≤ b.1) :
    InRanges (mergeRanges limit ranges) n ↔ InRanges ranges n := by
  cases ranges with
  | nil => rfl
  | cons r rest =>
    exact inRanges_mergeFrom (hranges r mem_cons_self)
      (fun q hq => hranges q (mem_cons_of_mem _ hq)) hsorted

theorem pairwise_mergeRanges (hranges : ∀ r ∈ ranges, r.1 ≤ r.2 ∧ r.2 ≤ limit)
    (hsorted : ranges.Pairwise fun a b => a.1 ≤ b.1) :
    (mergeRanges limit ranges).Pairwise (fun a b => a.2 < b.1) ∧
      ∀ r ∈ mergeRanges limit ranges, r.1 ≤ r.2 := by
  cases ranges with
  | nil => exact ⟨.nil, nofun⟩
  | cons r rest =>
    exact pairwise_mergeFrom (hranges r mem_cons_self).1
      (fun q hq => hranges q (mem_cons_of_mem _ hq)) hsorted

/-- The last range that starts at `n` or before. -/
def lastStarting (ranges : List (Nat × Nat)) (n : Nat) : Option (Nat × Nat) :=
  (ranges.takeWhile fun r => decide (r.1 ≤ n)).getLast?

/-- In ranges with gaps, the last one that starts in time is the only one to look at. -/
theorem inLast_iff (hgaps : ranges.Pairwise fun a b => a.2 < b.1)
    (hnonempty : ∀ r ∈ ranges, r.1 ≤ r.2) :
    (∃ r, lastStarting ranges n = some r ∧ n ≤ r.2) ↔ InRanges ranges n := by
  induction ranges with
  | nil => simp [lastStarting, InRanges]
  | cons r ranges ih =>
    obtain ⟨hfirst, hgaps'⟩ := pairwise_cons.mp hgaps
    have ih := ih hgaps' fun q hq => hnonempty q (mem_cons_of_mem _ hq)
    rw [inRanges_cons, ← ih]
    by_cases hstart : r.1 ≤ n
    · have hlast : lastStarting (r :: ranges) n = some ((lastStarting ranges n).getD r) := by
        rw [lastStarting, takeWhile_cons_of_pos (by simpa using hstart), getLast?_cons,
          lastStarting]
      rw [hlast]
      cases hnext : lastStarting ranges n with
      | none => simp [hstart]
      | some q =>
        -- a later range that starts in time begins behind `r`
        have hmem := mem_of_getLast? hnext
        have hq : q.1 ≤ n := by simpa using mem_takeWhile_imp hmem
        have hbehind : r.2 < q.1 := hfirst q ((takeWhile_sublist _).subset hmem)
        have hnot : ¬ (r.1 ≤ n ∧ n ≤ r.2) := by omega
        simp [hnot]
    · have hlast : lastStarting (r :: ranges) n = none := by
        rw [lastStarting, takeWhile_cons_of_neg (by simpa using hstart), getLast?_nil]
      have hnone : lastStarting ranges n = none := by
        cases ranges with
        | nil => rfl
        | cons q ranges =>
          have hr := hnonempty r mem_cons_self
          have hq := hfirst q mem_cons_self
          rw [lastStarting, takeWhile_cons_of_neg (by simp; omega), getLast?_nil]
      simp [hlast, hnone, hstart]

end Sorted

end Clyntis.Lib
