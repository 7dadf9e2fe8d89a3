import Mathlib.Data.List.Iterate
import Mathlib.Dynamics.PeriodicPts.Defs

/-!
# Going round

What comes again and again when a function is iterated.

- `mem_iterate_of_period`: from one time to the next, everything comes that ever comes;
- `mem_iterate_of_not_nodup`: so it does once anything has come twice.
-/

namespace Clyntis.Lib

open List

variable {α : Type} {f : α → α} {a : α} {n : Nat}

theorem mem_iterate_of_period (h : f^[n] a = a) (hn : 0 < n) (k : Nat) :
    f^[k] a ∈ List.iterate f a n := by
  have hperiod : Function.IsPeriodicPt f n a := h
  exact mem_iterate.mpr ⟨k % n, Nat.mod_lt _ hn, (hperiod.iterate_mod_apply k).symm⟩

theorem mem_iterate_of_not_nodup (h : ¬ (List.iterate f a n).Nodup) (k : Nat) :
    f^[k] a ∈ List.iterate f a n := by
  rw [nodup_iff_getElem?_ne_getElem?] at h
  push Not at h
  obtain ⟨i, j, hij, hj, heq⟩ := h
  rw [length_iterate] at hj
  rw [getElem?_iterate _ _ _ _ (hij.trans hj), getElem?_iterate _ _ _ _ hj] at heq
  by_cases hk : k < i
  · exact mem_iterate.mpr ⟨k, by omega, rfl⟩
  · -- from `i` on it goes round in `j - i` steps
    have hperiod : f^[j - i] (f^[i] a) = f^[i] a := by
      rw [← Function.iterate_add_apply, Nat.sub_add_cancel hij.le]
      exact (Option.some.inj heq).symm
    obtain ⟨r, hr, hround⟩ := mem_iterate.mp
      (mem_iterate_of_period hperiod (by omega) (k - i))
    rw [← Function.iterate_add_apply, ← Function.iterate_add_apply, Nat.sub_add_cancel (by omega)]
      at hround
    exact mem_iterate.mpr ⟨r + i, by omega, hround⟩

end Clyntis.Lib
