import Mathlib.Data.List.Basic

/-!
# Reading from a stream that arrives in pieces

A task that awaits its reads sees a stream as the pieces its reads find; an empty piece is a
read that had to wait. `readExact` collects bytes over as many pieces as it takes, so what it
returns depends on the bytes only (`readExact_append`, `readExact_eq_none`).
-/

namespace Clyntis.Lib.Chunks

open List

variable {β : Type} {cs : List (List β)} {bs rest : List β} {n : Nat}

/-- `reader.read_exact(&mut buf)` with a buffer of `n` bytes: the bytes and what is left of the
pieces; `none` if the stream ends before. -/
def readExact (n : Nat) : List (List β) → Option (List β × List (List β))
  | [] => if n = 0 then some ([], []) else none
  | c :: cs =>
    if n ≤ c.length then some (c.take n, c.drop n :: cs)
    else (readExact (n - c.length) cs).map fun r => (c ++ r.1, r.2)

/-- The bytes in front are read, however they are cut. -/
theorem readExact_append (h : cs.flatten = bs ++ rest) :
    ∃ cs', readExact bs.length cs = some (bs, cs') ∧ cs'.flatten = rest := by
  induction cs generalizing bs with
  | nil =>
    obtain ⟨rfl, rfl⟩ := append_eq_nil_iff.mp h.symm
    exact ⟨[], rfl, rfl⟩
  | cons c cs ih =>
    rw [readExact]
    rcases append_eq_append_iff.mp h with ⟨more, rfl, hrest⟩ | ⟨more, rfl, rfl⟩
    · -- the piece is used up
      by_cases hnil : more = []
      · subst hnil
        refine ⟨[] :: cs, ?_, by simpa using hrest⟩
        rw [append_nil, if_pos (Nat.le_refl _), take_length, drop_length]
      · obtain ⟨cs', hread, hflat⟩ := ih hrest
        refine ⟨cs', ?_, hflat⟩
        have hpos := length_pos_iff.mpr hnil
        rw [length_append, if_neg (by omega), Nat.add_sub_cancel_left, hread]
        rfl
    · refine ⟨more :: cs, ?_, rfl⟩
      rw [if_pos (by rw [length_append]; omega), take_left, drop_left]

/-- A stream that ends before is reported. -/
theorem readExact_eq_none (h : cs.flatten.length < n) : readExact n cs = none := by
  induction cs generalizing n with
  | nil => exact if_neg (Nat.ne_of_gt h)
  | cons c cs ih =>
    rw [flatten_cons, length_append] at h
    rw [readExact, if_neg (by omega), ih (by omega)]
    rfl

end Clyntis.Lib.Chunks
