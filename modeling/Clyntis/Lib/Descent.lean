import Mathlib.Data.List.Perm.Subperm

/-!
# Ways down a graph

A key either has children or is a leaf. A depth-first search that refuses a key which is
already on its path shows that no way down is longer than the number of keys with children;
a choice of one child for each key is then a way down that ends.

- `Searched`: what such a search has checked;
- `Descends n`: every way down ends at an accepted leaf, within `n` steps;
- `Searched.descends`: the search bounds every way down;
- `walk`: the way down a choice takes, and `Descends.walk_ends`.
-/

namespace Clyntis.Lib

open List

variable {K : Type} {children : K → Option (List K)} {leaf : K → Prop} {next : K → Option K} {k : K}

/-- What a depth-first search has checked that came down `path` to a key: a leaf is accepted,
and a key with children is new on the path. -/
inductive Searched (children : K → Option (List K)) (leaf : K → Prop) : List K → K → Prop
  | leaf {path k} (hleaf : children k = none) (hk : leaf k) :
      Searched children leaf path k
  | node {path k cs} (hnode : children k = some cs) (hnew : k ∉ path)
      (hcs : ∀ c ∈ cs, Searched children leaf (k :: path) c) : Searched children leaf path k

/-- Every way down from the key ends at an accepted leaf, within `n` steps. -/
inductive Descends (children : K → Option (List K)) (leaf : K → Prop) : Nat → K → Prop
  | leaf {n k} (hleaf : children k = none) (hk : leaf k) :
      Descends children leaf n k
  | node {n k cs} (hnode : children k = some cs)
      (hcs : ∀ c ∈ cs, Descends children leaf n c) : Descends children leaf (n + 1) k

/-- A search that came down distinct keys of a list has at most the others still before it. -/
theorem Searched.descends {nodes : List K} (hnodes : ∀ k cs, children k = some cs → k ∈ nodes)
    {path : List K} (h : Searched children leaf path k) (hpath : path.Nodup)
    (hsub : path ⊆ nodes) : Descends children leaf (nodes.length - path.length) k := by
  induction h with
  | leaf hleaf hk => exact .leaf hleaf hk
  | @node path k cs hnode hnew _ ih =>
    have hpath' : (k :: path).Nodup := nodup_cons.mpr ⟨hnew, hpath⟩
    have hsub' : k :: path ⊆ nodes := cons_subset.mpr ⟨hnodes k cs hnode, hsub⟩
    -- the longer path still fits into the nodes, so one step is left for this key
    have hfits : path.length + 1 ≤ nodes.length := (subperm_of_subset hpath' hsub').length_le
    have hsteps : nodes.length - path.length = nodes.length - (k :: path).length + 1 := by
      rw [length_cons]
      omega
    rw [hsteps]
    exact .node hnode fun c hc => ih c hc hpath' hsub'

/-! ## Following a choice -/

/-- A choice takes a child where there are some, and stops at a leaf. -/
structure Picks (children : K → Option (List K)) (next : K → Option K) : Prop where
  child : ∀ {k c}, next k = some c → ∃ cs, children k = some cs ∧ c ∈ cs
  stop : ∀ {k}, next k = none → children k = none

/-- The keys on the way down that `next` takes; none if it has `n` keys or more before the
last one. -/
def walk (next : K → Option K) : (n : Nat) → K → Option (List K)
  | 0, _ => none
  | n + 1, k =>
    match next k with
    | some c => (walk next n c).map (k :: ·)
    | none => some [k]

/-- A walk begins with its key. -/
theorem exists_of_walk {n : Nat} {path : List K}
    (h : walk next n k = some path) : ∃ rest, path = k :: rest := by
  cases n with
  | zero => cases h
  | succ n =>
    rw [walk] at h
    split at h
    · obtain ⟨rest, -, rfl⟩ := Option.map_eq_some_iff.mp h
      exact ⟨rest, rfl⟩
    · obtain rfl := Option.some.inj h
      exact ⟨[], rfl⟩

/-- A choice of children comes to an accepted leaf within the bound. -/
theorem Descends.walk_ends (hpicks : Picks children next) {n : Nat}
    (h : Descends children leaf n k) {tries : Nat} (htries : n < tries) :
    ∃ rest l, walk next tries k = some (k :: rest) ∧ (k :: rest).getLast? = some l ∧
      children l = none ∧ leaf l := by
  induction h generalizing tries with
  | @leaf n k hleaf hk =>
    obtain ⟨tries, rfl⟩ : ∃ m, tries = m + 1 := ⟨tries - 1, by omega⟩
    have hstop : next k = none := by
      cases hnext : next k with
      | none => rfl
      | some c =>
        obtain ⟨cs, hcs, -⟩ := hpicks.child hnext
        cases hleaf.symm.trans hcs
    exact ⟨[], k, by rw [walk, hstop], rfl, hleaf, hk⟩
  | @node n k cs hnode _ ih =>
    obtain ⟨tries, rfl⟩ : ∃ m, tries = m + 1 := ⟨tries - 1, by omega⟩
    cases hnext : next k with
    | none => cases hnode.symm.trans (hpicks.stop hnext)
    | some c =>
      obtain ⟨cs', hcs', hc⟩ := hpicks.child hnext
      obtain rfl : cs = cs' := Option.some.inj (hnode.symm.trans hcs')
      have hleft : n < tries := by omega
      obtain ⟨rest, l, hwalk, hlast, hl⟩ := ih c hc hleft
      refine ⟨c :: rest, l, ?_, ?_, hl⟩
      · rw [walk, hnext]
        show (walk next tries c).map (k :: ·) = _
        rw [hwalk]
        rfl
      · exact hlast

end Clyntis.Lib
