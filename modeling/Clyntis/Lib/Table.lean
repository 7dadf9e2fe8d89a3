import Mathlib.Algebra.GroupWithZero.Nat
import Mathlib.Data.Finmap
import Mathlib.Data.List.Sort

/-!
# Tables

Hash maps and ordered maps of the modelled code, as Mathlib's association lists
without duplicate keys. The order of the entries is only one possible iteration
order; no result below depends on it.

- `size`, `values`, `retain`, `mapValues`, `modify`: `len()`, `values()`,
  `retain(..)`, `values_mut()` and `get_mut(..)`;
- `sorted`: the entries in the order in which an ordered map is iterated;
- the size lemmas that count what an insertion or a removal does;
- `count`: how many entries have a property, and what each operation does to it;
- `total`: a sum over the values, and what each operation does to it;
- `Map`: a map that is compared by its contents, with `mapValues`;
- the same lookups for a table kept as a function to `Option`.
-/

namespace Clyntis.Lib

open List Function AList

/-- A map from `K` to `V`. -/
abbrev Table (K V : Type) : Type := AList (fun _ : K => V)

namespace Table

variable {K V : Type}

/-- `map.len()`. -/
def size (t : Table K V) : Nat := t.entries.length

/-- `map.values()`. -/
def values (t : Table K V) : List V := t.entries.map Sigma.snd

/-- `map.retain(p)`. -/
def retain (p : K → V → Bool) (t : Table K V) : Table K V :=
  ⟨t.entries.filter fun e => p e.1 e.2, t.nodupKeys.sublist filter_sublist⟩

/-- Replaces every value, in place (`values_mut()`). -/
def mapValues {W : Type} (f : K → V → W) (t : Table K V) : Table K W :=
  ⟨t.entries.map fun e => ⟨e.1, f e.1 e.2⟩, by
    have h := t.nodupKeys
    unfold List.NodupKeys List.keys at h ⊢
    rwa [map_map]⟩

/-- The entries in the order of the keys, as an ordered map is iterated. -/
def sorted [LE K] [DecidableLE K] (t : Table K V) : List (Sigma fun _ : K => V) :=
  t.entries.insertionSort fun a b => a.1 ≤ b.1

variable {k k' : K} {t : Table K V} {v : V} {f : V → V} {p : K → V → Bool}

theorem nodupKeys_sorted [LE K] [DecidableLE K] : t.sorted.NodupKeys :=
  (perm_nodupKeys (perm_insertionSort _ t.entries)).mpr t.nodupKeys

theorem mem_keys_sorted [LE K] [DecidableLE K] : k ∈ t.sorted.keys ↔ k ∈ t :=
  ((perm_insertionSort _ t.entries).map Sigma.fst).mem_iff

/-- An entry's key is not one that the entries do not have. -/
theorem fst_ne_of_notMem_keys {l : List (Sigma fun _ : K => V)} (h : k ∉ l.keys)
    {e : Sigma fun _ : K => V} (he : e ∈ l) : e.1 ≠ k := by
  intro heq
  have hkey := mem_keys_of_mem he
  rw [heq] at hkey
  exact h hkey

/-- The sum of a weight over the values. -/
def total (f : V → Nat) (t : Table K V) : Nat := (t.values.map f).sum

theorem size_eq_keys (t : Table K V) : t.size = t.keys.length := by
  simp [size, AList.keys, List.keys]

/-- A table that is not empty has a key. -/
theorem exists_mem_of_size_pos (h : 0 < t.size) : ∃ k, k ∈ t := by
  rw [size_eq_keys] at h
  obtain ⟨k, hk⟩ := exists_mem_of_length_pos h
  exact ⟨k, mem_keys.mpr hk⟩

/-- How many entries have the property. -/
def count (p : K → V → Bool) (t : Table K V) : Nat := t.entries.countP fun e => p e.1 e.2

theorem count_le_size : count p t ≤ t.size :=
  countP_le_length

/-- The entries with a property and those without are all of them. -/
theorem count_add_count_not (p : K → V → Bool) (t : Table K V) :
    count p t + count (fun k v => !p k v) t = t.size := by
  have h := length_eq_countP_add_countP
    (fun e : Sigma fun _ : K => V => p e.1 e.2) (l := t.entries)
  simp only [Bool.not_eq_true, Bool.decide_eq_false] at h
  exact h.symm

variable [DecidableEq K]

theorem lookup_eq_some_iff : t.lookup k = some v ↔ (⟨k, v⟩ : Sigma fun _ : K => V) ∈ t.entries :=
  mem_lookup_iff

theorem mem_sorted [LE K] [DecidableLE K] {e : Sigma fun _ : K => V} :
    e ∈ t.sorted ↔ t.lookup e.1 = some e.2 :=
  (perm_insertionSort _ t.entries).mem_iff.trans lookup_eq_some_iff.symm

theorem mem_iff_lookup : k ∈ t ↔ ∃ v, t.lookup k = some v := by
  rw [← lookup_isSome, Option.isSome_iff_exists]

/-- A value is in the table when some key has it. -/
theorem mem_values : v ∈ t.values ↔ ∃ k, t.lookup k = some v := by
  constructor
  · intro h
    obtain ⟨⟨k, w⟩, he, rfl⟩ := mem_map.mp h
    exact ⟨k, lookup_eq_some_iff.mpr he⟩
  · rintro ⟨k, hk⟩
    exact mem_map.mpr ⟨⟨k, v⟩, lookup_eq_some_iff.mp hk, rfl⟩

/-- A table in which no key has a value is empty. -/
theorem eq_empty_of_lookup (h : ∀ k, t.lookup k = none) : t = ∅ := by
  refine AList.ext ?_
  rcases hentries : t.entries with _ | ⟨⟨k, v⟩, rest⟩
  · rfl
  · have hmem : (⟨k, v⟩ : Sigma fun _ : K => V) ∈ t.entries := by
      rw [hentries]
      exact mem_cons_self
    have hv : t.lookup k = some v := lookup_eq_some_iff.mpr hmem
    rw [h k] at hv
    cases hv

/-- Erasing a present key removes one entry. -/
theorem size_erase_of_mem (h : k ∈ t) : size (t.erase k) + 1 = t.size := by
  have hpos : 0 < t.keys.length := length_pos_of_mem (mem_keys.mp h)
  rw [size_eq_keys, size_eq_keys, keys_erase, length_erase_of_mem (mem_keys.mp h)]
  omega

/-- Inserting under a fresh key adds one entry. -/
theorem size_insert_of_notMem (v : V) (h : k ∉ t) : size (t.insert k v) = t.size + 1 := by
  unfold size
  rw [entries_insert_of_notMem h, length_cons]

/-- Inserting under a present key keeps the number of entries. -/
theorem size_insert_of_mem (v : V) (h : k ∈ t) : size (t.insert k v) = t.size := by
  rw [size_eq_keys, size_eq_keys, keys_insert, length_cons,
    length_erase_of_mem (mem_keys.mp h)]
  exact Nat.succ_pred_eq_of_pos (length_pos_of_mem (mem_keys.mp h))

/-- What a lookup sees after an insertion. -/
theorem lookup_insert_iff {v' : V} :
    (t.insert k v).lookup k' = some v' ↔
      k' = k ∧ v' = v ∨ k' ≠ k ∧ t.lookup k' = some v' := by
  by_cases h : k' = k
  · subst h
    simp [eq_comm]
  · simp [h]

/-- What a lookup sees after a removal. -/
theorem lookup_erase_iff {v' : V} :
    (t.erase k).lookup k' = some v' ↔ k' ≠ k ∧ t.lookup k' = some v' := by
  by_cases h : k' = k
  · subst h
    simp
  · simp [h]

/-- What a lookup sees after `retain`. -/
theorem lookup_retain_iff :
    (t.retain p).lookup k = some v ↔ t.lookup k = some v ∧ p k v = true := by
  rw [lookup_eq_some_iff, lookup_eq_some_iff]
  exact mem_filter

/-- Replaces the value of one key, if it has one (`get_mut(k)`). -/
def modify (k : K) (f : V → V) (t : Table K V) : Table K V :=
  match t.lookup k with
  | none => t
  | some v => t.insert k (f v)

theorem lookup_modify (k k' : K) (f : V → V) (t : Table K V) :
    (t.modify k f).lookup k' = if k' = k then (t.lookup k).map f else t.lookup k' := by
  unfold modify
  by_cases h : k' = k
  · subst h
    cases hk : t.lookup k' with
    | none => simp [hk]
    | some v => simp
  · cases hk : t.lookup k with
    | none => simp [h]
    | some v => simp [h, lookup_insert_ne h]

@[simp] theorem mem_modify : k' ∈ t.modify k f ↔ k' ∈ t := by
  rw [mem_iff_lookup, mem_iff_lookup, lookup_modify]
  split
  · next h => subst h; simp
  · rfl

/-! ### Counting entries -/

variable {p q : K → V → Bool} {k : K} {v w : V}

theorem count_eq_zero : count p t = 0 ↔ ∀ k v, t.lookup k = some v → p k v = false := by
  unfold count
  rw [countP_eq_zero]
  constructor
  · intro h k v hv
    exact Bool.eq_false_iff.mpr (h _ (lookup_eq_some_iff.mp hv))
  · intro h e he
    exact Bool.eq_false_iff.mp (h e.1 e.2 (lookup_eq_some_iff.mpr he))

theorem count_insert_of_notMem (h : k ∉ t) :
    count p (t.insert k v) = count p t + (p k v).toNat := by
  unfold count
  rw [entries_insert_of_notMem h, countP_cons]
  cases p k v <;> rfl

/-- Erasing an entry takes it out of the list. -/
theorem exists_entries_erase (h : t.lookup k = some v) :
    ∃ l₁ l₂, t.entries = l₁ ++ ⟨k, v⟩ :: l₂ ∧ (t.erase k).entries = l₁ ++ l₂ := by
  obtain ⟨v', l₁, l₂, -, hentries, herase⟩ :=
    exists_of_kerase (mem_keys_of_mem (lookup_eq_some_iff.mp h))
  have hmem : (⟨k, v'⟩ : Sigma fun _ : K => V) ∈ t.entries := by
    rw [hentries]
    simp
  rw [← lookup_eq_some_iff, h] at hmem
  cases hmem
  exact ⟨l₁, l₂, hentries, herase⟩

/-- Erasing an entry takes it out of the count. -/
theorem count_erase (h : t.lookup k = some v) :
    count p (t.erase k) + (p k v).toNat = count p t := by
  obtain ⟨l₁, l₂, hentries, herase⟩ := exists_entries_erase h
  unfold count
  rw [herase, hentries]
  simp only [countP_append, countP_cons]
  cases p k v
  · simp
  · simp
    omega

theorem count_erase_le : count p (t.erase k) ≤ count p t :=
  (kerase_sublist k t.entries).countP_le

theorem size_erase_le : size (t.erase k) ≤ size t :=
  (kerase_sublist k t.entries).length_le

/-- Writing over an entry counts the new value in place of the old one. -/
theorem count_insert_of_lookup (h : t.lookup k = some w) :
    count p (t.insert k v) + (p k w).toNat = count p t + (p k v).toNat := by
  have herase := count_erase (p := p) h
  have hinsert : count p (t.insert k v) = count p (t.erase k) + (p k v).toNat := by
    show List.countP _ (List.kinsert k v t.entries) = _
    rw [kinsert_def, countP_cons]
    cases p k v <;> rfl
  omega

/-- A change that the property does not see leaves the count alone. -/
theorem count_modify (h : ∀ v, p k (f v) = p k v) : count p (t.modify k f) = count p t := by
  unfold modify
  cases hk : t.lookup k with
  | none => rfl
  | some v =>
    have hcount := count_insert_of_lookup (p := p) (v := f v) hk
    rw [h v] at hcount
    exact Nat.add_right_cancel hcount

@[simp] theorem size_modify : size (t.modify k f) = size t := by
  unfold modify
  cases hk : t.lookup k with
  | none => rfl
  | some v => exact size_insert_of_mem _ (mem_iff_lookup.mpr ⟨v, hk⟩)

/-! ### Sums -/

variable {f : V → Nat}

theorem total_erase (h : t.lookup k = some v) : total f (t.erase k) + f v = total f t := by
  obtain ⟨l₁, l₂, hentries, herase⟩ := exists_entries_erase h
  unfold total values
  rw [herase, hentries]
  simp only [map_append, map_cons, sum_append, sum_cons]
  omega

theorem total_insert_of_notMem (h : k ∉ t) : total f (t.insert k v) = total f t + f v := by
  unfold total values
  rw [entries_insert_of_notMem h, map_cons, map_cons, sum_cons, Nat.add_comm]

end Table

/-! ## Maps compared by their contents -/

/-- A map from `K` to `V` without an order of its entries. -/
abbrev Map (K V : Type) : Type := Finmap (fun _ : K => V)

namespace Map

variable {K V : Type}

/-- Replaces every value, in place (`values_mut()`). -/
def mapValues (f : K → V → V) (t : Map K V) : Map K V :=
  ⟨t.entries.map fun e => ⟨e.1, f e.1 e.2⟩, by
    have h := t.nodupKeys
    rw [← Multiset.nodup_keys] at h ⊢
    unfold Multiset.keys at h ⊢
    rwa [Multiset.map_map]⟩

@[simp] theorem keys_mapValues (f : K → V → V) (t : Map K V) : (t.mapValues f).keys = t.keys := by
  refine Finset.val_injective ?_
  show Multiset.map Sigma.fst (t.entries.map _) = Multiset.map Sigma.fst t.entries
  rw [Multiset.map_map]
  rfl

variable [DecidableEq K]

@[simp] theorem lookup_mapValues (f : K → V → V) (t : Map K V) (k : K) :
    (t.mapValues f).lookup k = (t.lookup k).map (f k) := by
  ext v
  rw [Finmap.lookup_eq_some_iff, Option.map_eq_some_iff]
  show _ ∈ t.entries.map _ ↔ _
  rw [Multiset.mem_map]
  constructor
  · rintro ⟨⟨k', w⟩, hmem, heq⟩
    cases heq
    exact ⟨w, Finmap.lookup_eq_some_iff.mpr hmem, rfl⟩
  · rintro ⟨w, hw, rfl⟩
    exact ⟨⟨k, w⟩, Finmap.lookup_eq_some_iff.mp hw, rfl⟩

end Map

/-! ## Partial functions

Tables kept as functions, for state that is only ever looked up. -/

section

variable {I V : Type} [DecidableEq I] {f : I → Option V} {i j : I} {v w : V}

/-- What a lookup sees after one entry was set. -/
theorem update_some_eq_some :
    update f i (some v) j = some w ↔ j = i ∧ v = w ∨ j ≠ i ∧ f j = some w := by
  by_cases h : j = i
  · subst h
    simp
  · simp [h]

/-- What a lookup sees after one entry was taken out. -/
theorem update_none_eq_some :
    update f i none j = some w ↔ j ≠ i ∧ f j = some w := by
  by_cases h : j = i
  · subst h
    simp
  · simp [h]

end

end Clyntis.Lib
