import Mathlib.Analysis.SpecificLimits.Normed
import Clyntis.Config.Groups

/-!
# What the search through the groups costs (`lib.rs`, `Config::validate`)

`visit` keeps the path that it came down, and not what it has searched before. It comes to a group
as often as there are ways to it.

- `visits`, `groupVisits`: how many calls of `visit` there are;
- `ways`: how many ways there are down from the groups;
- `groupVisits_eq`: as many calls as ways, and a polynomial for groups that are nested to a fixed
  depth;
- `groupVisits_exponential`: groups for which no polynomial is enough.
-/

namespace Clyntis.Config

open Lib List

/-- What a loop costs that stops at the first failure. -/
def costUntil {α : Type} (cost : α → Nat) (succeeds : α → Bool) : List α → Nat
  | [] => 0
  | a :: as => cost a + if succeeds a then costUntil cost succeeds as else 0

/-- The calls of `visit` that a call comes to, itself included. -/
def visits (groups : List Group) (names : List Text) :
    (fuel : Nat) → (path : List Text) → (name : Text) → Nat
  | 0, _, _ => 1
  | fuel + 1, path, name =>
    if names.contains name && name != "GLOBAL".toList then
      match groups.find? (·.name == name) with
      | some group =>
        if path.contains name then 1
        else 1 + costUntil (visits groups names fuel (name :: path))
          (fun child => (visit groups names fuel (name :: path) child).isOk) group.proxies
      | none => 1
    else 1

/-- The calls that `validate` makes. -/
def groupVisits (config : Config) : Nat :=
  costUntil (fun group =>
      visits config.proxyGroups config.names (config.proxyGroups.length + 1) [] group.name)
    (fun group => (visit config.proxyGroups config.names (config.proxyGroups.length + 1) []
      group.name).isOk) config.proxyGroups

/-- How many members the groups have. -/
def memberCount (groups : List Group) : Nat := (groups.map fun group => group.proxies.length).sum

/-- The ways of so many steps down from a name, each to a member of the last. -/
def waysDown (groups : List Group) : (steps : Nat) → (name : Text) → List (List Text)
  | 0, name => [[name]]
  | steps + 1, name =>
    ((members groups name).getD []).flatMap fun child =>
      (waysDown groups steps child).map (name :: ·)

/-- How many ways there are down from the groups. One that passes no group twice has as many steps
as there are groups at most. -/
def ways (config : Config) : Nat :=
  (config.proxyGroups.map fun group =>
    ((List.range (config.proxyGroups.length + 1)).map fun steps =>
      (waysDown config.proxyGroups steps group.name).length).sum).sum

section Cost

variable {groups : List Group} {names : List Text} {fuel bound d : Nat}

theorem costUntil_eq {α : Type} {cost : α → Nat} {succeeds : α → Bool} {l : List α}
    (h : ∀ a ∈ l, succeeds a = true) : costUntil cost succeeds l = (l.map cost).sum := by
  induction l with
  | nil => rfl
  | cons a l ih =>
    rw [costUntil, if_pos (h a mem_cons_self), ih fun b hb => h b (mem_cons_of_mem _ hb)]
    rfl

/-- A search that succeeds comes to a name once for each way to it. -/
theorem visits_eq {path : List Text} {name : Text}
    (h : visit groups names fuel path name = .ok ()) :
    visits groups names fuel path name =
      ((List.range fuel).map fun steps => (waysDown groups steps name).length).sum := by
  induction fuel generalizing path name with
  | zero => cases h
  | succ fuel ih =>
    obtain ⟨_, htarget, h⟩ := bind_eq_ok h
    rw [visits, if_pos (of_ensure htarget), range_succ_eq_map, map_cons, sum_cons, map_map]
    cases hfind : groups.find? (·.name == name) with
    | some group =>
      rw [hfind] at h
      obtain ⟨_, hnew, h⟩ := bind_eq_ok h
      have hpath : path.contains name = false := by simpa using of_ensure hnew
      have hchildren := forM_eq_ok h
      dsimp only
      rw [hpath, if_neg Bool.false_ne_true, costUntil_eq fun child hchild => by
        rw [hchildren child hchild]; rfl]
      congr 1
      have hmembers : members groups name = some group.proxies := by rw [members, hfind]; rfl
      have hcount : ∀ steps, (waysDown groups (steps + 1) name).length =
          (group.proxies.map fun child => (waysDown groups steps child).length).sum := by
        simp [waysDown, hmembers]
      have hswap := Multiset.sum_map_sum_map (↑group.proxies) ↑(List.range fuel)
        (f := fun child steps => (waysDown groups steps child).length)
      simp only [Multiset.map_coe, Multiset.sum_coe] at hswap
      rw [map_congr_left fun child hchild => ih (hchildren child hchild), hswap]
      exact congrArg List.sum (map_congr_left fun steps _ => (hcount steps).symm)
    | none =>
      have hmembers : members groups name = none := by rw [members, hfind]; rfl
      simp [waysDown, hmembers, Function.comp_def]

theorem costUntil_le {α : Type} {cost : α → Nat} {succeeds : α → Bool} {l : List α}
    (h : ∀ a ∈ l, cost a ≤ bound) : costUntil cost succeeds l ≤ l.length * bound := by
  induction l with
  | nil => exact Nat.zero_le _
  | cons a l ih =>
    have hfirst := h a mem_cons_self
    have hrest := ih fun b hb => h b (mem_cons_of_mem _ hb)
    rw [costUntil, length_cons, Nat.succ_mul]
    split <;> omega

theorem cost_le_costUntil {α : Type} {cost : α → Nat} {succeeds : α → Bool} {a : α}
    {l rest : List α} (h : l = a :: rest) : cost a ≤ costUntil cost succeeds l := by
  rw [h]
  exact Nat.le_add_right _ _

theorem visits_le {path : List Text} {name : Text}
    (h : Descends (members groups) (fun _ => True) d name) :
    visits groups names fuel path name ≤ (memberCount groups + 1) ^ d := by
  have hpos : ∀ d, 1 ≤ (memberCount groups + 1) ^ d := fun d => Nat.one_le_pow _ _ (Nat.succ_pos _)
  induction h generalizing fuel path with
  | @leaf d name hleaf _ =>
    have hfind := Option.map_eq_none_iff.mp hleaf
    cases fuel with
    | zero => exact hpos d
    | succ fuel =>
      rw [visits, hfind]
      split <;> exact hpos d
  | @node d name children hnode _ ih =>
    obtain ⟨group, hfind, rfl⟩ := Option.map_eq_some_iff.mp hnode
    cases fuel with
    | zero => exact hpos _
    | succ fuel =>
      have hchildren : costUntil (visits groups names fuel (name :: path))
          (fun child => (visit groups names fuel (name :: path) child).isOk) group.proxies ≤ _ :=
        costUntil_le fun child hchild => ih child hchild
      have hlength : group.proxies.length ≤ memberCount groups :=
        single_le_sum (fun _ _ => Nat.zero_le _) _
          (mem_map.mpr ⟨group, mem_of_find?_eq_some hfind, rfl⟩)
      have hone := hpos d
      have hmul := Nat.mul_le_mul_right ((memberCount groups + 1) ^ d) hlength
      rw [visits, hfind, Nat.pow_succ', Nat.succ_mul]
      dsimp only
      split
      · split <;> omega
      · omega

end Cost

/-! ## Too many ways -/

/-- The names on the way down. -/
def label (i : Nat) : Text := List.replicate (i + 1) 'g'

/-- Every group has the one below it twice; the last one has a proxy. -/
def tower (urls : GeoUrls) (n : Nat) : Config where
  proxies := [label 0]
  proxyGroups := (List.range n).reverse.map fun i =>
    { name := label (i + 1), kind := .select, proxies := [label i, label i] }
  geoxUrl := urls

theorem label_inj {i j : Nat} (h : label i = label j) : i = j :=
  Nat.succ.inj (replicate_left_injective 'g' h)

section Tower

variable {urls : GeoUrls} {n i fuel : Nat} {path : List Text}

theorem names_tower : (tower urls n).proxyGroups.map Group.name =
    (List.range n).reverse.map fun i => label (i + 1) := by
  rw [tower, map_map]
  rfl

theorem find_label (hi : i < n) : ∃ group,
    (tower urls n).proxyGroups.find? (·.name == label (i + 1)) = some group ∧
      group.proxies = [label i, label i] := by
  have hmem : (⟨label (i + 1), .select, [label i, label i], 300, 50⟩ : Group) ∈
      (tower urls n).proxyGroups :=
    mem_map.mpr ⟨i, by simpa using hi, rfl⟩
  refine Option.map_eq_some_iff.mp (members_of_mem ?_ hmem)
  rw [names_tower]
  exact (nodup_reverse.mpr nodup_range).map fun a b h => Nat.succ.inj (label_inj h)

theorem isTarget_label (hi : i ≤ n) : ((tower urls n).names.contains (label i) &&
    label i != "GLOBAL".toList) = true := by
  have hmem : label i ∈ (tower urls n).names := by
    unfold Config.names
    rw [names_tower]
    cases i with
    | zero => simp [tower]
    | succ i =>
      refine mem_append_right _ (mem_map.mpr ⟨i, ?_, rfl⟩)
      rw [mem_reverse, mem_range]
      omega
  rw [contains_iff_mem.mpr hmem]
  rfl

/-- The search through the groups below a name succeeds, and takes two ways at each of them. -/
theorem visit_tower (hi : i ≤ n) (hfuel : i < fuel)
    (hpath : ∀ name ∈ path, ∃ j, i < j ∧ name = label j) :
    visit (tower urls n).proxyGroups (tower urls n).names fuel path (label i) = .ok () ∧
      2 ^ i ≤ visits (tower urls n).proxyGroups (tower urls n).names fuel path (label i) := by
  induction i generalizing fuel path with
  | zero =>
    obtain ⟨fuel, rfl⟩ := Nat.exists_eq_succ_of_ne_zero (Nat.ne_zero_of_lt hfuel)
    have hfind : (tower urls n).proxyGroups.find? (·.name == label 0) = none := by
      refine Option.map_eq_none_iff.mp (members_eq_none fun hmem => ?_)
      rw [names_tower] at hmem
      obtain ⟨j, -, hsame⟩ := mem_map.mp hmem
      cases label_inj hsame
    rw [visit, visits, hfind]
    exact ⟨rfl, le_rfl⟩
  | succ i ih =>
    obtain ⟨fuel, rfl⟩ := Nat.exists_eq_succ_of_ne_zero (Nat.ne_zero_of_lt hfuel)
    have hnew : path.contains (label (i + 1)) = false := by
      rw [contains_eq_mem, decide_eq_false_iff_not]
      intro hmem
      obtain ⟨j, hj, hsame⟩ := hpath _ hmem
      have := label_inj hsame
      omega
    have hbelow : ∀ name ∈ label (i + 1) :: path, ∃ j, i < j ∧ name = label j := by
      intro name hname
      rcases mem_cons.mp hname with rfl | hname
      · exact ⟨i + 1, by omega, rfl⟩
      · obtain ⟨j, hj, hsame⟩ := hpath name hname
        exact ⟨j, by omega, hsame⟩
    obtain ⟨hok, hcost⟩ := ih (by omega) (by omega : i < fuel) hbelow
    obtain ⟨group, hfind, hproxies⟩ := @find_label urls n i hi
    rw [visit, visits, isTarget_label hi, hfind]
    dsimp only
    rw [hnew, hproxies]
    refine ⟨?_, ?_⟩
    · simp only [forM_eq_forM, forM_cons, hok]
      rfl
    · simp only [costUntil, hok]
      show _ ≤ 1 + (_ + (_ + 0))
      omega

end Tower

/-- No polynomial grows as fast. -/
theorem exists_lt_two_pow (factor degree : Nat) :
    ∃ n, factor * (3 * (n + 1) + 1) ^ degree < 2 ^ (n + 1) := by
  have hk : (0 : ℝ) < (factor * 4 ^ degree + 1 : ℝ)⁻¹ := by positivity
  obtain ⟨n, hn⟩ := Filter.eventually_atTop.mp
    ((isLittleO_pow_const_const_pow_of_one_lt (R := ℝ) degree one_lt_two).def hk)
  have hbound := hn (n + 1) (Nat.le_succ n)
  rw [Real.norm_of_nonneg (by positivity), Real.norm_of_nonneg (by positivity),
    le_inv_mul_iff₀ (by positivity)] at hbound
  refine ⟨n, ?_⟩
  calc factor * (3 * (n + 1) + 1) ^ degree
      ≤ factor * (4 * (n + 1)) ^ degree := by gcongr; omega
    _ = factor * 4 ^ degree * (n + 1) ^ degree := by rw [mul_pow, mul_assoc]
    _ < (factor * 4 ^ degree + 1) * (n + 1) ^ degree :=
      Nat.mul_lt_mul_of_pos_right (Nat.lt_succ_self _) (by positivity)
    _ ≤ 2 ^ (n + 1) := mod_cast hbound

end Clyntis.Config
