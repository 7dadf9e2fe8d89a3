import Clyntis.Config.Settings
import Clyntis.Lib.Descent

/-!
# The groups of a valid configuration (`lib.rs`, `Config::validate`)

What the checks of names, groups and rule targets establish together.

- `visit_searched`: what a search that succeeds has checked; `visit_add_fuel`: that it has fuel
  enough;
- `ValidGroups`: the names of a valid configuration are distinct, no group is empty, every
  group was searched and every rule has a known target;
- `ValidGroups.descends`: from a known name, every way down through the groups ends.
-/

namespace Clyntis.Config

open Lib List

/-! ## Names -/

theorem collectNames_eq {taken : Text → ConfigError} {names names' l : List Text}
    (h : collectNames taken names l = .ok names') :
    names' = names ++ l ∧ (names.Nodup → names'.Nodup) := by
  induction l generalizing names with
  | nil =>
    obtain rfl := Except.ok.inj h
    exact ⟨(append_nil names).symm, id⟩
  | cons name l ih =>
    obtain ⟨_, hcheck, h⟩ := bind_eq_ok h
    have hnew : name ∉ names := by
      have hboth := of_ensure hcheck
      simp only [Bool.and_eq_true, Bool.not_eq_true', contains_eq_mem,
        decide_eq_false_iff_not] at hboth
      exact hboth.2
    obtain ⟨rfl, hnodup⟩ := ih h
    refine ⟨append_cons names name l |>.symm, fun hnames => hnodup ?_⟩
    exact nodup_append.mpr ⟨hnames, nodup_singleton name, fun a ha b hb heq =>
      hnew (mem_singleton.mp hb ▸ heq ▸ ha)⟩

theorem collectGroups_eq {names names' : List Text} {groups : List Group}
    (h : collectGroups names groups = .ok names') :
    names' = names ++ groups.map Group.name ∧ (names.Nodup → names'.Nodup) ∧
      ∀ group ∈ groups, group.proxies ≠ [] := by
  induction groups generalizing names with
  | nil =>
    obtain rfl := Except.ok.inj h
    exact ⟨(append_nil names).symm, id, fun _ hmem => absurd hmem not_mem_nil⟩
  | cons group groups ih =>
    obtain ⟨_, hname, h⟩ := bind_eq_ok h
    obtain ⟨_, hmembers, h⟩ := bind_eq_ok h
    obtain ⟨_, -, h⟩ := bind_eq_ok h
    obtain ⟨rfl, hfirst⟩ := collectNames_eq hname
    obtain ⟨rfl, hrest, hfull⟩ := ih h
    refine ⟨by rw [append_assoc]; rfl, fun hnames => hrest (hfirst hnames), ?_⟩
    intro g hg
    rcases mem_cons.mp hg with rfl | hg
    · have hsome := of_ensure hmembers
      simpa using hsome
    · exact hfull g hg

/-! ## The search for cycles -/

section

variable {groups : List Group} {names : List Text}

/-- The members of the group with a name. -/
def members (groups : List Group) (name : Text) : Option (List Text) :=
  (groups.find? (·.name == name)).map Group.proxies

variable {name : Text}

theorem mem_of_members {cs : List Text} (h : members groups name = some cs) :
    name ∈ groups.map Group.name := by
  obtain ⟨group, hfind, -⟩ := Option.map_eq_some_iff.mp h
  have hname := find?_some hfind
  exact mem_map.mpr ⟨group, mem_of_find?_eq_some hfind, eq_of_beq hname⟩

theorem members_eq_none (h : name ∉ groups.map Group.name) : members groups name = none := by
  cases hmembers : members groups name with
  | none => rfl
  | some cs => exact absurd (mem_of_members hmembers) h

/-- With distinct names, a group is found under its own. -/
theorem members_of_mem (hnodup : (groups.map Group.name).Nodup) {group : Group}
    (hgroup : group ∈ groups) : members groups group.name = some group.proxies := by
  cases hfind : groups.find? (·.name == group.name) with
  | none =>
    have hno := find?_eq_none.mp hfind group hgroup
    exact absurd BEq.rfl hno
  | some found =>
    have hname := find?_some hfind
    have hsame : found = group :=
      inj_on_of_nodup_map hnodup (mem_of_find?_eq_some hfind) hgroup (eq_of_beq hname)
    rw [members, hfind, hsame]
    rfl

/-- A target of a group is known, and is not the reserved name of the first group. -/
def IsTarget (names : List Text) (name : Text) : Prop := name ∈ names ∧ name ≠ "GLOBAL".toList

theorem visit_searched {fuel : Nat} {path : List Text}
    (h : visit groups names fuel path name = .ok ()) :
    Searched (members groups) (IsTarget names) path name := by
  induction fuel generalizing path name with
  | zero => cases h
  | succ fuel ih =>
    obtain ⟨_, htarget, h⟩ := bind_eq_ok h
    split at h
    · next group hfind =>
      obtain ⟨_, hnew, h⟩ := bind_eq_ok h
      refine .node (by rw [members, hfind]; rfl) (by simpa using of_ensure hnew) ?_
      intro child hchild
      exact ih (forM_eq_ok h child hchild)
    · next hfind =>
      refine .leaf (by rw [members, hfind]; rfl) ?_
      simpa [IsTarget] using of_ensure htarget

/-- The search does not run out of fuel: the groups on a path are distinct, and more fuel than there
are groups left makes no difference. -/
theorem visit_add_fuel {fuel : Nat} {path : List Text} (hnodup : path.Nodup)
    (hsub : path ⊆ groups.map Group.name) (hfuel : groups.length < path.length + fuel)
    (more : Nat) (name : Text) :
    visit groups names (fuel + more) path name = visit groups names fuel path name := by
  induction fuel generalizing path name with
  | zero =>
    have hle := (subperm_of_subset hnodup hsub).length_le
    rw [length_map] at hle
    omega
  | succ fuel ih =>
    rw [Nat.succ_add, visit, visit]
    congr 1
    funext _
    split
    · next group hfind =>
      have hname : name ∈ groups.map Group.name := mem_of_members (by rw [members, hfind]; rfl)
      by_cases hmem : name ∈ path
      · simp [ensure, hmem, bind, Except.bind]
      · have hbelow : ∀ child, visit groups names (fuel + more) (name :: path) child =
            visit groups names fuel (name :: path) child :=
          ih (nodup_cons.mpr ⟨hmem, hnodup⟩) (cons_subset.mpr ⟨hname, hsub⟩)
            (by rw [length_cons]; omega)
        simp only [hbelow]
    · rfl

end

/-! ## Valid configurations -/

/-- The names a rule can send to. -/
def names (config : Config) : List Text :=
  ["DIRECT", "REJECT", "GLOBAL"].map String.toList ++ config.proxies ++
    config.proxyGroups.map Group.name

/-- What `validate` has established of names, groups and rule targets. -/
structure ValidGroups (lib : RuleLib) (config : Config) : Prop where
  nodup : config.names.Nodup
  full : ∀ group ∈ config.proxyGroups, group.proxies ≠ []
  searched : ∀ group ∈ config.proxyGroups,
    Searched (members config.proxyGroups) (IsTarget config.names) [] group.name
  targets : ∀ raw ∈ config.rules, ∀ rule, Rule.parse lib raw = .ok rule →
    rule.target ∈ config.names

theorem validGroups_of_validate {lib : RuleLib} {config : Config}
    (h : config.validate lib = .ok ()) : ValidGroups lib config := by
  obtain ⟨_, -, h⟩ := bind_eq_ok h
  obtain ⟨_, hproxies, h⟩ := bind_eq_ok h
  obtain ⟨_, hgroups, h⟩ := bind_eq_ok h
  obtain ⟨_, hvisits, h⟩ := bind_eq_ok h
  obtain ⟨_, hrules, -⟩ := bind_eq_ok h
  obtain ⟨rfl, hfirst⟩ := collectNames_eq hproxies
  obtain ⟨rfl, hsecond, hfull⟩ := collectGroups_eq hgroups
  refine ⟨hsecond (hfirst (by decide)), hfull, fun group hgroup => ?_, ?_⟩
  · exact visit_searched (forM_eq_ok hvisits group hgroup)
  · intro raw hraw rule hparse
    obtain ⟨index, hindex⟩ := mem_iff_getElem?.mp hraw
    have hchecked := forM_eq_ok hrules (raw, index) (mk_mem_zipIdx_iff_getElem?.mpr hindex)
    obtain ⟨found, hfound, hchecked⟩ := bind_eq_ok hchecked
    rw [hparse] at hfound
    obtain rfl := Except.ok.inj hfound
    obtain ⟨_, htarget, -⟩ := bind_eq_ok hchecked
    exact contains_iff_mem.mp (of_ensure htarget)

namespace ValidGroups

variable {lib : RuleLib} {config : Config} {name : Text} (h : ValidGroups lib config)
include h

theorem nodup_groups : (config.proxyGroups.map Group.name).Nodup :=
  (nodup_append.mp h.nodup).2.1

/-- The names of proxies and groups are none of the reserved ones. -/
theorem ne_of_reserved {reserved name : Text}
    (hreserved : reserved ∈ ["DIRECT", "REJECT", "GLOBAL"].map String.toList)
    (hname : name ∈ config.proxies ++ config.proxyGroups.map Group.name) : reserved ≠ name := by
  have hnodup := h.nodup
  unfold Config.names at hnodup
  rw [append_assoc] at hnodup
  exact (nodup_append.mp hnodup).2.2 reserved hreserved name hname

theorem isTarget_of_configured
    (hname : name ∈ config.proxies ++ config.proxyGroups.map Group.name) :
    IsTarget config.names name := by
  constructor
  · unfold Config.names
    rw [append_assoc]
    exact mem_append_right _ hname
  · exact (h.ne_of_reserved (by decide) hname).symm

/-- From a known name, every way down ends at a known name that is not a group. -/
theorem descends (hname : IsTarget config.names name) :
    Descends (members config.proxyGroups) (IsTarget config.names) config.proxyGroups.length
      name := by
  by_cases hgroup : name ∈ config.proxyGroups.map Group.name
  · obtain ⟨group, hmem, rfl⟩ := mem_map.mp hgroup
    have hbound := (h.searched group hmem).descends (fun _ _ => mem_of_members) nodup_nil
      (nil_subset _)
    rwa [length_map] at hbound
  · exact .leaf (members_eq_none hgroup) hname

/-- A known name that is not a group is a node. -/
theorem node_of_target
    (hname : IsTarget config.names name) (hleaf : members config.proxyGroups name = none) :
    name ∈ config.proxies ∨ name = "DIRECT".toList ∨ name = "REJECT".toList := by
  obtain ⟨hmem, hglobal⟩ := hname
  rcases mem_append.mp hmem with hmem | hgroup
  · rcases mem_append.mp hmem with hmem | hproxy
    · simp only [map_cons, map_nil, mem_cons, not_mem_nil, or_false] at hmem
      rcases hmem with hdirect | hreject | hglobal'
      · exact .inr (.inl hdirect)
      · exact .inr (.inr hreject)
      · exact absurd hglobal' hglobal
    · exact .inl hproxy
  · obtain ⟨group, hin, rfl⟩ := mem_map.mp hgroup
    rw [members_of_mem h.nodup_groups hin] at hleaf
    cases hleaf

end ValidGroups

end Clyntis.Config
