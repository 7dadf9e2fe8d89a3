import Mathlib.Data.List.MinMax
import Clyntis.Config.Groups
import Clyntis.Core.Route

/-!
# Group selection (`lib.rs`, `profile.rs`)

Which member each group uses. The selection starts with the first member of every group; a
user, the url-test tasks and a saved profile change it, one entry at a time.

- `initialSelection`, `select`, `urlTestUpdate`, `loadSelection`: the writes;
- `SelectionStep`, `ReachableSelection`: what can follow from them, in any order;
- `ReachableSelection.picks`: the selection always names a member of each group;
- `groups_reach_node`: from every name a rule can use, `chain` and `leaf` come to a node.

Saving a profile is left out: it reads the selection and does not change it.
-/

namespace Clyntis.Core

open Lib Config List Option

/-- `selection` of `Policy`. -/
abbrev Selection : Type := Table Text Text

/-! ## The writes -/

/-- The loop of `Core::new` over the groups. `group.proxies[0]` panics for an empty group. -/
def initialSelection (groups : List Group) : Exec Selection :=
  groups.foldlM (fun selection group => do
    let first ← index group.proxies 0
    return selection.insert group.name first) ∅

/-- `select`. -/
def select (groups : List Group) (selection : Selection) (group name : Text) :
    Except Text Selection :=
  match groups.find? (·.name == group) with
  | some config => do
    ensure (config.proxies.any (· == name)) "node not in group".toList
    return selection.insert group name
  | none => .error "group not found".toList

/-- `saturating_add` of delays, which are `u64`. -/
def saturatingAdd (a b : Nat) : Nat := min (a + b) (2 ^ 64 - 1)

/-- `url_test_choice`. -/
def urlTestChoice (current : Option Text) (results : List (Text × Option Nat))
    (tolerance : Nat) : Option Text := do
  let working := results.filterMap fun result => result.2.map fun delay => (result.1, delay)
  let best ← working.argmin Prod.snd
  let currentDelay := current.bind fun name =>
    (results.find? fun result => result.1 == name).bind Prod.snd
  match currentDelay with
  | some delay => if delay ≤ saturatingAdd best.2 tolerance then current else some best.1
  | none => some best.1

/-- The end of a round of a url-test task, when its probes have come back. -/
def urlTestUpdate (selection : Selection) (group : Group) (results : List (Text × Option Nat)) :
    Selection :=
  match urlTestChoice (selection.lookup group.name) results group.tolerance with
  | some next => selection.insert group.name next
  | none => selection

/-- The loop of `load_profile` over the saved selection, in whatever order its map has. -/
def loadSelection (groups : List Group) (selection : Selection) (saved : List (Text × Text)) :
    Selection :=
  saved.foldl (fun selection entry =>
    if groups.any fun g => g.name == entry.1 && g.proxies.contains entry.2 then
      selection.insert entry.1 entry.2
    else selection) selection

/-- A write to the selection. -/
inductive SelectionStep (groups : List Group) : Selection → Selection → Prop
  | select {s s' group name} (hselect : select groups s group name = .ok s') :
      SelectionStep groups s s'
  /-- each member is probed, with whatever outcome -/
  | urlTest {s group results} (hgroup : group ∈ groups) (hkind : group.kind = .urlTest)
      (hresults : results.map Prod.fst = group.proxies) :
      SelectionStep groups s (urlTestUpdate s group results)
  | load {s} (saved : List (Text × Text)) :
      SelectionStep groups s (loadSelection groups s saved)

/-- The selections a core with these groups can come to. -/
def ReachableSelection (groups : List Group) (s : Selection) : Prop :=
  ∃ s₀, initialSelection groups = .ok s₀ ∧ Relation.ReflTransGen (SelectionStep groups) s₀ s

/-! ## What a write can do -/

/-- One entry is set, to a member of its group. -/
inductive SetMember (groups : List Group) (s : Selection) : Selection → Prop
  | mk {name member cs} (hgroup : members groups name = some cs)
      (hmember : member ∈ cs) : SetMember groups s (s.insert name member)

/-- Entries are set, one after the other. -/
abbrev SetMembers (groups : List Group) : Selection → Selection → Prop :=
  Relation.ReflTransGen (SetMember groups)

variable {groups : List Group} {results : List (Text × Option Nat)} {chain : List Text}
  {core : RouteCore} {config : Config} {lib : RuleLib}

/-- Every entry of a selection that was set so names a group and one of its members. -/
theorem SetMembers.chosen {s : Selection} (h : SetMembers groups ∅ s)
    {name member : Text} (hlookup : s.lookup name = some member) :
    ∃ cs, members groups name = some cs ∧ member ∈ cs := by
  induction h with
  | refl => cases hlookup
  | tail _ hset ih =>
    obtain ⟨hgroup, hmember⟩ := hset
    rcases Table.lookup_insert_iff.mp hlookup with ⟨rfl, rfl⟩ | ⟨-, hold⟩
    · exact ⟨_, hgroup, hmember⟩
    · exact ih hold

/-- A group with an entry keeps one. -/
theorem SetMembers.mem {s s' : Selection} (h : SetMembers groups s s')
    {name : Text} (hname : name ∈ s) : name ∈ s' := by
  induction h with
  | refl => exact hname
  | tail _ hset ih =>
    obtain ⟨hgroup, hmember⟩ := hset
    exact (AList.mem_insert _).mpr (.inr ih)

/-- A url-test keeps or chooses a member that was probed. -/
theorem urlTestChoice_mem {current : Option Text}
    {tolerance : Nat} {next : Text} (h : urlTestChoice current results tolerance = some next) :
    next ∈ results.map Prod.fst := by
  obtain ⟨best, hbest, h⟩ := bind_eq_some_iff.mp h
  have hprobed : best.1 ∈ results.map Prod.fst := by
    obtain ⟨result, hresult, hworked⟩ := mem_filterMap.mp (argmin_mem hbest)
    obtain ⟨delay, -, rfl⟩ := map_eq_some_iff.mp hworked
    exact mem_map_of_mem hresult
  dsimp only at h
  split at h
  · next delay hdelay =>
    split at h
    · -- the present member stays: its delay was found among the results
      subst h
      obtain ⟨result, hfind, -⟩ := bind_eq_some_iff.mp (show (List.find? _ _).bind _ = _
        from hdelay)
      have hname := find?_some hfind
      exact mem_map.mpr ⟨result, mem_of_find?_eq_some hfind, eq_of_beq hname⟩
    · obtain rfl := Option.some.inj h
      exact hprobed
  · obtain rfl := Option.some.inj h
    exact hprobed

section Writes

variable (hnodup : (groups.map Group.name).Nodup) {s s' : Selection}

theorem select_sets {group name : Text} (h : select groups s group name = .ok s') :
    SetMember groups s s' := by
  unfold select at h
  split at h
  · next config hfind =>
    obtain ⟨_, hmember, h⟩ := bind_eq_ok h
    obtain rfl := Except.ok.inj h
    have hgroup : members groups group = some config.proxies := by
      rw [members, hfind]
      rfl
    exact .mk hgroup (by simpa using of_ensure hmember)
  · cases h

include hnodup

theorem urlTestUpdate_sets {group : Group}
    (hgroup : group ∈ groups) (hresults : results.map Prod.fst = group.proxies) :
    SetMembers groups s (urlTestUpdate s group results) := by
  unfold urlTestUpdate
  split
  · next next hchoice =>
    have hmember : next ∈ group.proxies := hresults ▸ urlTestChoice_mem hchoice
    exact .single (.mk (members_of_mem hnodup hgroup) hmember)
  · exact .refl

theorem loadSelection_sets (saved : List (Text × Text)) :
    SetMembers groups s (loadSelection groups s saved) := by
  induction saved generalizing s with
  | nil => exact .refl
  | cons entry saved ih =>
    obtain ⟨group, node⟩ := entry
    unfold loadSelection
    rw [foldl_cons]
    split
    · next hany =>
      obtain ⟨g, hg, hboth⟩ := any_eq_true.mp hany
      simp only [Bool.and_eq_true, beq_iff_eq, contains_iff_mem] at hboth
      obtain ⟨rfl, hnode⟩ := hboth
      exact .head (.mk (members_of_mem hnodup hg) hnode) ih
    · exact ih

theorem SelectionStep.sets (h : SelectionStep groups s s') : SetMembers groups s s' := by
  cases h with
  | select hselect => exact .single (select_sets hselect)
  | urlTest hgroup _ hresults => exact urlTestUpdate_sets hnodup hgroup hresults
  | load saved => exact loadSelection_sets hnodup saved

/-- The loop of `Core::new` over some of the groups, none of which is empty. -/
theorem initialLoop_returns {l : List Group} (hl : l ⊆ groups)
    (hfull : ∀ group ∈ l, group.proxies ≠ []) (s : Selection) :
    ∃ s', l.foldlM (fun selection group => do
        let first ← index group.proxies 0
        return selection.insert group.name first) s = Except.ok s' ∧
      SetMembers groups s s' ∧ ∀ group ∈ l, group.name ∈ s' := by
  induction l generalizing s with
  | nil => exact ⟨s, rfl, .refl, fun _ hmem => absurd hmem not_mem_nil⟩
  | cons group l ih =>
    obtain ⟨hgroup, hl⟩ := cons_subset.mp hl
    obtain ⟨first, rest, hmembers⟩ :=
      exists_cons_of_ne_nil (hfull group mem_cons_self)
    have hfirst : SetMember groups s (s.insert group.name first) :=
      .mk (members_of_mem hnodup hgroup) (hmembers ▸ mem_cons_self)
    obtain ⟨s', hloop, hsets, hin⟩ :=
      ih hl (fun g hg => hfull g (mem_cons_of_mem _ hg)) (s.insert group.name first)
    refine ⟨s', ?_, .head hfirst hsets, ?_⟩
    · rw [foldlM_cons, hmembers]
      exact hloop
    · intro g hg
      rcases mem_cons.mp hg with rfl | hg
      · exact SetMembers.mem hsets (AList.mem_insert _ |>.mpr (.inl rfl))
      · exact hin g hg

/-- In a run, every entry names a group and one of its members, and no group is without. -/
theorem ReachableSelection.picks (hfull : ∀ group ∈ groups, group.proxies ≠ [])
    (h : ReachableSelection groups s) : Picks (members groups) s.lookup := by
  obtain ⟨s₀, hstart, hrun⟩ := h
  obtain ⟨s₁, hloop, hfirst, hin⟩ :=
    initialLoop_returns hnodup (List.Subset.refl groups) hfull ∅
  obtain rfl : s₁ = s₀ := Except.ok.inj (hloop.symm.trans hstart)
  have hsets : SetMembers groups s₁ s := by
    induction hrun with
    | refl => exact .refl
    | tail _ hstep ih => exact ih.trans (hstep.sets hnodup)
  constructor
  · intro k c hlookup
    exact SetMembers.chosen (hfirst.trans hsets) hlookup
  · intro k hnone
    refine members_eq_none fun hk => ?_
    obtain ⟨group, hgroup, rfl⟩ := mem_map.mp hk
    obtain ⟨c, hsome⟩ := Table.mem_iff_lookup.mp (SetMembers.mem hsets (hin group hgroup))
    cases hnone.symm.trans hsome

end Writes

/-! ## Following the selection -/

namespace RouteCore

/-- What routing reads of a core with this configuration. -/
def ofConfig (config : Config) (adblock : Option Filter) (policy : Policy) : RouteCore where
  adblock := adblock
  policy := policy
  proxyGroups := config.proxyGroups.map Group.name
  proxies := config.proxies

/-- The loop of `chain` goes the way the selection takes. -/
theorem follow_of_walk {tries : Nat} {last : Text} {rest : List Text}
    (h : walk core.policy.selection.lookup tries last = some (last :: rest)) :
    core.follow tries chain last = .ok (chain ++ rest) := by
  induction tries generalizing chain last rest with
  | zero => cases h
  | succ tries ih =>
    rw [walk] at h
    rw [follow]
    cases hnext : core.policy.selection.lookup last with
    | none =>
      rw [hnext] at h
      obtain ⟨-, rfl⟩ := List.cons.inj (Option.some.inj h)
      rw [append_nil]
    | some selected =>
      rw [hnext] at h
      obtain ⟨path, hwalk, hpath⟩ := map_eq_some_iff.mp h
      obtain ⟨-, rfl⟩ := List.cons.inj hpath
      obtain ⟨rest, rfl⟩ := exists_of_walk hwalk
      have hrest : core.follow tries (chain ++ [selected]) selected =
          .ok (chain ++ [selected] ++ rest) := ih hwalk
      rw [append_assoc] at hrest
      exact hrest

/-- Where every way down from a name is short enough, the loop comes to an end. -/
theorem follow_ends (core : RouteCore) {isLeaf : Text → Prop} {n : Nat}
    {name : Text} (hpicks : Picks (members groups) core.policy.selection.lookup)
    (hdown : Descends (members groups) isLeaf n name) {tries : Nat} (htries : n < tries) :
    ∃ chain node, core.follow tries [name] name = .ok chain ∧ chain.getLast? = some node ∧
      members groups node = none ∧ isLeaf node := by
  obtain ⟨rest, node, hwalk, hlast, hnode⟩ := hdown.walk_ends hpicks htries
  exact ⟨name :: rest, node, follow_of_walk hwalk, hlast, hnode⟩

theorem leaf_of_chain {name node : Text}
    (hchain : core.chain name = .ok chain) (hlast : chain.getLast? = some node) :
    core.leaf name = .ok node := by
  rw [leaf, hchain]
  show Except.ok (chain.getLast?.getD []) = _
  rw [hlast]
  rfl

end RouteCore

/-- The names a user of a core can ask for: those of proxies and groups, the targets of the
rules, and `GLOBAL`. -/
inductive Requested (lib : RuleLib) (config : Config) : Text → Prop
  | global : Requested lib config "GLOBAL".toList
  | proxy {name} (hname : name ∈ config.proxies) : Requested lib config name
  | group {group} (hgroup : group ∈ config.proxyGroups) : Requested lib config group.name
  | rule {raw rule} (hraw : raw ∈ config.rules)
      (hparse : Rule.parse lib raw = .ok rule) : Requested lib config rule.target

theorem Requested.mem_names {name : Text}
    (hvalid : ValidGroups lib config) (h : Requested lib config name) : name ∈ config.names := by
  cases h with
  | global => exact mem_append_left _ (mem_append_left _ (by decide))
  | proxy hname => exact mem_append_left _ (mem_append_right _ hname)
  | group hgroup => exact mem_append_right _ (mem_map_of_mem hgroup)
  | rule hraw hparse => exact hvalid.targets _ hraw _ hparse

/-- `chain` starts at a target, whatever name it is asked for. -/
theorem isTarget_start (hvalid : ValidGroups lib config)
    {name : Text} (hname : name ∈ config.names) : IsTarget config.names
      (if name = "GLOBAL".toList then
        ((config.proxyGroups.map Group.name).head?.or config.proxies.head?).getD "DIRECT".toList
      else name) := by
  split
  · cases hgroups : config.proxyGroups with
    | cons group groups =>
      refine hvalid.isTarget_of_configured (mem_append_right _ ?_)
      rw [hgroups]
      exact mem_cons_self
    | nil =>
      cases hproxies : config.proxies with
      | cons proxy proxies =>
        refine hvalid.isTarget_of_configured (mem_append_left _ ?_)
        rw [hproxies]
        exact mem_cons_self
      | nil => exact ⟨mem_append_left _ (mem_append_left _ (by decide)), by decide⟩
  · next hglobal => exact ⟨hname, hglobal⟩

/-- From every name a rule or a user can ask for, in every state of the selection, `chain` and
`leaf` come to a configured proxy, `DIRECT` or `REJECT`. -/
theorem groups_reach_node {lib : RuleLib} {config : Config} (hvalid : config.validate lib = .ok ())
    {policy : Policy} (hreach : ReachableSelection config.proxyGroups policy.selection)
    (adblock : Option Filter) {name : Text} (hname : Requested lib config name) :
    ∃ chain node, (RouteCore.ofConfig config adblock policy).chain name = .ok chain ∧
      (RouteCore.ofConfig config adblock policy).leaf name = .ok node ∧
      chain.getLast? = some node ∧
      (node ∈ config.proxies ∨ node = "DIRECT".toList ∨ node = "REJECT".toList) := by
  have hgroups := validGroups_of_validate hvalid
  have hstart := isTarget_start hgroups (hname.mem_names hgroups)
  have htries : config.proxyGroups.length < (config.proxyGroups.map Group.name).length + 1 := by
    rw [length_map]
    exact Nat.lt_succ_self _
  obtain ⟨chain, node, hchain, hlast, hleaf, hnode⟩ :=
    (RouteCore.ofConfig config adblock policy).follow_ends
      (hreach.picks hgroups.nodup_groups hgroups.full) (hgroups.descends hstart) htries
  exact ⟨chain, node, hchain, RouteCore.leaf_of_chain hchain hlast, hlast,
    hgroups.node_of_target hnode hleaf⟩

/-- A group that is a member of another. -/
def autoGroup : Group := { name := ['a'], kind := .urlTest, proxies := [['x'], ['y']] }

/-- A configuration with a group of a group. -/
def nestedConfig : Config where
  proxies := [['x'], ['y']]
  proxyGroups :=
    [{ name := ['m'], kind := .select, proxies := ["DIRECT".toList, ['a']] }, autoGroup]
  rules := ["MATCH,m".toList]
  geoxUrl := ⟨[], [], []⟩

/-- The selection a core with this configuration starts with. -/
def nestedStart : Selection := ((∅ : Selection).insert ['m'] "DIRECT".toList).insert ['a'] ['x']

theorem parsed_nil : ∀ raw ∈ ([] : List Text), ∃ lib rule, Rule.parse lib raw = .ok rule :=
  fun _ hraw => absurd hraw not_mem_nil

/-- The policy after a user chose `a` for `m`, and a test of the members of `a`. -/
def nestedPolicy : Policy where
  mode := .rule
  rules := []
  rawRules := []
  selection := urlTestUpdate (nestedStart.insert ['m'] ['a']) autoGroup
    [(['x'], some 300), (['y'], some 20)]
  parsed := parsed_nil

theorem reachable_nestedPolicy :
    ReachableSelection nestedConfig.proxyGroups nestedPolicy.selection := by
  have hselect : select nestedConfig.proxyGroups nestedStart ['m'] ['a']
      = .ok (nestedStart.insert ['m'] ['a']) := rfl
  have hgroup : autoGroup ∈ nestedConfig.proxyGroups := mem_cons_of_mem _ mem_cons_self
  have htest : SelectionStep nestedConfig.proxyGroups (nestedStart.insert ['m'] ['a'])
      (urlTestUpdate _ autoGroup [(['x'], some 300), (['y'], some 20)]) := .urlTest hgroup rfl rfl
  exact ⟨nestedStart, rfl, .tail (.single (.select hselect)) htest⟩

theorem groups_reach_node_nested :
    let lib : RuleLib := ⟨fun _ _ => none, fun _ => none, fun _ => none⟩
    nestedConfig.validate lib = .ok () ∧ Requested lib nestedConfig ['m'] ∧
      ∃ chain node,
        (RouteCore.ofConfig nestedConfig none nestedPolicy).chain ['m'] = .ok chain ∧
        (RouteCore.ofConfig nestedConfig none nestedPolicy).leaf ['m'] = .ok node ∧
        chain.getLast? = some node ∧
        (node ∈ nestedConfig.proxies ∨ node = "DIRECT".toList ∨ node = "REJECT".toList) := by
  intro lib
  have hvalid : nestedConfig.validate lib = .ok () := by decide +kernel
  have hparse : Rule.parse lib "MATCH,m".toList = .ok ⟨.all, ['m'], false⟩ := by rfl
  have hname : Requested lib nestedConfig ['m'] := .rule mem_cons_self hparse
  exact ⟨hvalid, hname, groups_reach_node hvalid reachable_nestedPolicy none hname⟩

/-- In it, `m` leads over `a` to the member that is faster. -/
example : (RouteCore.ofConfig nestedConfig none nestedPolicy).chain ['m']
    = .ok [['m'], ['a'], ['y']] := by
  decide +kernel

end Clyntis.Core
