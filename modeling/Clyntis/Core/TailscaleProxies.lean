import Clyntis.Core.Selection

/-!
# Tailscale proxies (`Config::validate`, `tailscale.rs`)

A Tailscale proxy keeps its identity in a file of its own, and reaches its servers over its
`dialer-proxy`: a proxy, or a group whose selection is followed. `validate` looks at each
`dialer-proxy` alone, and for cycles only among the groups.

- `statePath`: the file, under the configuration directory;
- `SharesHome`: two settings that come to one directory; `identities_apart`: two proxies have two
  files unless theirs do; `identity_shared`: `validate` accepts some that do;
- `dialsThrough`: the Tailscale proxy that the connections of another go through;
- `dialing_never_loops`: no way over them comes back, unless the configuration has a cycle
  of dialers and members; `dialing_loops`: `validate` accepts one that has.
-/

namespace Clyntis.Core

open Lib Config List

/-- `ProxyKind`. -/
inductive ProxyKind where
  | vless | hysteria2 | trojan | tailscale
  deriving DecidableEq, Repr

/-- `Proxy`, with the one setting of `tailscale` that is used here. -/
structure Proxy where
  name : Text
  kind : ProxyKind
  dialerProxy : Option Text
  stateDir : Option Text
  deriving DecidableEq, Repr

/-- The check of `validate` on `state-dir`. -/
def stateDirInside (dir : Text) : Bool :=
  !dir.isEmpty && !dir.head?.any ['/', '\\', '~'].contains && !dir.contains ':' &&
    !(dir.splitOnP fun c => c == '/' || c == '\\').contains "..".toList

/-- The check of `validate` on the `dialer-proxy` of every proxy. -/
def validateDialers (names : List Text) (proxies : List Proxy) : Except Text Unit :=
  proxies.forM fun p =>
    match p.dialerProxy with
    | some via =>
      ensure (via != p.name && via != "GLOBAL".toList && names.contains via)
        ("proxy ".toList ++ p.name ++ ": unknown dialer-proxy ".toList ++ via)
    | none => pure ()

/-- `validate` accepts a configuration with these proxies. -/
structure Accepted (lib : RuleLib) (config : Config) (proxies : List Proxy) : Prop where
  names : config.proxies = proxies.map Proxy.name
  settings : config.validate lib = .ok ()
  stateDirs : proxies.all (fun p => p.kind != .tailscale || p.stateDir.all stateDirInside) = true
  dialers : validateDialers config.names proxies = .ok ()

/-! ## The identity -/

/-- The components of a relative path, as `join` appends them. -/
def components (path : Text) : List Text :=
  (path.splitOn '/').filter fun part => part != [] && part != ['.']

/-- `folder` of `options`. -/
def folder (name : Text) : Text :=
  name.map fun c => if c.isAlphanum || c == '-' then c else '_'

/-- `state_path` of `options`, by its components. -/
def statePath (directory : List Text) (p : Proxy) : List Text :=
  directory ++ (match p.stateDir with
    | some dir => components dir
    | none => ["tailscale".toList, folder p.name]) ++ ["state.json".toList]

/-- A folder keeps this character. -/
def keptInFolder (c : Char) : Bool := c.isAlphanum || c == '-'

/-- Two names have one folder: they differ only where neither has a letter, a digit or `-`. -/
theorem folder_eq_iff {a b : Text} : folder a = folder b ↔
    Forall₂ (fun c d => c = d ∨ keptInFolder c = false ∧ keptInFolder d = false) a b := by
  have hchar : ∀ c d : Char, (if c.isAlphanum || c == '-' then c else '_') =
      (if d.isAlphanum || d == '-' then d else '_') ↔
      c = d ∨ keptInFolder c = false ∧ keptInFolder d = false := by
    intro c d
    have hblank : ∀ c, keptInFolder c = true → c ≠ '_' := by
      rintro _ h rfl
      cases h
    change (if keptInFolder c then c else '_') = (if keptInFolder d then d else '_') ↔ _
    cases hc : keptInFolder c with
    | true =>
      cases hd : keptInFolder d with
      | true => simp
      | false => simpa [hblank c hc] using fun h => by rw [h, hd] at hc; cases hc
    | false =>
      cases hd : keptInFolder d with
      | true => simpa [(hblank d hd).symm] using fun h => by rw [h, hd] at hc; cases hc
      | false => simp
  rw [folder, folder, ← forall₂_eq_eq_eq, forall₂_map_left_iff, forall₂_map_right_iff]
  exact ⟨.imp fun _ _ => (hchar _ _).mp, .imp fun _ _ => (hchar _ _).mpr⟩

/-- Two proxies keep their identities in one directory: it is given to both, or given to one and the
default of the other, or the default of both. -/
def SharesHome (p q : Proxy) : Prop :=
  match p.stateDir, q.stateDir with
  | some dir, some dir' => components dir = components dir'
  | some dir, none => components dir = ["tailscale".toList, folder q.name]
  | none, some dir => components dir = ["tailscale".toList, folder p.name]
  | none, none =>
    Forall₂ (fun c d => c = d ∨ keptInFolder c = false ∧ keptInFolder d = false) p.name q.name

theorem statePath_eq_iff (directory : List Text) {p q : Proxy} :
    statePath directory p = statePath directory q ↔ SharesHome p q := by
  simp only [statePath, SharesHome, append_cancel_left_eq, append_cancel_right_eq]
  cases p.stateDir with
  | some dir =>
    cases q.stateDir with
    | some dir' => rfl
    | none => rfl
  | none =>
    cases q.stateDir with
    | some dir => exact eq_comm
    | none => simpa using folder_eq_iff

instance (p q : Proxy) : Decidable (SharesHome p q) :=
  decidable_of_iff (statePath [] p = statePath [] q) (statePath_eq_iff [])

/-- **No identity is shared** by two Tailscale proxies of an accepted configuration exactly if no
two of them, with their different names, keep it in one directory. -/
theorem identities_apart {lib : RuleLib} {config : Config} {proxies : List Proxy}
    (haccepted : Accepted lib config proxies) (directory : List Text) :
    (∀ p ∈ proxies, ∀ q ∈ proxies, p.kind = .tailscale → q.kind = .tailscale → p ≠ q →
      statePath directory p ≠ statePath directory q) ↔
    ∀ p ∈ proxies, ∀ q ∈ proxies, p.kind = .tailscale → q.kind = .tailscale → p.name ≠ q.name →
      ¬ SharesHome p q := by
  have hnames : (proxies.map Proxy.name).Nodup := by
    have hnodup := (validGroups_of_validate haccepted.settings).nodup
    rw [Config.names, haccepted.names] at hnodup
    exact (nodup_append.mp (nodup_append.mp hnodup).1).2.1
  refine forall₂_congr fun p hp => forall₂_congr fun q hq => forall₂_congr fun _ _ => ?_
  have hsame : p ≠ q ↔ p.name ≠ q.name :=
    not_congr ⟨congrArg Proxy.name, inj_on_of_nodup_map hnames hp hq⟩
  rw [hsame, ne_eq (statePath _ _), statePath_eq_iff]

/-- A library that knows no data. -/
def bareLib : RuleLib := ⟨fun _ _ => none, fun _ => none, fun _ => none⟩

/-- Two proxies with these names. -/
def twoNames (a b : String) : Config where
  proxies := [a.toList, b.toList]
  geoxUrl := ⟨[], [], []⟩

/-- A Tailscale proxy with a name and nothing else. -/
def bareProxy (name : String) : Proxy := ⟨name.toList, .tailscale, none, none⟩

/-- Two directories that are given, and the default of a name with a blank. -/
theorem identities_apart_three :
    let proxies : List Proxy := [⟨['a'], .tailscale, none, some "ts/home".toList⟩,
      ⟨['b'], .tailscale, none, some "ts/work".toList⟩, bareProxy "a b"]
    ∀ p ∈ proxies, ∀ q ∈ proxies, p.kind = .tailscale → q.kind = .tailscale → p ≠ q →
      statePath ["etc".toList] p ≠ statePath ["etc".toList] q := by
  intro proxies
  have haccepted : Accepted bareLib
      { proxies := [['a'], ['b'], "a b".toList], geoxUrl := ⟨[], [], []⟩ } proxies :=
    ⟨rfl, by decide +kernel, rfl, rfl⟩
  exact (identities_apart haccepted _).mpr (by decide +kernel)

/-- `validate` accepts two proxies that share one: only the character between the letters
differs. -/
theorem identity_shared :
    Accepted bareLib (twoNames "a b" "a_b") [bareProxy "a b", bareProxy "a_b"] ∧
      bareProxy "a b" ≠ bareProxy "a_b" ∧
      statePath ["etc".toList] (bareProxy "a b") = statePath ["etc".toList] (bareProxy "a_b") :=
  ⟨⟨rfl, by decide +kernel, rfl, rfl⟩, by decide, rfl⟩

/-! ## Dialing -/

section Dialing

variable (core : RouteCore) (proxies : List Proxy)

/-- `connect_tcp` of a Tailscale proxy's dialer, where `dial_inner` comes to another one. -/
def dialsThrough (p : Proxy) : Option Proxy := do
  let via ← p.dialerProxy
  let node ← (core.leaf via).toOption
  let next ← proxies.find? (·.name == node)
  guard (next.kind = .tailscale)
  return next

/-- The Tailscale proxies on the way from one, so many dials far. -/
def visited : Nat → Proxy → List Proxy
  | 0, p => [p]
  | n + 1, p => p :: ((dialsThrough core proxies p).map (visited n)).getD []

end Dialing

/-- A group leads to its members, whichever is selected. -/
def Leads (groups : List Group) : Text → Text → Prop :=
  Relation.ReflTransGen fun group member => ∃ cs, members groups group = some cs ∧ member ∈ cs

/-- With some selection, `p` may dial through the Tailscale proxy `q`. -/
structure MayDial (groups : List Group) (proxies : List Proxy) (p q : Proxy) : Prop where
  mem : q ∈ proxies
  kind : q.kind = .tailscale
  leads : ∃ via, p.dialerProxy = some via ∧ Leads groups via q.name

section Follow

variable {groups : List Group} {core : RouteCore} {proxies : List Proxy}
  (hpicks : Picks (members groups) core.policy.selection.lookup)

include hpicks

/-- The loop of `chain` goes from a group to one of its members. -/
theorem leads_of_follow {tries : Nat} {chain chain' : List Text} {last : Text}
    (hlast : chain.getLast? = some last) (h : core.follow tries chain last = .ok chain') :
    ∃ node, chain'.getLast? = some node ∧ Leads groups last node := by
  induction tries generalizing chain last with
  | zero => cases h
  | succ tries ih =>
    rw [RouteCore.follow] at h
    split at h
    · next selected hselected =>
      obtain ⟨node, hnode, hleads⟩ := ih (by simp) h
      exact ⟨node, hnode, .head (hpicks.child hselected) hleads⟩
    · obtain rfl := Except.ok.inj h
      exact ⟨last, hlast, .refl⟩

theorem leads_of_leaf {name node : Text} (hname : name ≠ "GLOBAL".toList)
    (h : core.leaf name = .ok node) : Leads groups name node := by
  rw [RouteCore.leaf] at h
  cases hchain : core.chain name with
  | error e =>
    rw [hchain] at h
    cases h
  | ok chain =>
    rw [hchain] at h
    rw [RouteCore.chain, if_neg hname] at hchain
    obtain ⟨last, hlast, hleads⟩ := leads_of_follow hpicks rfl hchain
    obtain rfl : chain.getLast?.getD [] = node := Except.ok.inj h
    rw [hlast]
    exact hleads

end Follow

section Loop

variable {lib : RuleLib} {config : Config} {proxies : List Proxy} {policy : Policy}
  (haccepted : Accepted lib config proxies)
  (hreach : ReachableSelection config.proxyGroups policy.selection) (adblock : Option Filter)

include haccepted hreach

theorem mayDial_of_dialsThrough {p q : Proxy} (hp : p ∈ proxies)
    (h : dialsThrough (RouteCore.ofConfig config adblock policy) proxies p = some q) :
    MayDial config.proxyGroups proxies p q := by
  obtain ⟨via, hvia, h⟩ := Option.bind_eq_some_iff.mp h
  obtain ⟨node, hnode, h⟩ := Option.bind_eq_some_iff.mp h
  obtain ⟨next, hfind, h⟩ := Option.bind_eq_some_iff.mp h
  obtain ⟨_, hkind, h⟩ := Option.bind_eq_some_iff.mp h
  obtain rfl : next = q := Option.some.inj h
  have hgroups := validGroups_of_validate haccepted.settings
  have hglobal : via ≠ "GLOBAL".toList := by
    have hcheck := forM_eq_ok haccepted.dialers p hp
    rw [hvia] at hcheck
    have hknown := of_ensure hcheck
    simp only [Bool.and_eq_true, bne_iff_ne] at hknown
    exact hknown.1.2
  have hpicks : Picks (members config.proxyGroups)
      (RouteCore.ofConfig config adblock policy).policy.selection.lookup :=
    hreach.picks hgroups.nodup_groups hgroups.full
  have hname : next.name = node := by simpa using find?_some hfind
  refine ⟨mem_of_find?_eq_some hfind, by simpa [guard] using hkind, via, hvia, ?_⟩
  rw [hname]
  refine leads_of_leaf hpicks hglobal ?_
  cases hleaf : (RouteCore.ofConfig config adblock policy).leaf via with
  | error e =>
    rw [hleaf] at hnode
    cases hnode
  | ok found =>
    rw [hleaf] at hnode
    rw [Option.some.inj hnode]

/-- Every proxy on the way may be dialed through by the one before. -/
theorem visited_isChain (n : Nat) {p : Proxy} (hp : p ∈ proxies) :
    (visited (RouteCore.ofConfig config adblock policy) proxies n p).IsChain
      (MayDial config.proxyGroups proxies) := by
  induction n generalizing p with
  | zero => exact .singleton p
  | succ n ih =>
    rw [visited]
    cases hdial : dialsThrough (RouteCore.ofConfig config adblock policy) proxies p with
    | none => exact .singleton p
    | some q =>
      have hmay := mayDial_of_dialsThrough haccepted hreach adblock hp hdial
      have hrest := ih hmay.mem
      cases n with
      | zero => exact hrest.cons_cons hmay
      | succ n =>
        exact hrest.cons_cons hmay

/-- **No dial loops**, where no Tailscale proxy leads back to itself over dialers and members
of groups: with every selection the core can come to, the way from a Tailscale proxy never
returns to one that was visited. -/
theorem dialing_never_loops
    (hacyclic : ∀ p, ¬ Relation.TransGen (MayDial config.proxyGroups proxies) p p) {p : Proxy}
    (hp : p ∈ proxies) (n : Nat) :
    (visited (RouteCore.ofConfig config adblock policy) proxies n p).Nodup := by
  have hchain := visited_isChain haccepted hreach adblock n hp
  have hpairs := (hchain.imp fun _ _ => Relation.TransGen.single).pairwise
  refine hpairs.imp ?_
  rintro a b hab rfl
  exact hacyclic a hab

end Loop

/-- `a` dials through `b`. -/
def pair (back : Option Text) : List Proxy :=
  [⟨['a'], .tailscale, some ['b'], none⟩, ⟨['b'], .tailscale, back, none⟩]

def pairCore : RouteCore := .ofConfig (twoNames "a" "b") none ⟨.rule, [], [], ∅, parsed_nil⟩

/-- The proxies that a connection of `a` goes through, where `b` has no dialer. -/
theorem dialing_never_loops_pair :
    (visited pairCore (pair none) 5 ⟨['a'], .tailscale, some ['b'], none⟩).Nodup := by
  have haccepted : Accepted bareLib (twoNames "a" "b") (pair none) :=
    ⟨rfl, by decide +kernel, rfl, rfl⟩
  have hreach : ReachableSelection (twoNames "a" "b").proxyGroups ∅ := ⟨∅, rfl, .refl⟩
  refine dialing_never_loops haccepted hreach none (fun p hcycle => ?_) mem_cons_self 5
  have hstep : ∀ {p q}, p ∈ pair none → MayDial [] (pair none) p q →
      p.name = ['a'] ∧ q.name = ['b'] := by
    rintro p q hp ⟨-, -, via, hvia, hleads⟩
    rcases mem_pair.mp hp with rfl | rfl
    · obtain rfl := Option.some.inj hvia
      rcases hleads.cases_head with heq | ⟨_, ⟨_, hgroup, _⟩, _⟩
      · exact ⟨rfl, heq.symm⟩
      · cases hgroup
    · cases hvia
  -- a cycle has a first step and a last one
  obtain ⟨q, hfirst, hrest⟩ := Relation.TransGen.head'_iff.mp hcycle
  obtain ⟨_, -, hlast⟩ := Relation.TransGen.tail'_iff.mp hcycle
  obtain ⟨ha, hb⟩ := hstep hlast.mem hfirst
  rcases hrest.cases_head with rfl | ⟨_, hnext, -⟩
  · cases ha.symm.trans hb
  · cases hb.symm.trans (hstep hfirst.mem hnext).1

/-- `validate` accepts two Tailscale proxies that dial through each other. -/
theorem dialing_loops :
    Accepted bareLib (twoNames "a" "b") (pair (some ['a'])) ∧
      ReachableSelection (twoNames "a" "b").proxyGroups pairCore.policy.selection ∧
      (visited pairCore (pair (some ['a'])) 2 ⟨['a'], .tailscale, some ['b'], none⟩).map
        Proxy.name = [['a'], ['b'], ['a']] :=
  ⟨⟨rfl, by decide +kernel, rfl, rfl⟩, ⟨∅, rfl, .refl⟩, by decide +kernel⟩

end Clyntis.Core
