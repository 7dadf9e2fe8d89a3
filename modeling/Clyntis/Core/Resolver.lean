import Clyntis.Core.DnsCache
import Clyntis.Core.Resources

/-!
# Configuring the resolver (`dns.rs`, `Resolver::configure`; `lib.rs`, `prepare_resources`)

The resolver holds the ad-block filter in use, the compiled DNS policy, the cache and what
is known about the reachability of policy servers, each behind its own lock. `configure`
puts the filter in place first and compiles the policy after that.

- `policyMatcher`, `ordered`, `compilePolicy`: from the configuration to a `DnsPolicy`;
- `Resolver.configure`;
- `Core.prepareResources`: loads routing data and makes it the active one.

Here one call runs at a time; calls side by side are in `Clyntis.Core.Reload`.
-/

namespace Clyntis.Core

open Lib Config List

/-- `DnsPolicy`. -/
structure DnsPolicy where
  hosts : Table Text Strings := ∅
  nameservers : List (Matcher × List Text) := []
  filters : List Matcher := []

/-! ## The policy -/

section

variable (lib : RuleLib) {φ : Type} (resources : Resources φ)

/-- The condition `KIND,tag`, bound to the data. -/
def boundTag (kind tag : Text) : Except ResourceError Matcher := do
  let m ← (Matcher.parseCondition lib (kind ++ ',' :: tag)).mapError .rule
  resources.bind m

/-- A key of the policy that names sets. -/
def setMatcher (kind : String) (tags : Text) : Except ResourceError Matcher := do
  let nodes ← (tags.splitOn ',').mapM (boundTag lib resources kind.toList)
  return .or nodes

/-- `matcher`. -/
def policyMatcher (pattern : Text) : Except ResourceError Matcher :=
  match pattern.stripStart "geosite:".toList, pattern.stripStart "rule-set:".toList with
  | some tags, _ => setMatcher lib resources "GEOSITE" tags
  | none, some tags => setMatcher lib resources "RULE-SET" tags
  | none, none => (domainPattern lib pattern).mapError .rule

/-- The weight of a key in `ordered`. -/
def keyWeight (key : Text) : Nat :=
  if startsWith key "geosite:" || startsWith key "rule-set:" then 0
  else key.byteLen +
    if key.contains '*' || startsWith key "+" || startsWith key "." then 0 else 65536

/-- `ordered`: the heaviest first, and keys of one weight in their own order. -/
def ordered (policy : Table Text Strings) : List (Text × Strings) :=
  let entries := (policy.entries.map fun entry => (entry.1, entry.2)).mergeSort
    fun a b => decide (a.1 ≤ b.1)
  entries.mergeSort fun a b => decide (keyWeight b.1 ≤ keyWeight a.1)

/-- The keys and servers in the order they are tried, those of the override first. -/
def policyEntries (config : Dns) (network : Option NetworkOverride) : List (Text × Strings) :=
  ((network.map fun network => ordered network.nameserverPolicy).getD []) ++
    ordered config.nameserverPolicy

/-- `hosts.extend(..)`. -/
def extendHosts (hosts : Table Text Strings) (network : Option NetworkOverride) :
    Table Text Strings :=
  match network with
  | some network => network.hosts.entries.foldl (fun t entry => t.insert entry.1 entry.2) hosts
  | none => hosts

/-- The policy `configure` compiles. -/
def compilePolicy (config : Dns) (hosts : Table Text Strings)
    (network : Option NetworkOverride) : Except ResourceError DnsPolicy := do
  let nameservers ← (policyEntries config network).mapM fun entry => do
    let m ← policyMatcher lib resources entry.1
    return (m, entry.2.values)
  let filters ← config.fakeIpFilter.mapM (policyMatcher lib resources)
  return { hosts := extendHosts hosts network, nameservers, filters }

@[simp] theorem ordered_empty : ordered ∅ = [] := by
  show List.mergeSort (List.mergeSort [] _) _ = []
  rw [mergeSort_nil, mergeSort_nil]

variable {config : Dns} {network : Option NetworkOverride}

/-- A policy without keys has only hosts. -/
theorem compilePolicy_of_no_keys
    (hentries : policyEntries config network = []) (hfilters : config.fakeIpFilter = [])
    (hosts : Table Text Strings) : compilePolicy lib resources config hosts network
      = .ok { hosts := extendHosts hosts network } := by
  rw [compilePolicy, hentries, hfilters]
  rfl

end

/-! ## `configure` -/

/-- `Resolver`. -/
structure Resolver (φ : Type) where
  config : Dns
  adblock : Option φ := none
  policy : DnsPolicy := {}
  cache : Dns.Cache := {}
  reachable : Table (List Text) Bool := ∅

namespace Resolver

variable {φ : Type}

/-- `clear_cache`. -/
def clearCache (r : Resolver φ) : Resolver φ := { r with cache := {}, reachable := ∅ }

/-- `configure`. -/
def configure (lib : RuleLib) (hosts : Table Text Strings) (network : Option NetworkOverride)
    (resources : Resources φ) (r : Resolver φ) : Except ResourceError Unit × Resolver φ :=
  let r := { r with adblock := resources.adblock }
  match compilePolicy lib resources r.config hosts network with
  | .error e => (.error e, r)
  | .ok policy => (.ok (), { r with policy }.clearCache)

variable {hosts : Table Text Strings} {network : Option NetworkOverride}

/-- A configuration that fails has put the filter in place, and done nothing else. -/
theorem configure_error {lib : RuleLib} {resources : Resources φ} {r r' : Resolver φ}
    {e : ResourceError} (h : configure lib hosts network resources r = (.error e, r')) :
    r' = { r with adblock := resources.adblock } := by
  unfold configure at h
  dsimp only at h
  split at h
  · cases h
    rfl
  · cases h

end Resolver

/-! ## `prepare_resources` -/

/-- The parts of `Core` that `prepare_resources` reads and writes. The index of the override
in effect is one of the configuration. -/
structure CoreState where
  config : Config
  rawRules : List Text
  rules : List Rule := []
  resources : Resources Filter := {}
  resolver : Resolver Filter
  info : NetworkInfo := {}
  active : Option (Fin config.networkOverrides.length) := none
  adblockAllow : List Text := []

/-- `set_allow`. -/
def Filter.setAllow (lib : DataLib) (patterns : List Text) (filter : Filter) : Filter :=
  { filter with userAllow := allowSet lib patterns }

namespace CoreState

/-- The override in effect. -/
def network (core : CoreState) : Option NetworkOverride :=
  core.active.map fun index => core.config.networkOverrides.get index

/-- `mark_networks`. -/
def markNetworks (lib : RuleLib) (core : CoreState) (rules : List Rule) : List Rule :=
  let matched := matching lib core.config.networks core.info
  rules.map fun rule => { rule with matcher := rule.matcher.setNetworks matched.contains }

/-- `configure`, for the override in effect. -/
def configure (lib : RuleLib) (next : Resources Filter) (core : CoreState) :
    Except ResourceError Unit × CoreState :=
  let result := core.resolver.configure lib core.config.hosts core.network next
  (result.1, { core with resolver := result.2 })

/-- The end of `prepare_resources`: the allowlist is set in the filter, which the resolver
and the new data share, the conditions on networks are marked, and all is made active. -/
def publish (lib : DataLib) (next : Resources Filter) (rules : List Rule) (core : CoreState) :
    CoreState :=
  let adblock := next.adblock.map (Filter.setAllow lib core.adblockAllow)
  { core with
    resolver := { core.resolver with adblock }
    rules := core.markNetworks lib.toRuleLib rules
    resources := { next with adblock } }

end CoreState

section Prepare

open Scripted

variable (lib : DataLib) (now : Nat) (refresh proxy : Bool)

/-- The configuration `load` gets. -/
def CoreState.loadConfig (core : CoreState) : Config :=
  { core.config with rules := core.rawRules }

/-- `prepare_resources`. -/
def prepareResources : Scripted Event (Disk × CoreState) ResourceError Unit := do
  let s ← get
  let next ← onFst (load lib now s.2.loadConfig refresh proxy s.2.resources)
  let rules ← ofExcept (next.rules lib.toRuleLib s.2.rawRules)
  act fun s =>
    let result := s.2.configure lib.toRuleLib next
    (result.1, s.1, result.2)
  modify fun s => (s.1, s.2.publish lib next rules)

end Prepare

section FailedReconfiguration

open Scripted

variable {lib : DataLib} {now : Nat} {refresh proxy : Bool}

/-- A `prepare_resources` that fails has loaded nothing and changed nothing, or has put the filter
that it loaded in place and done nothing else: the rules bind to whatever `load` returns. -/
theorem prepareResources_error {script rest : List Event} {disk after : Disk}
    {core core' : CoreState} {e : ResourceError}
    (h : prepareResources lib now refresh proxy script (disk, core)
      = .error e rest (after, core')) :
    (core' = core ∧ ∃ rest after, load lib now core.loadConfig refresh proxy core.resources script
      disk = .error e rest after) ∨
    ∃ next rest after, load lib now core.loadConfig refresh proxy core.resources script disk =
        .ok next rest after ∧
      core' = { core with resolver := { core.resolver with adblock := next.adblock } } := by
  rcases bind_eq_error h with hget | ⟨got, mid, u, hget, h⟩
  · cases hget
  cases hget
  rcases bind_eq_error h with hload | ⟨next, mid, ⟨disk', core₁⟩, hload, h⟩
  · obtain ⟨hload, hcore⟩ := onFst_eq_error hload
    exact .inl ⟨hcore, _, _, hload⟩
  obtain ⟨hload, hcore : core₁ = core⟩ := onFst_eq_ok hload
  subst hcore
  obtain ⟨rules, hrules⟩ := rules_of_load hload
  change next.rules lib.toRuleLib core₁.rawRules = _ at hrules
  rcases bind_eq_error h with hfails | ⟨rules', mid', u, hbinds, h⟩
  · rw [hrules] at hfails
    cases hfails
  obtain ⟨-, rfl⟩ := ofExcept_eq_ok hbinds
  rcases bind_eq_error h with hconfigure | ⟨_, _, _, _, h⟩
  · obtain ⟨hresult, hcore⟩ := Prod.mk.inj (act_eq_error hconfigure)
    obtain ⟨-, rfl⟩ := Prod.mk.inj hcore
    refine .inr ⟨next, mid, disk', hload, ?_⟩
    exact congrArg (fun resolver => { core₁ with resolver })
      (Resolver.configure_error (Prod.ext hresult rfl))
  · cases h

/-- **A call that fails changes nothing** exactly if the filter that comes with the data is the one
in use: for `configure` with the data it is given, for `prepare_resources` with the data it has
loaded, if it came that far. -/
theorem failed_reconfiguration_changes_nothing (ruleLib : RuleLib) (lib : DataLib) :
    (∀ (φ : Type) (hosts : Table Text Strings) (network : Option NetworkOverride)
      (resources : Resources φ) (r r' : Resolver φ) (e : ResourceError),
      r.configure ruleLib hosts network resources = (.error e, r') →
      (r' = r ↔ resources.adblock = r.adblock)) ∧
    ∀ (now : Nat) (refresh proxy : Bool) (script rest : List Event)
      (disk after : Disk) (core core' : CoreState) (e : ResourceError),
      prepareResources lib now refresh proxy script (disk, core) = .error e rest (after, core') →
      (core' = core ↔ ∀ next rest after, load lib now core.loadConfig refresh proxy core.resources
        script disk = .ok next rest after → next.adblock = core.resolver.adblock) := by
  have hput : ∀ {φ : Type} (r : Resolver φ) (adblock : Option φ),
      { r with adblock } = r ↔ adblock = r.adblock :=
    fun r adblock => ⟨fun h => congrArg Resolver.adblock h, by rintro rfl; rfl⟩
  constructor
  · intro φ hosts network resources r r' e h
    rw [Resolver.configure_error h, hput]
  · intro now refresh proxy script rest disk after core core' e h
    obtain ⟨rfl, rest', after', hload⟩ | ⟨next, rest', after', hload, rfl⟩ :=
      prepareResources_error h
    · refine iff_of_true rfl fun next rest after hok => ?_
      cases hload.symm.trans hok
    · have hcore : { core with resolver := { core.resolver with adblock := next.adblock } } = core ↔
          next.adblock = core.resolver.adblock :=
        ⟨fun h => congrArg (fun core => core.resolver.adblock) h, fun h => by rw [h]⟩
      rw [hcore]
      constructor
      · intro hsame next' rest after hok
        cases hload.symm.trans hok
        exact hsame
      · exact fun hsame => hsame _ _ _ hload

variable (adblock : Bool)

/-- A named network, and an override on it whose policy refers to a GEOSITE tag that
nothing else refers to. -/
def overrideConfig : Config where
  rules := []
  geoxUrl := ⟨[], [], []⟩
  networks := AList.singleton "home".toList { ssid := some (.one "home".toList) }
  networkOverrides := [{
    network := "home".toList
    nameserverPolicy := AList.singleton "geosite:cn".toList (.one "192.168.1.1".toList) }]
  adblock := { enable := adblock }

/-- The core on that network, before its first data is loaded. -/
def overrideCore : CoreState where
  config := overrideConfig adblock
  rawRules := []
  resolver := { config := (overrideConfig adblock).dns }
  active := some ⟨0, Nat.one_pos⟩

/-- An empty disk. -/
def emptyDisk : Disk := ⟨fun _ => none, 0, []⟩

/-- Loading its data, where no operation fails. -/
def overridePrepared : Ending Event (Disk × CoreState) ResourceError Unit :=
  prepareResources DataLib.bare 0 false false [] (emptyDisk, overrideCore adblock)

/-- Without ad blocking the call fails and changes nothing. -/
theorem failed_prepare_keeps_core :
    (overridePrepared false).failure = some .notLoaded ∧
      (overridePrepared false).state.2 = overrideCore false := by
  have hfailure : (overridePrepared false).failure = some .notLoaded := by decide +kernel
  have hnone : ((load DataLib.bare 0 (overrideCore false).loadConfig false false
      (overrideCore false).resources [] emptyDisk).value.all fun next => next.adblock.isNone)
      = true := by decide +kernel
  obtain ⟨rest, h⟩ := Ending.eq_error_of_failure hfailure
  refine ⟨hfailure, (failed_reconfiguration_changes_nothing DataLib.bare.toRuleLib
    DataLib.bare).2 _ _ _ _ _ _ _ _ _ _ h |>.mpr ?_⟩
  intro next rest after hload
  rw [hload] at hnone
  exact Option.isNone_iff_eq_none.mp hnone

/-- With it the call fails, and the filter of the data that was not made active is in use. -/
theorem failed_prepare_installs_filter :
    (overrideConfig true).validate DataLib.bare.toRuleLib = .ok () ∧
      (overridePrepared true).failure = some .notLoaded ∧
      (overrideCore true).resolver.adblock.isSome = false ∧
      (overridePrepared true).state.2.resolver.adblock.isSome = true := by
  refine ⟨rfl, ?_, rfl, ?_⟩
  · decide +kernel
  · decide +kernel

end FailedReconfiguration

/-! ## The data a policy needs -/

/-- The program needs data: it does not fail for missing data if the data is there, and it
succeeds only then. -/
structure Needs {α : Type*} (result : Except ResourceError α) (there : Prop) : Prop where
  loaded : there → result ≠ .error .notLoaded
  of_ok : ∀ {a}, result = .ok a → there

namespace Needs

variable {α β : Type} {result : Except ResourceError α} {f : α → Except ResourceError β}
  {P Q : Prop}

theorem refused {e : ResourceError} (he : e ≠ .notLoaded) :
    Needs (.error e : Except ResourceError α) P :=
  ⟨fun _ h => he (Except.error.inj h), nofun⟩

theorem pure {a : α} : Needs (pure a : Except ResourceError α) True :=
  ⟨nofun, fun _ => trivial⟩

theorem congr (h : Needs result P) (hiff : P ↔ Q) : Needs result Q :=
  ⟨fun hq => h.loaded (hiff.mpr hq), fun ha => hiff.mp (h.of_ok ha)⟩

theorem bind (h : Needs result P) (hf : ∀ a, Needs (f a) Q) : Needs (result >>= f) (P ∧ Q) where
  loaded := by
    rintro ⟨hp, hq⟩ herror
    rcases bind_eq_error herror with herror | ⟨a, -, herror⟩
    · exact h.loaded hp herror
    · exact (hf a).loaded hq herror
  of_ok hb := by
    obtain ⟨a, ha, hb⟩ := bind_eq_ok hb
    exact ⟨h.of_ok ha, (hf a).of_ok hb⟩

theorem map (h : Needs result P) (g : α → β) :
    Needs (result >>= fun a => Pure.pure (g a)) P :=
  (h.bind fun _ => pure).congr (and_iff_left trivial)

/-- A loop needs what its rounds need. -/
theorem mapM {l : List α} {P : α → Prop} (h : ∀ x ∈ l, Needs (f x) (P x)) :
    Needs (l.mapM f) (∀ x ∈ l, P x) where
  loaded hall herror := by
    obtain ⟨x, hx, herror⟩ := mapM_error herror
    exact (h x hx).loaded (hall x hx) herror
  of_ok hok x hx := by
    obtain ⟨y, hy⟩ := mapM_eq_ok hok x hx
    exact (h x hx).of_ok hy

end Needs

section

variable {lib : RuleLib} {φ : Type} {resources : Resources φ} {config : Dns}
  {hosts : Table Text Strings} {network : Option NetworkOverride}

/-- A reference needs its data. -/
theorem needs_bind {m : Matcher} {reference : Reference}
    (hm : m = .geoSite reference.2 ∧ reference.1 = .geosite ∨
      m = .ruleSet reference.2 ∧ reference.1 = .ruleSet) :
    Needs (resources.bind m) (reference ∈ resources.matchers) := by
  obtain ⟨kind, tag⟩ := reference
  have hmem : (kind, tag) ∈ resources.matchers ↔
      (resources.matchers.lookup (kind, tag)).isSome = true := AList.lookup_isSome.symm
  rw [hmem]
  rcases hm with ⟨rfl, rfl⟩ | ⟨rfl, rfl⟩
  · rw [Resources.bind, Matcher.bind]
    cases resources.matchers.lookup (.geosite, tag) <;> constructor <;> simp
  · rw [Resources.bind, Matcher.bind]
    cases resources.matchers.lookup (.ruleSet, tag) <;> constructor <;> simp

/-- So does a tag whose condition is read as such a reference. -/
theorem needs_boundTag {kind tag : Text} {there : Prop} (leaf : LeafKind)
    (hkind : ∀ c ∈ kind, c ≠ '(' ∧ c ≠ ')' ∧ c ≠ ',')
    (hlookup : conditionKinds.lookup kind.trim = some (.inr leaf)) (htag : ',' ∉ tag)
    (hbind : ∀ m, parseLeaf lib leaf tag.trim = .ok m → Needs (resources.bind m) there) :
    Needs (boundTag lib resources kind tag) there := by
  unfold boundTag
  cases hm : Matcher.parseCondition lib (kind ++ ',' :: tag) with
  | error e => exact .refused nofun
  | ok m => exact hbind m (parseCondition_pair hkind hlookup htag hm)

theorem needs_setMatcher {kind : String} {tags : Text} {there : Text → Prop}
    (h : ∀ tag ∈ tags.splitOn ',', Needs (boundTag lib resources kind.toList tag) (there tag)) :
    Needs (setMatcher lib resources kind tags) (∀ tag ∈ tags.splitOn ',', there tag) :=
  (Needs.mapM h).map _

/-- The data that a key of the policy refers to is there. -/
def KeyLoaded (resources : Resources φ) (key : Text) : Prop :=
  (∀ tag ∈ keyTags "geosite:" key,
    (DataKind.geosite, tag.trim.toAsciiLowercase) ∈ resources.matchers) ∧
  ∀ tag ∈ keyTags "rule-set:" key, (DataKind.ruleSet, tag.trim) ∈ resources.matchers

theorem needs_policyMatcher (key : Text) :
    Needs (policyMatcher lib resources key) (KeyLoaded resources key) := by
  unfold policyMatcher KeyLoaded keyTags
  split
  · next tags _ htags =>
    have hsets : key.stripStart "rule-set:".toList = none := by
      obtain ⟨rest, rfl⟩ := isPrefixOf_iff_prefix.mp (Option.ite_none_right_eq_some.mp htags).1
      rfl
    rw [htags, hsets]
    refine (needs_setMatcher fun tag htag => needs_boundTag .geosite (by simp) rfl
      (Text.notMem_of_mem_splitOn htag) fun m hm => ?_).congr (and_iff_left (by simp)).symm
    obtain rfl := Except.ok.inj hm
    exact needs_bind (.inl ⟨rfl, rfl⟩)
  · next tags hgeosite htags =>
    rw [hgeosite, htags]
    refine (needs_setMatcher fun tag htag => needs_boundTag .ruleSet (by simp) rfl
      (Text.notMem_of_mem_splitOn htag) fun m hm => ?_).congr (and_iff_right (by simp)).symm
    obtain rfl := Except.ok.inj hm
    exact needs_bind (.inr ⟨rfl, rfl⟩)
  · next hgeosite hsets =>
    rw [hgeosite, hsets]
    cases domainPattern lib key with
    | error e => exact .refused nofun
    | ok m => exact Needs.pure.congr (by simp)

/-- The keys of a policy are those of its entries. -/
theorem mem_keys_iff_ordered {policy : Table Text Strings} {key : Text} :
    key ∈ policy.keys ↔ ∃ entry ∈ ordered policy, entry.1 = key := by
  simp [ordered, AList.keys, keys]

/-- The keys of all policies `configure` compiles. -/
def policyKeys (config : Dns) (network : Option NetworkOverride) : List Text :=
  ((network.map fun network => network.nameserverPolicy.keys).getD []) ++
    config.nameserverPolicy.keys ++ config.fakeIpFilter

theorem mem_policyKeys_iff {key : Text} : key ∈ policyKeys config network ↔
    (∃ entry ∈ policyEntries config network, entry.1 = key) ∨ key ∈ config.fakeIpFilter := by
  rw [policyKeys, policyEntries, mem_append, mem_append]
  cases network with
  | none => simp [mem_keys_iff_ordered]
  | some network => simp [mem_keys_iff_ordered, or_and_right, exists_or]

/-- A policy needs the data of its keys. -/
theorem needs_compilePolicy : Needs (compilePolicy lib resources config hosts network)
    (∀ key ∈ policyKeys config network, KeyLoaded resources key) := by
  refine ((Needs.mapM fun entry _ => (needs_policyMatcher entry.1).map _).bind fun nameservers =>
    (Needs.mapM fun key _ => needs_policyMatcher key).map _).congr ?_
  simp only [mem_policyKeys_iff, or_imp, forall_and, forall_exists_index, and_imp,
    forall_apply_eq_imp_iff₂]

theorem Resolver.needs_configure {r : Resolver φ} :
    Needs (r.configure lib hosts network resources).1
      (∀ key ∈ policyKeys r.config network, KeyLoaded resources key) := by
  have h : Needs (compilePolicy lib resources r.config hosts network) _ := needs_compilePolicy
  unfold Resolver.configure
  dsimp only
  split
  · next e he =>
    rw [he] at h
    exact ⟨fun hkeys herror => h.loaded hkeys (by cases herror; rfl), nofun⟩
  · next policy hpolicy => exact Needs.pure.congr (iff_of_true trivial (h.of_ok hpolicy))

end

section Overrides

variable {lib : DataLib} {now : Nat} {refresh proxy : Bool} {config : Config}
  {previous r : Resources Filter} {script rest : List Event} {disk after : Disk}
  {refs : List Reference}

/-- The data that a key of a policy refers to is loaded: a rule, a key of a policy that does not
depend on the network or the condition of a provider refers to its GEOSITE tags, and its sets of
rules are named as their providers are. -/
def Covered (refs : List Reference) (config : Config) (conditions : List (Text × Matcher))
    (key : Text) : Prop :=
  (∀ tag ∈ keyTags "geosite:" key, (.geosite, tag.trim.toAsciiLowercase) ∈ refs ∨
    ∃ c ∈ conditions, (.geosite, tag.trim.toAsciiLowercase) ∈ c.2.references) ∧
  ∀ tag ∈ keyTags "rule-set:" key, tag.trim ∈ config.ruleProviders

/-- The configuration with a rule that refers to the tag. -/
def coveredConfig : Config :=
  { overrideConfig false with
    dns := { fakeIpFilter := [] }
    rules := ["GEOSITE,cn,DIRECT".toList] }

/-- A disk with a GEOSITE file. -/
def geositeDisk : Disk :=
  ⟨fun path => if path = .real "./geosite.dat".toList then some ⟨[], 0⟩ else none, 0, []⟩

/-- Loading the data of a configuration from there, where no operation fails. -/
def freshLoad (config : Config) : Ending Event Disk ResourceError (Resources Filter) :=
  load DataLib.bare 0 config false false {} [] geositeDisk

end Overrides

end Clyntis.Core
