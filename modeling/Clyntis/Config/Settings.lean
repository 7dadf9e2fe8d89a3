import Clyntis.Config.RuleParse
import Clyntis.Lib.Table

/-!
# The configuration (`lib.rs`, `compat.rs`, `adblock.rs`, `network.rs`)

The settings that routing data, DNS policy, ad blocking and named networks are made from,
and the checks `Config::validate` makes on them.

- `Network.matchesInfo`, `matching`, `activeOverride`: which networks a device is on, and
  the override that applies;
- `allowPattern`: one entry of the user's allowlist;
- `visit`: the search for cycles among the groups;
- `Config.validate`.

Other settings, and their checks, are left out.
-/

namespace Clyntis

open Lib Net List

namespace Config

/-- `Strings`. -/
inductive Strings where
  | one (v : Text)
  | many (vs : List Text)
  deriving DecidableEq, Repr

/-- `values`. -/
def Strings.values : Strings → List Text
  | one v => [v]
  | many vs => vs

/-- `RuleProvider`. -/
structure RuleProvider where
  kind : Text := "http".toList
  behavior : Text := "domain".toList
  format : Text := "yaml".toList
  path : Text := []
  url : Text := []
  interval : Nat := 86400
  payload : List Text := []
  deriving DecidableEq, Repr

/-- `GeoUrls`. -/
structure GeoUrls where
  geoip : Text
  geosite : Text
  mmdb : Text
  deriving DecidableEq, Repr

/-- `adblock::List`. -/
structure AdblockList where
  name : Text
  url : Text
  format : Text := "clash".toList
  deriving DecidableEq, Repr

/-- `file_name`. -/
def AdblockList.fileName (list : AdblockList) : Text :=
  "adblock/".toList ++
    (list.name.map fun c => if c.isAlphanum || c == '-' then c.toLower else '_') ++
    ".list".toList

/-- `Adblock`. -/
structure Adblock where
  enable : Bool := false
  lists : List AdblockList := []
  allow : List Text := []
  interval : Nat := 86400
  blockHttpdns : Bool := true
  quicFallback : Bool := true
  dnsAnswer : Text := "nxdomain".toList
  deriving DecidableEq, Repr

/-- `GroupKind`. -/
inductive GroupKind where
  | select
  | urlTest
  deriving DecidableEq, Repr

/-- `Group`. The URL its members are tested with is left out. -/
structure Group where
  name : Text
  kind : GroupKind
  proxies : List Text
  interval : Nat := 300
  tolerance : Nat := 50
  deriving DecidableEq, Repr

/-! ## Networks -/

/-- `Network`. -/
structure Network where
  kind : Option Strings := none
  ssid : Option Strings := none
  subnet : Option Strings := none
  gateway : Option Strings := none
  deriving DecidableEq, Repr

/-- `NetworkInfo`. -/
structure NetworkInfo where
  kind : Option Text := none
  ssid : Option Text := none
  addresses : List IpAddr := []
  gateways : List IpAddr := []
  deriving DecidableEq, Repr

/-- `NetworkOverride`. -/
structure NetworkOverride where
  network : Text
  hosts : Table Text Strings := ∅
  nameserverPolicy : Table Text Strings := ∅

/-- The network of one address. -/
def IpNet.ofAddr : IpAddr → IpNet
  | .v4 ip => .v4 ⟨ip, 32, Nat.le_refl 32⟩
  | .v6 ip => .v6 ⟨ip, 128, Nat.le_refl 128⟩

variable (lib : RuleLib)

/-- `parse_subnet`. -/
def parseSubnet (value : Text) : Option IpNet :=
  (lib.parseNet value).or ((IpAddr.parse value).map IpNet.ofAddr)

/-- One check of `matches`: none when the condition is absent or its fact unknown. -/
def checkFact (values : Option Strings) (known : Bool) (test : Text → Bool) : Option Bool :=
  (values.filter fun _ => known).map fun values => values.values.any test

/-- `matches`. -/
def Network.matchesInfo (network : Network) (info : NetworkInfo) : Bool :=
  let checks := [
    checkFact network.kind info.kind.isSome fun kind => info.kind == some kind,
    checkFact network.ssid info.ssid.isSome fun ssid => info.ssid == some ssid,
    checkFact network.subnet (!info.addresses.isEmpty) fun subnet =>
      (parseSubnet lib subnet).any fun net => info.addresses.any net.contains,
    checkFact network.gateway (!info.gateways.isEmpty) fun gateway =>
      (IpAddr.parse gateway).any info.gateways.contains]
  checks.any Option.isSome && checks.all fun check => check.getD true

/-- `target`: the network's name, and whether the entry applies when it does not match. -/
def NetworkOverride.target (entry : NetworkOverride) : Text × Bool :=
  match entry.network with
  | '!' :: name => (name, true)
  | name => (name, false)

/-- `matching`. -/
def matching (networks : Table Text Network) (info : NetworkInfo) : List Text :=
  (networks.entries.filter fun entry => entry.2.matchesInfo lib info).map Sigma.fst

/-- `active_override`. -/
def activeOverride (networks : Table Text Network)
    (overrides : List NetworkOverride) (info : NetworkInfo) : Option Nat :=
  overrides.findIdx? fun entry =>
    (matching lib networks info).contains entry.target.1 != entry.target.2

/-- A device that reported nothing is on no network. -/
theorem matching_default (networks : Table Text Network) :
    matching lib networks {} = [] := by
  have hunknown : ∀ values test, checkFact values false test = none := by
    intro values test
    cases values <;> rfl
  have hnone : ∀ network : Network, network.matchesInfo lib {} = false := by
    simp [Network.matchesInfo, hunknown]
  simp [matching, hnone]

/-! ## The configuration -/

/-- `Dns`. -/
structure Dns where
  enable : Bool := false
  nameserver : List Text := ["https://1.1.1.1/dns-query".toList]
  enhancedMode : Text := "fake-ip".toList
  nameserverPolicy : Table Text Strings := ∅
  fakeIpFilter : List Text := ["localhost".toList, "*.local".toList]

/-- `Tun`. -/
structure Tun where
  enable : Bool := false
  autoRoute : Bool := true
  autoDns : Bool := false
  dnsHijack : List Text := ["any:53".toList]

end Config

open Config

/-- `Config`. Of proxies only the names are kept. -/
structure Config where
  proxies : List Text := []
  proxyGroups : List Group := []
  rules : List Text := ["MATCH,DIRECT".toList]
  dns : Dns := {}
  tun : Tun := {}
  ruleProviders : Table Text RuleProvider := ∅
  geodataMode : Bool := false
  geoxUrl : GeoUrls
  geoAutoUpdate : Bool := false
  geoUpdateInterval : Nat := 24
  hosts : Table Text Strings := ∅
  networks : Table Text Network := ∅
  networkOverrides : List NetworkOverride := []
  adblock : Adblock := {}
  directory : Text := ".".toList
  internalHostPacketIo : Bool := false

namespace Config

/-! ## Validation -/

/-- Why a configuration is refused. -/
inductive ConfigError where
  | adblockInterval
  | adblockListName
  | adblockListUrl (list : Text)
  | adblockListFormat (list : Text)
  | adblockDnsAnswer
  | adblockAllowCount
  | adblockAllowEmpty
  | adblockAllow (e : RuleError)
  | proxyName (name : Text)
  | groupName (name : Text)
  | emptyGroup (name : Text)
  | groupInterval
  | groupTarget (name : Text)
  | cyclicGroup (name : Text)
  | rule (index : Nat) (e : RuleError)
  | ruleTarget (index : Nat) (target : Text)
  | ruleNetwork (index : Nat) (name : Text)
  | ruleProvider (index : Nat)
  | providerType
  | providerBehavior
  | providerFormat
  | providerPath
  | providerUrl
  | geoInterval
  | policyEmpty
  | policyUpstream
  | networkName (name : Text)
  | networkNothing (name : Text)
  | networkEmpty (name field : Text)
  | networkType (name kind : Text)
  | networkSubnet (name subnet : Text)
  | networkGateway (name gateway : Text)
  | overrideNetwork (index : Nat) (name : Text)
  | overridePolicyEmpty (index : Nat)
  | overrideUpstream (index : Nat)
  | overrideHosts (index : Nat) (host : Text)
  deriving DecidableEq, Repr

variable (lib : RuleLib)

/-- `ensure!`. -/
def ensure {ε : Type} (p : Bool) (e : ε) : Except ε Unit := if p then .ok () else .error e

/-- `value.starts_with(s)`. -/
def startsWith (value : Text) (s : String) : Bool := s.toList.isPrefixOf value

/-- An `http` or `https` URL. -/
def isHttp (url : Text) : Bool := startsWith url "https://" || startsWith url "http://"

/-- `allow_pattern`. -/
def allowPattern (b : DomainSetBuilder) (pattern : Text) :
    Except ConfigError DomainSetBuilder :=
  let pattern := pattern.trim.trimEndMatches '.'
  if pattern.isEmpty then .error .adblockAllowEmpty
  else if startsWith pattern "+." || startsWith pattern "." || pattern.contains '*' then
    match b.pattern lib pattern with
    | .ok b => .ok b
    | .error e => .error (.adblockAllow e)
  else .ok (b.addSuffix pattern)

/-- The loop over the lists in `Adblock::validate`. -/
def validateLists (names : List Text) : List AdblockList → Except ConfigError Unit
  | [] => .ok ()
  | list :: lists => do
    ensure (!list.name.trim.isEmpty && decide (list.name.byteLen ≤ 64) &&
      !names.contains list.fileName) .adblockListName
    ensure (isHttp list.url) (.adblockListUrl list.name)
    ensure (["clash", "hosts", "adguard"].any (list.format == ·.toList))
      (.adblockListFormat list.name)
    validateLists (list.fileName :: names) lists

/-- `Adblock::validate`. -/
def Adblock.validate (adblock : Adblock) : Except ConfigError Unit := do
  ensure (decide (3600 ≤ adblock.interval)) .adblockInterval
  validateLists [] adblock.lists
  ensure (["nxdomain", "null"].any (adblock.dnsAnswer == ·.toList)) .adblockDnsAnswer
  ensure (decide (adblock.allow.length ≤ 10000)) .adblockAllowCount
  let _ ← adblock.allow.foldlM (allowPattern lib) {}

/-- `dns_upstream`. -/
def dnsUpstream (value : Text) : Bool :=
  !value.isEmpty && (!value.containsText "://".toList ||
    ["udp://", "tcp://", "tls://", "https://"].any (startsWith value))

/-- `Network::validate`. -/
def Network.validate (network : Network) (name : Text) :
    Except ConfigError Unit := do
  ensure (!name.isEmpty && name.head? != some '!') (.networkName name)
  let given := [("type", network.kind), ("ssid", network.ssid), ("subnet", network.subnet),
    ("gateway", network.gateway)]
  ensure (given.any fun field => field.2.isSome) (.networkNothing name)
  given.forM fun field =>
    ensure (field.2.all fun values => !values.values.isEmpty) (.networkEmpty name field.1.toList)
  ((network.kind.map Strings.values).getD []).forM fun kind =>
    ensure (["wifi", "cellular", "wired"].any (kind == ·.toList)) (.networkType name kind)
  ((network.subnet.map Strings.values).getD []).forM fun subnet =>
    ensure (parseSubnet lib subnet).isSome (.networkSubnet name subnet)
  ((network.gateway.map Strings.values).getD []).forM fun gateway =>
    ensure (IpAddr.parse gateway).isSome (.networkGateway name gateway)

/-- The names a rule can send to, in the order they are collected; a name may come once. -/
def collectNames (taken : Text → ConfigError) (names : List Text) :
    List Text → Except ConfigError (List Text)
  | [] => .ok names
  | name :: rest => do
    ensure (!name.isEmpty && !names.contains name) (taken name)
    collectNames taken (names ++ [name]) rest

/-- The loop over the groups, which adds their names to those of the proxies. -/
def collectGroups (names : List Text) : List Group → Except ConfigError (List Text)
  | [] => .ok names
  | group :: groups => do
    let names ← collectNames .groupName names [group.name]
    ensure (!group.proxies.isEmpty) (.emptyGroup group.name)
    ensure (decide (0 < group.interval)) .groupInterval
    collectGroups names groups

/-- `visit`, coming down `path`. It starts with more fuel than there are groups. -/
def visit (groups : List Group) (names : List Text) :
    (fuel : Nat) → (path : List Text) → (name : Text) → Except ConfigError Unit
  | 0, _, name => .error (.cyclicGroup name)
  | fuel + 1, path, name => do
    ensure (names.contains name && name != "GLOBAL".toList) (.groupTarget name)
    match groups.find? (·.name == name) with
    | some group =>
      ensure (!path.contains name) (.cyclicGroup name)
      group.proxies.forM fun child => visit groups names fuel (name :: path) child
    | none => .ok ()

/-- The checks of one rule. -/
def validateRule (config : Config) (names : List Text) (index : Nat)
    (raw : Text) : Except ConfigError Unit := do
  let rule ← (Rule.parse lib raw).mapError (.rule index)
  ensure (names.contains rule.target) (.ruleTarget index rule.target)
  -- the closure keeps the last unknown name
  match (rule.matcher.networks.filter fun name =>
      (config.networks.lookup name).isNone).getLast? with
  | some name => throw (.ruleNetwork index name)
  | none => pure ()
  rule.matcher.references.forM fun reference =>
    ensure (reference.1 != .ruleSet || (config.ruleProviders.lookup reference.2).isSome)
      (.ruleProvider index)

/-- The checks of one rule provider. -/
def validateProvider (p : RuleProvider) : Except ConfigError Unit := do
  ensure (["http", "file", "inline"].any (p.kind == ·.toList)) .providerType
  ensure (["domain", "ipcidr", "classical"].any (p.behavior == ·.toList)) .providerBehavior
  ensure (["yaml", "text"].any (p.format == ·.toList)) .providerFormat
  ensure (p.kind == "inline".toList || !p.path.isEmpty) .providerPath
  ensure (p.kind != "http".toList || isHttp p.url) .providerUrl

/-- The checks of one upstream list. -/
def validateUpstreams (empty unsupported : ConfigError) (value : Strings) :
    Except ConfigError Unit := do
  ensure (!value.values.isEmpty) empty
  ensure (value.values.all dnsUpstream) unsupported

/-- The checks of one override. -/
def validateOverride (config : Config) (index : Nat) (entry : NetworkOverride) :
    Except ConfigError Unit := do
  ensure (config.networks.lookup entry.target.1).isSome (.overrideNetwork index entry.target.1)
  entry.nameserverPolicy.values.forM
    (validateUpstreams (.overridePolicyEmpty index) (.overrideUpstream index))
  entry.hosts.entries.forM fun host =>
    ensure (!host.2.values.isEmpty) (.overrideHosts index host.1)

/-- `validate`, as far as these settings go. -/
def validate (lib : RuleLib) (config : Config) : Except ConfigError Unit := do
  config.adblock.validate lib
  let names ← collectNames .proxyName (["DIRECT", "REJECT", "GLOBAL"].map String.toList)
    config.proxies
  let names ← collectGroups names config.proxyGroups
  config.proxyGroups.forM fun group =>
    visit config.proxyGroups names (config.proxyGroups.length + 1) [] group.name
  config.rules.zipIdx.forM fun rule => config.validateRule lib names rule.2 rule.1
  config.ruleProviders.values.forM validateProvider
  ensure (decide (0 < config.geoUpdateInterval ∧ config.geoUpdateInterval ≤ 8760)) .geoInterval
  config.dns.nameserverPolicy.values.forM (validateUpstreams .policyEmpty .policyUpstream)
  config.networks.entries.forM fun network => network.2.validate lib network.1
  config.networkOverrides.zipIdx.forM fun entry => config.validateOverride entry.2 entry.1

theorem of_ensure {ε : Type} {p : Bool} {e : ε} (h : ensure p e = .ok ()) : p = true := by
  unfold ensure at h
  split at h
  · assumption
  · cases h

/-- An override of a valid configuration names a network of it. -/
theorem mem_networks_of_valid {lib : RuleLib} {config : Config}
    (h : config.validate lib = .ok ()) {entry : NetworkOverride}
    (hentry : entry ∈ config.networkOverrides) : entry.target.1 ∈ config.networks := by
  -- the overrides are the last thing that is checked
  iterate 9 obtain ⟨_, _, h⟩ := bind_eq_ok h
  obtain ⟨index, hindex⟩ := mem_iff_getElem?.mp hentry
  have hchecked := forM_eq_ok h (entry, index) (mk_mem_zipIdx_iff_getElem?.mpr hindex)
  obtain ⟨_, hensure, -⟩ := bind_eq_ok hchecked
  exact Table.mem_iff_lookup.mpr (Option.isSome_iff_exists.mp (of_ensure hensure))

/-- Without networks a valid configuration has no override that could apply. -/
theorem activeOverride_of_no_networks {lib : RuleLib} {config : Config}
    (h : config.validate lib = .ok ()) (hnone : config.networks.entries = [])
    (info : NetworkInfo) :
    activeOverride lib config.networks config.networkOverrides info = none := by
  have hoverrides : config.networkOverrides = [] := by
    rw [eq_nil_iff_forall_not_mem]
    intro entry hentry
    have hmem : entry.target.1 ∈ config.networks.entries.map Sigma.fst :=
      mem_networks_of_valid h hentry
    rw [hnone] at hmem
    cases hmem
  rw [hoverrides]
  rfl

end Config

end Clyntis
