import Clyntis.Core.Selection

/-!
# The DNS leak audit (`dns_leak.rs`)

A review of the configuration for names that upstream DNS servers see although their
connections go through a proxy.

- `needsAddress`: whether a condition can make the core look a name up;
- `resolvingRules`: the backward scan over the rules;
- `dnsLeakAudit`: all findings;
- `Leaks`: what the scan looks for, and `resolvingRules_ne_nil`: it finds just that;
- `evaluate_ne_none`: a condition is left open only if it needs an address;
- `leaks_of_routeRules`: whenever routing looks a name up and sends it to a proxy, there is
  such a rule;
- `dns_leak_audit_complete`: so the audit reports it.

`macos` is the target the core was built for.
-/

namespace Clyntis.Core

open Lib Net Config
open Protocol (Target)

/-! ## The audit -/

/-- `Finding`. -/
structure Finding where
  level : String
  code : String
  title : String
  detail : String
  items : List Text
  deriving DecidableEq, Repr

/-- `DnsLeakAudit`. -/
structure DnsLeakAudit where
  leaking : Bool
  findings : List Finding
  deriving DecidableEq, Repr

/-- `LISTED`. -/
def maxListed : Nat := 10

mutual

/-- `needs_address`. -/
def needsAddress : Matcher → Bool
  | .net _ => true
  | .nets _ => true
  | .externalIp _ => true
  | .geoIp _ => true
  | .noResolve _ => false
  | .not inner => needsAddress inner
  | .and nodes => anyNeedsAddress nodes
  | .or nodes => anyNeedsAddress nodes
  | _ => false

/-- `nodes.iter().any(needs_address)`. -/
def anyNeedsAddress : List Matcher → Bool
  | [] => false
  | m :: nodes => needsAddress m || anyNeedsAddress nodes

end

/-- `plain_server`. -/
def plainServer (server : Text) : Bool :=
  !(startsWith server "https://" || startsWith server "tls://")

/-- `listed`. -/
def listed (items : List Text) : List Text :=
  if maxListed < items.length then
    items.take maxListed ++ [("…" ++ toString items.length ++ " in all").toList]
  else items

/-- `proxied`. -/
def proxied (target : Text) : Bool := target != "DIRECT".toList && target != "REJECT".toList

/-- The body of the loop over the rules: whether a name that gets here can still go through a
proxy, and the rules found. -/
def scanRule (rawRules : List Text) (found : Bool × List Text) (entry : Rule × Nat) :
    Bool × List Text :=
  let laterProxy := found.1 || proxied entry.1.target
  if laterProxy && !entry.1.noResolve && needsAddress entry.1.matcher then
    let raw := (rawRules[entry.2]?).getD "?".toList
    (laterProxy, found.2 ++ [("rule " ++ toString (entry.2 + 1) ++ ": ").toList ++ raw])
  else (laterProxy, found.2)

/-- The rules that resolve names which may then go through a proxy. -/
def resolvingRules (rules : List Rule) (rawRules : List Text) : List Text :=
  (rules.zipIdx.reverse.foldl (scanRule rawRules) (false, [])).2.reverse

/-- The order of `sort` on strings. -/
def textLe (a b : Text) : Bool := !List.lex b a fun c d => decide (c.toNat < d.toNat)

variable (config : Config)

/-- The upstreams that are asked in plaintext. -/
def plainUpstreams : List Text :=
  let policies := config.dns.nameserverPolicy.values ++
    config.networkOverrides.flatMap fun entry => entry.nameserverPolicy.values
  sortDedup textLe
    ((config.dns.nameserver ++ policies.flatMap Strings.values).filter plainServer)

/-- Whether queries of the system do not reach the core. -/
def systemDnsBypasses (macos : Bool) (config : Config) : Bool :=
  if macos then
    config.tun.enable && config.tun.autoRoute && !(config.tun.autoDns && config.dns.enable)
  else config.tun.enable && config.tun.dnsHijack.isEmpty

/-- The finding of redir-host mode. -/
def redirHostFinding : List Finding :=
  if config.dns.enhancedMode == "redir-host".toList && (config.dns.enable || config.tun.enable) then
    [{ level := "risk"
       code := "redir-host"
       title := "redir-host mode resolves every name locally"
       detail := "The core resolves every app query through the upstream DNS, so the upstream " ++
         "sees proxied names too. Use fake-ip mode to have proxies resolve names remotely."
       items := [] }]
  else []

/-- The finding of rules that resolve. -/
def resolvingFinding (policy : Policy) : List Finding :=
  if policy.mode = .rule then
    let resolving := resolvingRules policy.rules policy.rawRules
    if resolving.isEmpty then []
    else
      [{ level := "risk"
         code := "resolving-rules"
         title := toString resolving.length ++ " IP rule(s) resolve names locally before matching"
         detail := "A name reaching these rules is first resolved through the upstream DNS, " ++
           "which then sees names that go through a proxy. Add no-resolve to these rules or " ++
           "move them after the domain rules."
         items := listed resolving }]
  else []

/-- The finding of plaintext upstreams. -/
def plainFinding : List Finding :=
  let plain := plainUpstreams config
  if plain.isEmpty then []
  else
    [{ level := "warning"
       code := "plain-upstream"
       title := "Upstream DNS uses a plaintext protocol"
       detail := "Names the core resolves locally (direct connections, IP rules) go out in " ++
         "plaintext, which the network can see or alter. Use https:// or tls:// upstreams."
       items := listed plain }]

/-- The finding of system DNS that bypasses the core. -/
def systemDnsFinding (macos : Bool) (config : Config) : List Finding :=
  if systemDnsBypasses macos config then
    [{ level := "warning"
       code := "system-dns"
       title := "System DNS does not go to the core"
       detail := if macos then
           "In TUN mode the system may still query its original DNS servers directly. Enable " ++
             "DNS and automatic system DNS (tun.auto-dns)."
         else
           "In TUN mode queries to port 53 are not taken over by the core. Set tun.dns-hijack " ++
             "(e.g. any:53)."
       items := [] }]
  else []

/-- The finding of a core whose DNS is off. -/
def dnsDisabledFinding : List Finding :=
  if !config.dns.enable && !config.tun.enable then
    [{ level := "info"
       code := "dns-disabled"
       title := "The core's DNS is off"
       detail := "Apps using the system proxy usually hand names to the proxy and do not leak; " ++
         "programs that bypass the proxy still use the system DNS."
       items := [] }]
  else []

/-- `dns_leak_audit`. -/
def dnsLeakAudit (macos : Bool) (config : Config) (policy : Policy) : DnsLeakAudit :=
  let findings := redirHostFinding config ++ resolvingFinding policy ++ plainFinding config ++
    systemDnsFinding macos config ++ dnsDisabledFinding config
  { leaking := findings.any fun finding => finding.level == "risk"
    findings := findings }

/-! ## What the scan finds -/

/-- A rule that may resolve stands before one with a proxied target, or has one itself. -/
inductive Leaks : List Rule → Prop
  | here {rule rest} (hresolve : rule.noResolve = false)
      (hneeds : needsAddress rule.matcher = true)
      (hproxied : ∃ later ∈ rule :: rest, proxied later.target = true) : Leaks (rule :: rest)
  | later {rule rest} (h : Leaks rest) : Leaks (rule :: rest)

section Scan

variable {rawRules : List Text}

/-- The scan over the rules from number `index` on. -/
def scanFrom (rawRules : List Text) (index : Nat) (rules : List Rule) : Bool × List Text :=
  (rules.zipIdx index).foldr (fun entry found => scanRule rawRules found entry) (false, [])

theorem scanFrom_cons (index : Nat) (rule : Rule) (rules : List Rule) :
    scanFrom rawRules index (rule :: rules) =
      scanRule rawRules (scanFrom rawRules (index + 1) rules) (rule, index) := rfl

theorem scanRule_fst (found : Bool × List Text) (entry : Rule × Nat) :
    (scanRule rawRules found entry).1 = (found.1 || proxied entry.1.target) := by
  unfold scanRule
  dsimp only
  split
  · rfl
  · rfl

theorem scanFrom_fst (rawRules : List Text) (index : Nat) (rules : List Rule) :
    (scanFrom rawRules index rules).1 = true ↔ ∃ rule ∈ rules, proxied rule.target = true := by
  induction rules generalizing index with
  | nil =>
    constructor
    · intro h
      cases h
    · rintro ⟨rule, hrule, -⟩
      cases hrule
  | cons rule rules ih =>
    rw [scanFrom_cons, scanRule_fst, Bool.or_eq_true, ih, List.exists_mem_cons_iff, or_comm]

/-- **The scan finds a rule just where there is one.** -/
theorem scanFrom_snd (index : Nat) (rules : List Rule) :
    (scanFrom rawRules index rules).2 ≠ [] ↔ Leaks rules := by
  induction rules generalizing index with
  | nil =>
    constructor
    · intro h
      exact absurd rfl h
    · intro h
      cases h
  | cons rule rules ih =>
    have hlater := scanFrom_fst rawRules index (rule :: rules)
    rw [scanFrom_cons, scanRule_fst] at hlater
    rw [scanFrom_cons]
    unfold scanRule
    dsimp only at hlater ⊢
    split
    · next hfound =>
      rw [Bool.and_eq_true, Bool.and_eq_true, hlater, Bool.not_eq_true'] at hfound
      constructor
      · intro _
        exact .here hfound.1.2 hfound.2 hfound.1.1
      · intro _
        exact List.append_ne_nil_of_right_ne_nil _ (List.cons_ne_nil _ _)
    · next hfound =>
      rw [Bool.and_eq_true, Bool.and_eq_true, hlater, Bool.not_eq_true'] at hfound
      show (scanFrom rawRules (index + 1) rules).2 ≠ [] ↔ Leaks (rule :: rules)
      rw [ih]
      constructor
      · exact .later
      · intro h
        cases h with
        | here hresolve hneeds hproxied => exact absurd ⟨⟨hproxied, hresolve⟩, hneeds⟩ hfound
        | later h => exact h

theorem resolvingRules_ne_nil (rules : List Rule) :
    resolvingRules rules rawRules ≠ [] ↔ Leaks rules := by
  unfold resolvingRules
  rw [List.foldl_reverse, ne_eq, List.reverse_eq_nil_iff]
  exact scanFrom_snd 0 rules

end Scan

/-! ## What leaves a condition open -/

section

variable {hash : Text → Hash} {host : Text} {ip : Option IpAddr} {port : UInt16} {network : Text}

theorem canResolve_of_onAddress {canResolve : Bool} {check : IpAddr → Bool}
    (h : onAddress ip canResolve check = none) : canResolve = true := by
  unfold onAddress at h
  split at h
  · cases h
  · split at h
    · assumption
    · cases h

mutual

/-- A condition that is left open has a condition on the address outside no-resolve markers. -/
theorem needsAddress_of_open {canResolve : Bool} : ∀ m : Matcher,
    m.evaluate hash host ip port network canResolve = none →
      canResolve = true ∧ needsAddress m = true
  | .net n, h => by
    simp only [Matcher.evaluate] at h
    exact ⟨canResolve_of_onAddress h, rfl⟩
  | .nets set, h => by
    simp only [Matcher.evaluate] at h
    exact ⟨canResolve_of_onAddress h, rfl⟩
  | .externalIp check, h => by
    simp only [Matcher.evaluate] at h
    exact ⟨canResolve_of_onAddress h, rfl⟩
  | .not m, h => by
    simp only [Matcher.evaluate, Option.map_eq_none_iff] at h
    exact needsAddress_of_open m h
  | .noResolve m, h => by
    -- inside the marker nothing may be resolved
    simp only [Matcher.evaluate] at h
    cases (needsAddress_of_open m h).1
  | .and nodes, h => by
    simp only [Matcher.evaluate, evaluateNodes_eq] at h
    exact anyNeedsAddress_of_open nodes (Kleene.none_mem_of_scan h)
  | .or nodes, h => by
    simp only [Matcher.evaluate, evaluateNodes_eq] at h
    exact anyNeedsAddress_of_open nodes (Kleene.none_mem_of_scan h)
  | .domain _, h | .suffix _, h | .subdomain _, h | .keyword _, h | .regex _, h | .domains _, h
  | .port _, h | .ports _, h | .network _, h | .onNetwork _ _, h | .all, h | .geoIp _, h
  | .geoSite _, h | .ruleSet _, h => by
    simp only [Matcher.evaluate] at h
    cases h

/-- The same for the members of a list. -/
theorem anyNeedsAddress_of_open {canResolve : Bool} : ∀ nodes : List Matcher,
    none ∈ nodes.map (Matcher.evaluate hash host ip port network canResolve) →
      canResolve = true ∧ anyNeedsAddress nodes = true
  | [], h => nomatch h
  | m :: nodes, h => by
    rw [anyNeedsAddress]
    rcases List.mem_cons.mp h with hfirst | hrest
    · obtain ⟨hresolve, hneeds⟩ := needsAddress_of_open m hfirst.symm
      exact ⟨hresolve, by rw [hneeds, Bool.true_or]⟩
    · obtain ⟨hresolve, hneeds⟩ := anyNeedsAddress_of_open nodes hrest
      exact ⟨hresolve, by rw [hneeds, Bool.or_true]⟩

end

end

/-! ## Every leak is found -/

namespace RouteCore

variable {hash : Text → Hash} {lookup : Text → UInt16 → Except Text (List SocketAddr)}
  {core : RouteCore} {target : Target} {network host : Text}

theorem leaf_of_unselected {name : Text} (hglobal : name ≠ "GLOBAL".toList)
    (hnone : core.policy.selection.lookup name = none) : core.leaf name = .ok name := by
  have hchain : core.chain name = .ok [name] := by
    unfold chain
    rw [if_neg hglobal]
    show core.follow _ [name] name = .ok [name]
    rw [follow, hnone]
  exact leaf_of_chain hchain rfl

/-- A selection without entries for the reserved targets leaves them alone. -/
theorem proxied_of_leaf (hdirect : core.policy.selection.lookup "DIRECT".toList = none)
    (hreject : core.policy.selection.lookup "REJECT".toList = none) {name node : Text}
    (hleaf : core.leaf name = .ok node) (hnode : proxied node = true) : proxied name = true := by
  unfold proxied
  rw [Bool.and_eq_true, bne_iff_ne, bne_iff_ne]
  constructor
  · rintro rfl
    rw [leaf_of_unselected (by decide) hdirect] at hleaf
    obtain rfl := Except.ok.inj hleaf
    cases hnode
  · rintro rfl
    rw [leaf_of_unselected (by decide) hreject] at hleaf
    obtain rfl := Except.ok.inj hleaf
    cases hnode

section Loop

variable
  (hleaf : ∀ {name node}, core.leaf name = .ok node → proxied node = true → proxied name = true)
  {index : Nat} {rules : List Rule} {s : Progress} {trace : Trace}

include hleaf

theorem proxied_of_selectedTrace {rule : Rule}
    (h : core.selectedTrace index rule s = .ok trace)
    (hnode : proxied trace.decision.node = true) : proxied rule.target = true := by
  obtain ⟨node, htarget, h⟩ := bind_eq_ok h
  obtain rfl := Except.ok.inj h
  exact hleaf htarget hnode

/-- A name that ends at a proxy was sent there by one of the rules. -/
theorem exists_proxied_of_routeRules
    (hroute : (core.routeRules hash lookup target network host index rules s).1 = .ok trace)
    (hnode : proxied trace.decision.node = true) : ∃ rule ∈ rules, proxied rule.target = true := by
  induction rules generalizing index s with
  | nil =>
    obtain rfl := Except.ok.inj hroute
    cases hnode
  | cons rule rules ih =>
    rw [routeRules] at hroute
    split at hroute
    · exact ⟨rule, List.mem_cons_self, proxied_of_selectedTrace hleaf hroute hnode⟩
    · obtain ⟨later, hmem, hlater⟩ := ih hroute
      exact ⟨later, List.mem_cons_of_mem _ hmem, hlater⟩

/-- **A lookup on the way to a proxy is a leak of the rules.** By induction on the rules: the
one that asks is open without an address, and the target comes from it or a later one. -/
theorem leaks_of_routeRules
    (hroute : (core.routeRules hash lookup target network host index rules s).1 = .ok trace)
    (hcalls : (core.routeRules hash lookup target network host index rules s).2 ≠ [])
    (hnode : proxied trace.decision.node = true) : Leaks rules := by
  have hproxied := exists_proxied_of_routeRules hleaf hroute hnode
  induction rules generalizing index s with
  | nil => exact absurd rfl hcalls
  | cons rule rules ih =>
    by_cases hasks : asks hash target network host rule s = true
    · have hparts := hasks
      unfold asks at hparts
      rw [Bool.and_eq_true, Bool.and_eq_true, Option.isNone_iff_eq_none,
        Bool.not_eq_true'] at hparts
      exact .here hparts.1.2 (needsAddress_of_open _ hparts.1.1).2 hproxied
    · rw [routeRules] at hroute hcalls
      split at hroute
      · next hselects =>
        rw [if_pos hselects, if_neg hasks] at hcalls
        exact absurd rfl hcalls
      · next hselects =>
        rw [if_neg hselects, if_neg hasks] at hcalls
        exact .later (ih hroute hcalls (exists_proxied_of_routeRules hleaf hroute hnode))

end Loop

end RouteCore

theorem exists_resolvingFinding {policy : Policy} (hmode : policy.mode = .rule)
    (h : Leaks policy.rules) :
    ∃ finding ∈ resolvingFinding policy,
      finding.code = "resolving-rules" ∧ finding.level = "risk" := by
  have hfound : ¬ (resolvingRules policy.rules policy.rawRules).isEmpty = true := by
    rw [List.isEmpty_iff]
    exact (resolvingRules_ne_nil policy.rules).mpr h
  unfold resolvingFinding
  rw [if_pos hmode]
  rw [if_neg hfound]
  exact ⟨_, List.mem_cons_self, rfl, rfl⟩

/-- **The audit is complete for rules**: where routing in rule mode looks a name up and sends
it to a node other than `DIRECT` and `REJECT`, the audit of the same rules says so. -/
theorem dns_leak_audit_complete {lib : RuleLib} {config : Config}
    (hvalid : config.validate lib = .ok ()) {policy : Policy} (hmode : policy.mode = .rule)
    (hselection : ∀ name ∈ policy.selection, name ∈ config.proxyGroups.map Group.name)
    (adblock : Option Filter) (hash : Text → Hash)
    (lookup : Text → UInt16 → Except Text (List SocketAddr)) (target : Target)
    (address : Option IpAddr) (network : Text) {trace : Trace} {calls : List Target}
    (hroute : (RouteCore.ofConfig config adblock policy).traceRoute hash lookup target address
      network = (.ok trace, calls))
    (hcalls : calls ≠ []) (hdirect : trace.decision.node ≠ "DIRECT".toList)
    (hreject : trace.decision.node ≠ "REJECT".toList) (macos : Bool) :
    (dnsLeakAudit macos config policy).leaking = true ∧
      ∃ finding ∈ (dnsLeakAudit macos config policy).findings,
        finding.code = "resolving-rules" ∧ finding.level = "risk" := by
  have hgroups := validGroups_of_validate hvalid
  -- no group has a reserved name, so none is selected for one
  have hnone : ∀ reserved ∈ ["DIRECT", "REJECT", "GLOBAL"].map String.toList,
      policy.selection.lookup reserved = none := by
    intro reserved hreserved
    cases hlookup : policy.selection.lookup reserved with
    | none => rfl
    | some member =>
      have hname := hselection reserved (Table.mem_iff_lookup.mpr ⟨member, hlookup⟩)
      exact absurd rfl (hgroups.ne_of_reserved hreserved (List.mem_append_right _ hname))
  have hnode : proxied trace.decision.node = true := by
    unfold proxied
    rw [Bool.and_eq_true, bne_iff_ne, bne_iff_ne]
    exact ⟨hdirect, hreject⟩
  have hleaks : Leaks policy.rules := by
    unfold RouteCore.traceRoute at hroute
    split at hroute
    · obtain ⟨-, rfl⟩ := Prod.mk.inj hroute
      exact absurd rfl hcalls
    · unfold RouteCore.routeByMode at hroute
      have hrule : (RouteCore.ofConfig config adblock policy).policy.mode = .rule := hmode
      rw [hrule] at hroute
      refine RouteCore.leaks_of_routeRules ?_ (congrArg Prod.fst hroute) ?_ hnode
      · exact RouteCore.proxied_of_leaf (hnone _ (by decide)) (hnone _ (by decide))
      · exact fun hempty => hcalls ((congrArg Prod.snd hroute).symm.trans hempty)
  obtain ⟨finding, hfinding, hcode, hlevel⟩ := exists_resolvingFinding hmode hleaks
  have hmem : finding ∈ (dnsLeakAudit macos config policy).findings := by
    show finding ∈ _ ++ _ ++ _ ++ _ ++ _
    simp only [List.mem_append, hfinding, true_or, or_true]
  refine ⟨?_, finding, hmem, hcode, hlevel⟩
  show List.any _ _ = true
  exact List.any_eq_true.mpr ⟨finding, hmem, by rw [hlevel]; rfl⟩

theorem sixteen_le_bits : 16 ≤ 32 := by decide

/-- The group of a group, with a rule on addresses before the rule for all names. -/
def leakPolicy : Policy where
  mode := .rule
  rules := [⟨.net (.v4 ⟨0xC0A80000, 16, sixteen_le_bits⟩), "DIRECT".toList, false⟩,
    ⟨.all, ['m'], false⟩]
  rawRules := []
  selection := nestedPolicy.selection
  parsed := parsed_nil

/-- The rule for private addresses makes the core look the name up, which then goes to `m`. -/
theorem dns_leak_audit_private :
    (dnsLeakAudit false nestedConfig leakPolicy).leaking = true ∧
      ∃ finding ∈ (dnsLeakAudit false nestedConfig leakPolicy).findings,
        finding.code = "resolving-rules" ∧ finding.level = "risk" := by
  have hvalid : nestedConfig.validate ⟨fun _ _ => none, fun _ => none, fun _ => none⟩ = .ok () := by
    decide +kernel
  have hroute : (RouteCore.ofConfig nestedConfig none leakPolicy).traceRoute (fun _ => 0)
      (fun _ port => .ok [⟨.v4 0x08080808, port⟩]) ⟨['e'], 443⟩ none "tcp".toList
      = (.ok ⟨⟨['y'], ['m'], "Match".toList⟩, some (.v4 0x08080808), some 1, true⟩,
          [⟨['e'], 443⟩]) := by
    decide +kernel
  have hselection : ∀ name ∈ leakPolicy.selection,
      name ∈ nestedConfig.proxyGroups.map Group.name := by
    decide +kernel
  exact dns_leak_audit_complete hvalid rfl hselection none _ _ _ none _ hroute (by simp)
    (by decide) (by decide) false

end Clyntis.Core
