import Clyntis.Config.RuleParse
import Clyntis.Core.Adblock
import Clyntis.Lib.Table
import Clyntis.Protocol.Target

/-!
# Routing (`lib.rs`, `Core::trace_route`)

A connection is first shown to the ad-block filter; then the mode decides, and in
rule mode the first rule whose condition holds. Conditions on the address make the
core look the name up, once, when a rule cannot be decided without it.

- `describeRule`: the rule's text in a decision;
- `chain`, `leaf`: from a group to the node it uses;
- `routeRules`, `traceRoute`: the decision, with the lookups that were made.

`lookup` stands for the resolver. The counters that `record` asks for are left out.
-/

namespace Clyntis.Core

open Lib Net Config
open Protocol (Target)

/-- `Mode`. -/
inductive Mode where
  | rule
  | global
  | direct
  deriving DecidableEq, Repr

/-- `RouteDecision`. -/
structure RouteDecision where
  node : Text
  group : Text
  rule : Text
  deriving DecidableEq, Repr

/-- `Trace`. -/
structure Trace where
  decision : RouteDecision
  ip : Option IpAddr
  index : Option Nat := none
  lookedUp : Bool := false
  deriving DecidableEq, Repr

/-- `Trace::new`. -/
def Trace.new (node group rule : Text) (ip : Option IpAddr) : Trace :=
  ⟨⟨node, group, rule⟩, ip, none, false⟩

/-! ## The text of a rule -/

/-- The loop of `without_last_rule_field`, from the end: what is still before the
position, in reverse, what lies behind it, and the depth of parentheses. -/
def cutField (expected : Text) : (before after : Text) → (depth : Nat) → Option Text
  | [], _, _ => none
  | c :: before, after, depth =>
    if c = ')' then cutField expected before (c :: after) (depth + 1)
    else if c = '(' then cutField expected before (c :: after) (depth - 1)
    else if c = ',' ∧ depth = 0 ∧ after.trim.eqIgnoreAsciiCase expected then
      some (Text.trimEnd before.reverse)
    else cutField expected before (c :: after) depth

/-- `without_last_rule_field`. -/
def withoutLastRuleField (raw expected : Text) : Text :=
  (cutField expected raw.reverse [] 0).getD raw

/-- How a decision calls the kinds of rules. -/
def kindNames : List (Text × Text) :=
  [("DOMAIN", "Domain"), ("DOMAIN-SUFFIX", "DomainSuffix"), ("DOMAIN-KEYWORD", "DomainKeyword"),
    ("DOMAIN-REGEX", "DomainRegex"), ("IP-CIDR", "IPCIDR"), ("IP-CIDR6", "IPCIDR6"),
    ("GEOIP", "GeoIP"), ("GEOSITE", "GeoSite"), ("RULE-SET", "RuleSet"), ("DST-PORT", "DstPort"),
    ("NETWORK", "Network"), ("NETWORK-NAME", "NetworkName"), ("AND", "And"), ("OR", "Or"),
    ("NOT", "Not")].map fun entry => (entry.1.toList, entry.2.toList)

/-- The name of a kind, in any case of its letters; an unknown kind keeps its own. -/
def kindName (kind : Text) : Text := (kindNames.lookup kind.toAsciiUppercase).getD kind

/-- The end of `describe_rule`, on a rule without target and marker. -/
def describeCondition (raw : Text) : Text :=
  match Text.splitOnce raw ',' with
  | none => if Text.eqIgnoreAsciiCase raw "MATCH".toList then "Match".toList else raw
  | some (kind, value) => kindName kind.trim ++ '(' :: value.trim ++ [')']

/-- `describe_rule`. -/
def describeRule (raw target : Text) : Text :=
  describeCondition (withoutLastRuleField (withoutLastRuleField raw "no-resolve".toList) target)

/-! ## The core -/

/-- `Policy`, as far as routing reads it. A raw rule was parsed before it is kept. -/
structure Policy where
  mode : Mode
  rules : List Rule
  rawRules : List Text
  selection : Table Text Text
  parsed : ∀ raw ∈ rawRules, ∃ lib rule, Rule.parse lib raw = .ok rule

/-- What routing reads of the core: the filter, the policy and the names of the
configured groups and proxies. -/
structure RouteCore where
  adblock : Option Filter
  policy : Policy
  proxyGroups : List Text
  proxies : List Text

namespace RouteCore

variable (hash : Text → Hash) (lookup : Text → UInt16 → Except Text (List SocketAddr))

/-- The loop of `chain`: `tries` rounds are left, `last` is the end of the chain. -/
def follow (core : RouteCore) :
    (tries : Nat) → (chain : List Text) → (last : Text) → Except Text (List Text)
  | 0, _, _ => .error "group cycle".toList
  | tries + 1, chain, last =>
    match core.policy.selection.lookup last with
    | some selected => follow core tries (chain ++ [selected]) selected
    | none => .ok chain

variable (core : RouteCore)

/-- `chain`. -/
def chain (name : Text) : Except Text (List Text) :=
  let name :=
    if name = "GLOBAL".toList then
      (core.proxyGroups.head?.or core.proxies.head?).getD "DIRECT".toList
    else name
  core.follow (core.proxyGroups.length + 1) [name] name

/-- `leaf`. -/
def leaf (name : Text) : Except Text Text :=
  (core.chain name).map fun chain => chain.getLast?.getD []

/-- What the loop over the rules knows about the address. -/
structure Progress where
  ip : Option IpAddr
  resolved : Bool
  lookedUp : Bool

/-- The outcome of the one lookup, as the rules see it. -/
def lookedUpAddress (target : Target) : Option IpAddr :=
  match lookup target.host target.port with
  | .ok addresses => addresses.head?.map SocketAddr.ip
  | .error _ => none

section Round

variable (target : Target) (network host : Text) (rule : Rule) (s : Progress)

/-- `matched`: the rule's verdict before a lookup. -/
def matched : Option Bool :=
  rule.matcher.evaluate hash host s.ip target.port network (!rule.noResolve && !s.resolved)

/-- Whether the rule makes the core look the name up. -/
def asks : Bool :=
  (matched hash target network host rule s).isNone && !rule.noResolve && !s.resolved

/-- What is known about the address after the rule has asked, if it does. -/
def advance : Progress :=
  if asks hash target network host rule s then ⟨lookedUpAddress lookup target, true, true⟩ else s

/-- Whether the rule is selected. -/
def selects : Bool :=
  matched hash target network host rule s == some true ||
    ((matched hash target network host rule s).isNone &&
      rule.matchesTarget hash host (advance hash lookup target network host rule s).ip target.port
        network)

end Round

/-- The trace of a selected rule. -/
def selectedTrace (index : Nat) (rule : Rule) (s : Progress) :
    Except Text Trace :=
  (core.leaf rule.target).map fun node =>
    { decision := ⟨node, rule.target,
        (core.policy.rawRules[index]?.map fun raw => describeRule raw rule.target).getD
          "Match".toList⟩
      ip := s.ip
      index := some index
      lookedUp := s.lookedUp }

/-- The trace when no rule is selected. -/
def fallbackTrace (s : Progress) : Trace :=
  { Trace.new "DIRECT".toList "DIRECT".toList "Fallback".toList s.ip with lookedUp := s.lookedUp }

/-- The loop of `trace_route` over the rules from number `index` on. The second
component lists the lookups made. -/
def routeRules (core : RouteCore) (target : Target) (network host : Text) :
    (index : Nat) → List Rule → Progress → Except Text Trace × List Target
  | _, [], s => (.ok (fallbackTrace s), [])
  | index, rule :: rules, s =>
    let after := advance hash lookup target network host rule s
    let calls := if asks hash target network host rule s then [target] else []
    if selects hash lookup target network host rule s then
      (core.selectedTrace index rule after, calls)
    else
      let rest := routeRules core target network host (index + 1) rules after
      (rest.1, calls ++ rest.2)

/-- `trace_route` once the filter has let the target pass. -/
def routeByMode (target : Target) (address : Option IpAddr) (network : Text) :
    Except Text Trace × List Target :=
  match core.policy.mode with
  | .direct => (.ok (Trace.new "DIRECT".toList "DIRECT".toList "Mode(Direct)".toList none), [])
  | .global =>
    ((core.leaf "GLOBAL".toList).map fun node =>
      Trace.new node "GLOBAL".toList "Mode(Global)".toList none, [])
  | .rule =>
    let ip := target.ip.or address
    core.routeRules hash lookup target network (Text.normalize target.host) 0
      core.policy.rules ⟨ip, ip.isSome, false⟩

/-- The filter's verdict on a target. -/
def refuses (core : RouteCore) (target : Target) (network : Text) : Option Block :=
  core.adblock.bind fun filter => filter.refuses hash target.host target.port network

/-- `trace_route`: the result, and the lookups made on the way. -/
def traceRoute (target : Target) (address : Option IpAddr) (network : Text) :
    Except Text Trace × List Target :=
  match core.refuses hash target network with
  | some block => (.ok (Trace.new "REJECT".toList "REJECT".toList block.matched none), [])
  | none => core.routeByMode hash lookup target address network

/-- The decision of `trace_route`, or its error. -/
def routeDecision (target : Target) (address : Option IpAddr) (network : Text) :
    Except Text RouteDecision :=
  (core.traceRoute hash lookup target address network).1.map Trace.decision

end RouteCore

end Clyntis.Core
