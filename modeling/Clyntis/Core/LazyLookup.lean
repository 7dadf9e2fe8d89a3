import Clyntis.Core.Route

/-!
# Lazy lookups

`trace_route` looks a name up only when a rule cannot be decided without its
address. For rules without no-resolve markers this changes nothing:

- `firstHolding`, `eagerRoute`: resolve first, then take the first rule that holds;
- `routeRules_resolved`: with the address known, the loop is that search;
- `routeRules_unresolved`: before the lookup, every verdict the loop acts on is the
  verdict the address would give (`Matcher.evaluate_refines`), so that the loop
  stays in step with the search until a rule asks;
- `traceRoute_eq_eagerRoute`: both together, with the number of lookups.
-/

namespace Clyntis.Core

open Lib Net Config
open Protocol (Target)

namespace RouteCore

variable {hash : Text → Hash} {lookup : Text → UInt16 → Except Text (List SocketAddr)}
  {core : RouteCore}

/-! ## Resolving first -/

/-- Whether the rule holds of a host with this address. -/
def holds (hash : Text → Hash) (target : Target) (network host : Text) (ip : Option IpAddr)
    (rule : Rule) : Bool :=
  rule.matcher.evaluate hash host ip target.port network false == some true

/-- The first rule that holds, with its number. -/
def firstHolding (hash : Text → Hash) (target : Target) (network host : Text)
    (ip : Option IpAddr) : (index : Nat) → List Rule → Option (Nat × Rule)
  | _, [] => none
  | index, rule :: rules =>
    if holds hash target network host ip rule then some (index, rule)
    else firstHolding hash target network host ip (index + 1) rules

/-- What a trace says about the selection: the decision and the rule's number. -/
def selection (result : Except Text Trace) : Except Text (RouteDecision × Option Nat) :=
  result.map fun trace => (trace.decision, trace.index)

/-- The outcome of selecting a rule, or none. -/
def eagerTrace (core : RouteCore) (ip : Option IpAddr) : Option (Nat × Rule) → Except Text Trace
  | some (index, rule) => core.selectedTrace index rule ⟨ip, true, true⟩
  | none => .ok (fallbackTrace ⟨ip, true, true⟩)

/-- The address of the target, the one that was dialed, or the outcome of a lookup. -/
def eagerAddress (lookup : Text → UInt16 → Except Text (List SocketAddr)) (target : Target)
    (address : Option IpAddr) : Option IpAddr :=
  (target.ip.or address).or (lookedUpAddress lookup target)

/-- The rule that resolving first selects. -/
def eagerRule (hash : Text → Hash) (lookup : Text → UInt16 → Except Text (List SocketAddr))
    (core : RouteCore) (target : Target) (address : Option IpAddr) (network : Text) :
    Option (Nat × Rule) :=
  firstHolding hash target network (Text.normalize target.host)
    (eagerAddress lookup target address) 0 core.policy.rules

/-- Routing in rule mode that resolves the host first. -/
def eagerRoute (hash : Text → Hash) (lookup : Text → UInt16 → Except Text (List SocketAddr))
    (core : RouteCore) (target : Target) (address : Option IpAddr) (network : Text) :
    Except Text Trace :=
  match core.refuses hash target network with
  | some block => .ok (Trace.new "REJECT".toList "REJECT".toList block.matched none)
  | none => core.eagerTrace (eagerAddress lookup target address)
      (eagerRule hash lookup core target address network)

/-- The selection does not show what was known about the address. -/
theorem selection_selectedTrace (index : Nat) (rule : Rule) (s s' : Progress) :
    selection (core.selectedTrace index rule s) = selection (core.selectedTrace index rule s') := by
  unfold selectedTrace selection
  cases core.leaf rule.target with
  | error e => rfl
  | ok node => rfl

/-! ## The loop -/

section

variable {target : Target} {network name : Text}

/-- A rule matches its target as its condition says: the host is in lower case already. -/
theorem matchesTarget_normalize (rule : Rule) (ip : Option IpAddr) :
    rule.matchesTarget hash (Text.normalize name) ip target.port network
      = holds hash target network (Text.normalize name) ip rule := by
  unfold Rule.matchesTarget holds
  rw [Text.normalize_normalize]

/-- With the address known, a rule asks for nothing and is selected if it holds. -/
theorem round_resolved (rule : Rule) {s : Progress} (hs : s.resolved = true) :
    asks hash target network (Text.normalize name) rule s = false ∧
      advance hash lookup target network (Text.normalize name) rule s = s ∧
      selects hash lookup target network (Text.normalize name) rule s
        = holds hash target network (Text.normalize name) s.ip rule := by
  have hasks : asks hash target network (Text.normalize name) rule s = false := by
    unfold asks
    rw [hs]
    simp
  have hadvance : advance hash lookup target network (Text.normalize name) rule s = s := by
    unfold advance
    rw [hasks]
    rfl
  refine ⟨hasks, hadvance, ?_⟩
  unfold selects
  rw [hadvance, matchesTarget_normalize]
  unfold matched holds
  rw [hs]
  simp only [Bool.not_true, Bool.and_false]
  cases rule.matcher.evaluate hash (Text.normalize name) s.ip target.port network false with
  | none => rfl
  | some v => simp

/-- With the address known, the loop is the search for the first rule that holds. -/
theorem routeRules_resolved {rules : List Rule} {index : Nat} {s : Progress}
    (hs : s.resolved = true) :
    selection (core.routeRules hash lookup target network (Text.normalize name) index rules s).1
        = selection (core.eagerTrace s.ip
          (firstHolding hash target network (Text.normalize name) s.ip index rules)) ∧
      (core.routeRules hash lookup target network (Text.normalize name) index rules s).2 = [] := by
  induction rules generalizing index with
  | nil => exact ⟨rfl, rfl⟩
  | cons rule rules ih =>
    obtain ⟨hasks, hadvance, hselects⟩ :=
      @round_resolved hash lookup target network name rule s hs
    rw [routeRules, firstHolding, hasks, hadvance, hselects]
    cases hholds : holds hash target network (Text.normalize name) s.ip rule with
    | true => exact ⟨selection_selectedTrace index rule _ _, rfl⟩
    | false => exact ih

/-- Nothing is known about the address yet. -/
def unresolved : Progress := ⟨none, false, false⟩

/-- What the loop knows once it has asked. -/
def resolvedBy (ip : Option IpAddr) : Progress := ⟨ip, true, true⟩

theorem matched_unresolved {rule : Rule} (hresolve : rule.noResolve = false) :
    matched hash target network (Text.normalize name) rule unresolved
      = rule.matcher.evaluate hash (Text.normalize name) none target.port network true := by
  unfold matched
  rw [hresolve]
  rfl

/-- A rule decided without the address is decided with it in the same way. -/
theorem round_decided {rule : Rule} (hresolve : rule.noResolve = false)
    (hmarked : rule.matcher.marked = false) {v : Bool}
    (hv : rule.matcher.evaluate hash (Text.normalize name) none target.port network true = some v) :
    asks hash target network (Text.normalize name) rule unresolved = false ∧
      advance hash lookup target network (Text.normalize name) rule unresolved = unresolved ∧
      selects hash lookup target network (Text.normalize name) rule unresolved = v ∧
      ∀ ip, holds hash target network (Text.normalize name) ip rule = v := by
  have hmatched := (matched_unresolved hresolve).trans hv
  have hasks : asks hash target network (Text.normalize name) rule unresolved = false := by
    unfold asks
    rw [hmatched]
    rfl
  refine ⟨hasks, ?_, ?_, fun ip => ?_⟩
  · unfold advance
    rw [hasks]
    rfl
  · unfold selects
    rw [hmatched]
    cases v <;> rfl
  · have hwith : rule.matcher.evaluate hash (Text.normalize name) ip target.port network false
        = some v := Matcher.evaluate_refines false rule.matcher hmarked v hv
    unfold holds
    rw [hwith]
    cases v <;> rfl

/-- A rule without a verdict asks, and is selected if it holds with the answer. -/
theorem round_unknown {rule : Rule} (hresolve : rule.noResolve = false)
    (hv : rule.matcher.evaluate hash (Text.normalize name) none target.port network true = none) :
    asks hash target network (Text.normalize name) rule unresolved = true ∧
      advance hash lookup target network (Text.normalize name) rule unresolved
        = resolvedBy (lookedUpAddress lookup target) ∧
      selects hash lookup target network (Text.normalize name) rule unresolved
        = holds hash target network (Text.normalize name) (lookedUpAddress lookup target) rule := by
  have hmatched := (matched_unresolved hresolve).trans hv
  have hasks : asks hash target network (Text.normalize name) rule unresolved = true := by
    unfold asks
    rw [hmatched, hresolve]
    rfl
  have hadvance : advance hash lookup target network (Text.normalize name) rule unresolved
      = resolvedBy (lookedUpAddress lookup target) := by
    unfold advance
    rw [hasks]
    rfl
  refine ⟨hasks, hadvance, ?_⟩
  unfold selects
  rw [hmatched, hadvance, matchesTarget_normalize]
  rfl

/-- The number of a rule found is past those already tried. -/
theorem le_of_firstHolding {host : Text} {ip : Option IpAddr} {rules : List Rule}
    {index found : Nat} {rule : Rule}
    (h : firstHolding hash target network host ip index rules = some (found, rule)) :
    index ≤ found := by
  induction rules generalizing index with
  | nil => cases h
  | cons first rules ih =>
    rw [firstHolding] at h
    split at h
    · exact (Prod.mk.inj (Option.some.inj h)).1.le
    · exact Nat.le_of_succ_le (ih h)

/-- The loop asked once, for a rule at or before the selected one that has no verdict
without an address. -/
def AskedOnce (hash : Text → Hash) (target : Target) (network host : Text) (ip : Option IpAddr)
    (index : Nat) (rules : List Rule) (calls : List Target) : Prop :=
  calls = [target] ∧ ∃ k rule, rules[k]? = some rule ∧
    rule.matcher.evaluate hash host none target.port network true = none ∧
    ∀ found selected,
      firstHolding hash target network host ip index rules = some (found, selected) →
        index + k ≤ found

/-- **Before the lookup the loop keeps in step with the search**: the induction is on the
rules, and the invariant is that none of the rules before has asked. -/
theorem routeRules_unresolved {rules : List Rule} {index : Nat}
    (hmarks : ∀ rule ∈ rules, rule.noResolve = false ∧ rule.matcher.marked = false) :
    selection (core.routeRules hash lookup target network (Text.normalize name) index rules
          unresolved).1
        = selection (core.eagerTrace (lookedUpAddress lookup target)
          (firstHolding hash target network (Text.normalize name) (lookedUpAddress lookup target)
            index rules)) ∧
      ((core.routeRules hash lookup target network (Text.normalize name) index rules
          unresolved).2 = [] ∨
        AskedOnce hash target network (Text.normalize name) (lookedUpAddress lookup target) index
          rules (core.routeRules hash lookup target network (Text.normalize name) index rules
            unresolved).2) := by
  induction rules generalizing index with
  | nil => exact ⟨rfl, .inl rfl⟩
  | cons rule rules ih =>
    obtain ⟨hresolve, hmarked⟩ := hmarks rule List.mem_cons_self
    cases hv : rule.matcher.evaluate hash (Text.normalize name) none target.port network true with
    | some v =>
      obtain ⟨hsel, hcalls⟩ := @ih (index + 1) fun r hr => hmarks r (List.mem_cons_of_mem _ hr)
      obtain ⟨hasks, hadvance, hselects, hholds⟩ :=
        @round_decided hash lookup target network name rule hresolve hmarked v hv
      unfold AskedOnce
      rw [routeRules, firstHolding, hasks, hadvance, hselects, hholds]
      cases v with
      | true => exact ⟨selection_selectedTrace index rule _ _, .inl rfl⟩
      | false =>
        refine ⟨hsel, ?_⟩
        rcases hcalls with hnone | ⟨hone, k, r, hr, hunknown, hbefore⟩
        · exact .inl hnone
        · refine .inr ⟨hone, k + 1, r, hr, hunknown, fun found selected hfound => ?_⟩
          have := hbefore found selected hfound
          omega
    | none =>
      obtain ⟨hasks, hadvance, hselects⟩ :=
        @round_unknown hash lookup target network name rule hresolve hv
      obtain ⟨hsel, hcalls⟩ := @routeRules_resolved hash lookup core target network name rules
        (index + 1) (resolvedBy (lookedUpAddress lookup target)) rfl
      -- the rule at hand is the one that asks, and no rule before it is selected
      have hasked : ∀ calls, calls = [target] →
          AskedOnce hash target network (Text.normalize name) (lookedUpAddress lookup target) index
            (rule :: rules) calls :=
        fun calls hone => ⟨hone, 0, rule, rfl, hv, fun _ _ hfound => le_of_firstHolding hfound⟩
      refine ⟨?_, .inr (hasked _ ?_)⟩
      · rw [routeRules, firstHolding, hadvance, hselects]
        cases holds hash target network (Text.normalize name) (lookedUpAddress lookup target)
            rule with
        | true => exact selection_selectedTrace index rule _ _
        | false => exact hsel
      · rw [routeRules, hasks, hadvance, hselects]
        cases holds hash target network (Text.normalize name) (lookedUpAddress lookup target)
            rule with
        | true => rfl
        | false => exact congrArg (target :: ·) hcalls

end

/-- **Lazy lookups change nothing**: in rule mode and without no-resolve markers,
`trace_route` decides as if the host had been resolved first. It asks at most once,
and then no address was known and a rule at or before the selected one had no verdict
without it. -/
theorem traceRoute_eq_eagerRoute (hmode : core.policy.mode = .rule)
    (hmarks : ∀ rule ∈ core.policy.rules, rule.noResolve = false ∧ rule.matcher.marked = false)
    (target : Target) (address : Option IpAddr) (network : Text) :
    selection (core.traceRoute hash lookup target address network).1
        = selection (core.eagerRoute hash lookup target address network) ∧
      ((core.traceRoute hash lookup target address network).2 = [] ∨
        (core.traceRoute hash lookup target address network).2 = [target] ∧
          target.ip.or address = none ∧
          ∃ k rule, core.policy.rules[k]? = some rule ∧
            rule.matcher.evaluate hash (Text.normalize target.host) none target.port network true
              = none ∧
            ∀ found selected, core.eagerRule hash lookup target address network
              = some (found, selected) → k ≤ found) := by
  unfold traceRoute eagerRoute
  cases core.refuses hash target network with
  | some block => exact ⟨rfl, .inl rfl⟩
  | none =>
    unfold routeByMode eagerRule eagerAddress
    rw [hmode]
    cases hip : target.ip.or address with
    | some ip =>
      obtain ⟨hsel, hcalls⟩ := @routeRules_resolved hash lookup core target network target.host
        core.policy.rules 0 ⟨some ip, true, false⟩ rfl
      exact ⟨hsel, .inl hcalls⟩
    | none =>
      obtain ⟨hsel, hcalls⟩ := @routeRules_unresolved hash lookup core target network target.host
        core.policy.rules 0 hmarks
      refine ⟨hsel, ?_⟩
      rcases hcalls with hnone | ⟨hone, k, rule, hrule, hunknown, hbefore⟩
      · exact .inl hnone
      · refine .inr ⟨hone, rfl, k, rule, hrule, hunknown, fun found selected hfound => ?_⟩
        have := hbefore found selected hfound
        omega

/-- `10.0.0.0/8`. -/
def lan : IpNet := .v4 ⟨0x0A000000, 8, by decide⟩

/-- A core with a rule on an address before the rule that always holds. -/
def lanCore : RouteCore where
  adblock := none
  policy :=
    { mode := .rule
      rules := [⟨.net lan, "LAN".toList, false⟩, ⟨.all, "Proxy".toList, false⟩]
      rawRules := ["IP-CIDR,10.0.0.0/8,LAN".toList, "MATCH,Proxy".toList]
      selection := ∅
      parsed := by
        let lib : RuleLib := ⟨fun _ _ => none, fun _ => none, fun _ => some lan⟩
        exact List.forall_mem_cons.mpr
          ⟨⟨lib, _, rfl⟩, List.forall_mem_singleton.mpr ⟨lib, _, rfl⟩⟩ }
  proxyGroups := []
  proxies := ["LAN".toList, "Proxy".toList]

/-- The name `nas` resolves into the network of the first rule. -/
theorem traceRoute_nas :
    lanCore.traceRoute (fun _ => 0) (fun _ port => .ok [⟨.v4 0x0A010203, port⟩])
        ⟨"nas".toList, 445⟩ none "tcp".toList
      = (.ok ⟨⟨"LAN".toList, "LAN".toList, "IPCIDR(10.0.0.0/8)".toList⟩,
          some (.v4 0x0A010203), some 0, true⟩, [⟨"nas".toList, 445⟩]) ∧
    selection (lanCore.traceRoute (fun _ => 0) (fun _ port => .ok [⟨.v4 0x0A010203, port⟩])
        ⟨"nas".toList, 445⟩ none "tcp".toList).1
      = selection (lanCore.eagerRoute (fun _ => 0) (fun _ port => .ok [⟨.v4 0x0A010203, port⟩])
        ⟨"nas".toList, 445⟩ none "tcp".toList) :=
  ⟨by decide +kernel, (traceRoute_eq_eagerRoute rfl (by simp [lanCore, Matcher.marked]) _ _ _).1⟩

end RouteCore

end Clyntis.Core
