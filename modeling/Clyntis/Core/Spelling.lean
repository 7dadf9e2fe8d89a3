import Clyntis.Core.Route

/-!
# Routing and the spelling of a name

The rules see a name in lower case and without trailing dots. The ad-block filter
only takes the dots away: it sees the letters as the application spelled them, while
the DNS path asks it in lower case, the case of the lists' entries.

- `routeByMode_spelling`: past the filter, all spellings of a name are one;
- `routeByMode_rule_ne`: what the filter refuses is told apart from every decision
  of a rule, since no rule describes itself as the filter does;
- `routeDecision_spelling_iff`: the decision is the same for all spellings exactly
  if the lists say the same of all of them.
-/

namespace Clyntis.Core

open Lib Net Config List
open Protocol (Target)

/-! ## Descriptions of rules -/

/-- Cutting off a field leaves the front of the rule. -/
theorem cutField_isPrefix {expected before after r : Text} {depth : Nat}
    (h : cutField expected before after depth = some r) : r <+: before.reverse := by
  induction before generalizing after depth with
  | nil => cases h
  | cons c before ih =>
    have hfront : before.reverse <+: (c :: before).reverse := by
      rw [reverse_cons]
      exact prefix_append _ _
    rw [cutField] at h
    split at h
    · exact (ih h).trans hfront
    · split at h
      · exact (ih h).trans hfront
      · split at h
        · obtain rfl := Option.some.inj h
          exact (List.rdropWhile_prefix _ _).trans hfront
        · exact (ih h).trans hfront

theorem withoutLastRuleField_isPrefix (raw expected : Text) :
    withoutLastRuleField raw expected <+: raw := by
  unfold withoutLastRuleField
  cases hcut : cutField expected raw.reverse [] 0 with
  | none => exact prefix_rfl
  | some r =>
    have h := cutField_isPrefix hcut
    rwa [reverse_reverse] at h

variable (block : Block)

/-- The filter's texts all begin like this. -/
theorem matched_take : block.matched.take 2 = ['A', 'd'] := by
  cases block <;> decide

theorem ne_matched_of_take {text : Text} (h : text.take 2 ≠ ['A', 'd']) :
    text ≠ block.matched :=
  fun heq => h (heq ▸ matched_take block)

/-- The kinds of rules do not, nor do the names a decision gives them. -/
theorem ruleKinds_take : ∀ kind ∈ ruleKinds, kind.take 2 ≠ ['A', 'd'] ∧
    (kindName kind).take 2 ≠ ['A', 'd'] ∧ 2 ≤ (kindName kind).length := by
  decide

/-- Trimming keeps a front without white space. -/
theorem trim_take (rest : Text) : (Text.trim ('A' :: 'd' :: rest)).take 2 = ['A', 'd'] := by
  have hA : isWhiteSpace 'A' = false := by decide
  have hd : isWhiteSpace 'd' = false := by decide
  rw [Text.trim, dropWhile_cons_of_neg (by rw [hA]; decide), List.rdropWhile,
    reverse_cons, reverse_cons, append_assoc, dropWhile_append]
  split
  · simp [hd]
  · simp

variable {raw : Text} {index : Nat} {name network : Text} {target : Target}
  (h : ruleKind raw ∈ ruleKinds) {rules : List Rule} {network host : Text}
include h

/-- A raw rule does not begin with the filter's text. -/
theorem raw_take : raw.take 2 ≠ ['A', 'd'] := by
  intro htake
  obtain ⟨rest, rfl⟩ : ∃ rest, raw = 'A' :: 'd' :: rest :=
    ⟨raw.drop 2, by rw [← take_append_drop 2 raw, htake]; rfl⟩
  refine (ruleKinds_take _ h).1 ?_
  exact trim_take (rest.takeWhile (· != ','))

/-- What is left of a rule does not describe itself as the filter does. -/
theorem describeCondition_take {cut : Text}
    (hfront : cut <+: raw) : (describeCondition cut).take 2 ≠ ['A', 'd'] := by
  obtain ⟨tail, rfl⟩ := hfront
  unfold describeCondition
  cases hsplit : Text.splitOnce cut ',' with
  | none =>
    -- no comma is left: the text is the front of the raw rule
    dsimp only
    split
    · decide
    · intro htake
      refine raw_take h ?_
      have hlen := congrArg List.length htake
      rw [length_take] at hlen
      simp only [length_cons] at hlen
      rw [take_append_of_le_length (by omega), htake]
  | some fields =>
    -- what stands before the comma is the kind that was parsed
    rw [ruleKind, Text.takeWhile_of_splitOnce hsplit tail] at h
    obtain ⟨-, hname, hlen⟩ := ruleKinds_take _ h
    dsimp only
    rw [append_assoc, take_append_of_le_length hlen]
    exact hname

/-- No rule describes itself as the filter does. -/
theorem describeRule_ne_matched
    (target : Text) (block : Block) : describeRule raw target ≠ block.matched := by
  refine ne_matched_of_take block (describeCondition_take h ?_)
  exact (withoutLastRuleField_isPrefix _ target).trans
    (withoutLastRuleField_isPrefix raw "no-resolve".toList)

omit h

namespace RouteCore

variable {hash : Text → Hash} {lookup : Text → UInt16 → Except Text (List SocketAddr)}
  {core : RouteCore} {trace : Trace} {address : Option IpAddr} {port : UInt16} {s t : Text}

/-- A selected rule's decision does not carry the filter's text. -/
theorem selectedTrace_rule_ne {rule : Rule} {s : Progress}
    (h : core.selectedTrace index rule s = .ok trace) : trace.decision.rule ≠ block.matched := by
  unfold selectedTrace at h
  cases hleaf : core.leaf rule.target with
  | error e => rw [hleaf] at h; cases h
  | ok node =>
    rw [hleaf] at h
    obtain rfl := Except.ok.inj h
    show (core.policy.rawRules[index]?.map fun raw => describeRule raw rule.target).getD
      "Match".toList ≠ block.matched
    cases hraw : core.policy.rawRules[index]? with
    | none => exact ne_matched_of_take block (by decide : "Match".toList.take 2 ≠ ['A', 'd'])
    | some raw =>
      obtain ⟨lib, _, hparse⟩ := core.policy.parsed raw (mem_of_getElem? hraw)
      exact describeRule_ne_matched (Rule.ruleKind_mem_of_parse hparse) rule.target block

/-- Nor does what the loop over the rules ends with. -/
theorem routeRules_rule_ne {s : Progress}
    (h : (core.routeRules hash lookup target network host index rules s).1 = .ok trace) :
    trace.decision.rule ≠ block.matched := by
  induction rules generalizing index s with
  | nil =>
    obtain rfl := Except.ok.inj h
    exact ne_matched_of_take block (by decide : "Fallback".toList.take 2 ≠ ['A', 'd'])
  | cons rule rules ih =>
    rw [routeRules] at h
    split at h
    · exact selectedTrace_rule_ne block h
    · exact ih h

/-- Past the filter no decision carries its text. -/
theorem routeByMode_rule_ne
    (h : (core.routeByMode hash lookup target address network).1 = .ok trace) :
    trace.decision.rule ≠ block.matched := by
  unfold routeByMode at h
  split at h
  · obtain rfl := Except.ok.inj h
    exact ne_matched_of_take block (by decide : "Mode(Direct)".toList.take 2 ≠ ['A', 'd'])
  · cases hleaf : core.leaf "GLOBAL".toList with
    | error e => rw [hleaf] at h; cases h
    | ok node =>
      rw [hleaf] at h
      obtain rfl := Except.ok.inj h
      exact ne_matched_of_take block (by decide : "Mode(Global)".toList.take 2 ≠ ['A', 'd'])
  · exact routeRules_rule_ne block h

/-! ## Spellings -/

/-- The rules see a target through its port and the outcome of its lookup. -/
theorem routeRules_congr
    (hlookup : lookedUpAddress lookup ⟨s, port⟩ = lookedUpAddress lookup ⟨t, port⟩) {p : Progress} :
    (core.routeRules hash lookup ⟨s, port⟩ network host index rules p).1
      = (core.routeRules hash lookup ⟨t, port⟩ network host index rules p).1 := by
  induction rules generalizing index p with
  | nil => rfl
  | cons rule rules ih =>
    have hadvance : advance hash lookup ⟨s, port⟩ network host rule p
        = advance hash lookup ⟨t, port⟩ network host rule p := by
      show (if _ then (⟨lookedUpAddress lookup ⟨s, port⟩, true, true⟩ : Progress) else p) = _
      rw [hlookup]
      rfl
    have hselects : selects hash lookup ⟨s, port⟩ network host rule p
        = selects hash lookup ⟨t, port⟩ network host rule p := by
      unfold selects
      rw [hadvance]
      rfl
    rw [routeRules, routeRules, hselects, hadvance]
    split
    · rfl
    · exact ih

/-- Past the filter, two spellings of a name are routed alike. -/
theorem routeByMode_spelling (hsame : Text.SameSpelling s t) (hs : IpAddr.parse s = none)
    (ht : IpAddr.parse t = none) (hlookup : lookup s port = lookup t port) (address : Option IpAddr)
    (network : Text) :
    (core.routeByMode hash lookup ⟨s, port⟩ address network).1
      = (core.routeByMode hash lookup ⟨t, port⟩ address network).1 := by
  have hlooked : lookedUpAddress lookup ⟨s, port⟩ = lookedUpAddress lookup ⟨t, port⟩ := by
    unfold lookedUpAddress
    rw [hlookup]
  have hips : Target.ip ⟨s, port⟩ = none := hs
  have hipt : Target.ip ⟨t, port⟩ = none := ht
  have hnorm : Text.normalize s = Text.normalize t := hsame
  unfold routeByMode
  rw [hips, hipt, hnorm]
  split
  · rfl
  · rfl
  · exact routeRules_congr hlooked

/-- A name: no spelling of it reads as an address, in brackets or not. -/
def IsName (name : Text) : Prop :=
  ∀ s, Text.SameSpelling s name → IpAddr.parse s = none ∧
    IpAddr.parse (Text.trimEndMatches ']' (Text.trimStartMatches '[' s)) = none

/-- What the DNS path asks the filter about a query for `name`. -/
def dnsRefuses (hash : Text → Hash) (core : RouteCore) (name : Text) : Option Block :=
  core.adblock.bind fun filter => filter.refusesName hash (Text.normalize name)

/-- What the connection path asks it about a spelling of a name. -/
theorem refuses_of_isName (hname : IsName name) (hs : Text.SameSpelling s name)
    (port : UInt16) (network : Text) :
    core.refuses hash ⟨s, port⟩ network = core.adblock.bind fun filter => filter.refusesName hash s
    := by
  unfold RouteCore.refuses Filter.refuses
  rw [(hname s hs).2]

/-- The decision on a refused name. -/
theorem routeDecision_of_refuses {block : Block}
    (h : core.refuses hash target network = some block) :
    core.routeDecision hash lookup target address network
      = .ok ⟨"REJECT".toList, "REJECT".toList, block.matched⟩ := by
  unfold routeDecision traceRoute
  rw [h]
  rfl

/-- The decision on a name that passes the filter. -/
theorem routeDecision_of_passes (h : core.refuses hash target network = none) :
    core.routeDecision hash lookup target address network
      = (core.routeByMode hash lookup target address network).1.map Trace.decision := by
  unfold routeDecision traceRoute
  rw [h]

theorem matched_injective {b b' : Block} (h : b.matched = b'.matched) : b = b' := by
  revert h
  cases b <;> cases b' <;> decide

/-- The decision shows what the filter said. -/
theorem refuses_eq_of_routeDecision_eq {t t' : Target}
    (h : core.routeDecision hash lookup t address network
      = core.routeDecision hash lookup t' address network) :
    core.refuses hash t network = core.refuses hash t' network := by
  -- a refused target and one that passed cannot get the same decision
  have hne : ∀ {t t' : Target} {block : Block}, core.refuses hash t network = some block →
      core.refuses hash t' network = none →
      core.routeDecision hash lookup t address network
        ≠ core.routeDecision hash lookup t' address network := by
    intro t t' block hblock hpass heq
    rw [routeDecision_of_refuses hblock, routeDecision_of_passes hpass] at heq
    cases hmode : (core.routeByMode hash lookup t' address network).1 with
    | error e => rw [hmode] at heq; cases heq
    | ok trace =>
      rw [hmode] at heq
      have hrule := congrArg RouteDecision.rule (Except.ok.inj heq)
      exact routeByMode_rule_ne block hmode hrule.symm
  cases ht : core.refuses hash t network with
  | none =>
    cases ht' : core.refuses hash t' network with
    | none => rfl
    | some block => exact absurd h.symm (hne ht' ht)
  | some block =>
    cases ht' : core.refuses hash t' network with
    | none => exact absurd h (hne ht ht')
    | some block' =>
      rw [routeDecision_of_refuses ht, routeDecision_of_refuses ht'] at h
      rw [matched_injective (congrArg RouteDecision.rule (Except.ok.inj h))]

/-- The decision depends on the spelling exactly as the filter's verdict does. -/
theorem routeDecision_spelling (hname : IsName name)
    (hlookup : ∀ s, Text.SameSpelling s name → lookup s port = lookup name port)
    (hs : Text.SameSpelling s name) (ht : Text.SameSpelling t name) :
    core.routeDecision hash lookup ⟨s, port⟩ address network
        = core.routeDecision hash lookup ⟨t, port⟩ address network ↔
      core.refuses hash ⟨s, port⟩ network = core.refuses hash ⟨t, port⟩ network := by
  refine ⟨refuses_eq_of_routeDecision_eq, fun h => ?_⟩
  cases hblock : core.refuses hash ⟨t, port⟩ network with
  | some block =>
    rw [routeDecision_of_refuses (h.trans hblock), routeDecision_of_refuses hblock]
  | none =>
    rw [routeDecision_of_passes (h.trans hblock), routeDecision_of_passes hblock,
      routeByMode_spelling (hs.trans ht.symm) (hname s hs).1 (hname t ht).1
        ((hlookup s hs).trans (hlookup t ht).symm)]

/-- The strings that are hashed when spellings of `name` are looked up in the lists. -/
def involved (lists : Option FilterLists) (name : Text) : Set Text :=
  {d | (∃ l ∈ lists, d ∈ l.hashed) ∨ ∃ s, Text.SameSpelling s name ∧
    d ∈ Text.trimEndMatches '.' s :: parentDomains (Text.trimEndMatches '.' s)}

theorem noCollision_of_injOn {lists : FilterLists}
    (h : Set.InjOn hash (involved (some lists) name)) (hs : Text.SameSpelling s name) :
    lists.NoCollision hash (Text.trimEndMatches '.' s) := by
  intro label hlabel d hd heq
  exact h (.inl ⟨lists, rfl, hd⟩) (.inr ⟨s, hs, hlabel⟩) heq

/-- **Routing and the spelling of a name**: the decision is the same for all spellings,
and a name the DNS path refuses is refused in every spelling, exactly if the ad-block
lists say the same of every spelling as of the lower-case name. -/
theorem routeDecision_spelling_iff {regex : RegexLib} {lists : Option FilterLists}
    (hcore : core.adblock = lists.map (FilterLists.compile hash regex)) {name : Text}
    (hname : IsName name) (hhash : Set.InjOn hash (involved lists name)) {port : UInt16}
    (hlookup : ∀ s, Text.SameSpelling s name → lookup s port = lookup name port)
    (address : Option IpAddr) (network : Text) :
    ((∀ s t, Text.SameSpelling s name → Text.SameSpelling t name →
        core.routeDecision hash lookup ⟨s, port⟩ address network
          = core.routeDecision hash lookup ⟨t, port⟩ address network) ∧
      ∀ block, core.dnsRefuses hash name = some block → ∀ s, Text.SameSpelling s name →
        core.routeDecision hash lookup ⟨s, port⟩ address network
          = .ok ⟨"REJECT".toList, "REJECT".toList, block.matched⟩) ↔
      ∀ l ∈ lists, ∀ s, Text.SameSpelling s name →
        l.SameListing regex (Text.trimEndMatches '.' s) (Text.normalize name) := by
  have hnorm : Text.SameSpelling (Text.normalize name) name := Text.normalize_normalize name
  -- the filter's verdict on a spelling, against the one on the lower-case name
  have hverdict : ∀ s, Text.SameSpelling s name →
      (core.refuses hash ⟨s, port⟩ network
          = core.refuses hash ⟨Text.normalize name, port⟩ network ↔
        ∀ l ∈ lists, l.SameListing regex (Text.trimEndMatches '.' s) (Text.normalize name)) := by
    intro s hs
    rw [refuses_of_isName hname hs, refuses_of_isName hname hnorm, hcore]
    cases lists with
    | none => simp
    | some l =>
      have hsame := FilterLists.refusesName_eq_iff regex
        (noCollision_of_injOn hhash hs) (noCollision_of_injOn hhash hnorm)
        (hname _ ((Text.normalize_trimEndMatches s).trans hs)).1
        (hname _ ((Text.normalize_trimEndMatches _).trans hnorm)).1
      simpa using hsame
  constructor
  · rintro ⟨hall, -⟩ l hl s hs
    refine (hverdict s hs).mp ?_ l hl
    exact (routeDecision_spelling hname hlookup hs hnorm).mp (hall s _ hs hnorm)
  · intro hlists
    have hsame : ∀ s, Text.SameSpelling s name → core.refuses hash ⟨s, port⟩ network
        = core.refuses hash ⟨Text.normalize name, port⟩ network :=
      fun s hs => (hverdict s hs).mpr fun l hl => hlists l hl s hs
    constructor
    · intro s t hs ht
      exact (routeDecision_spelling hname hlookup hs ht).mpr ((hsame s hs).trans (hsame t ht).symm)
    · intro block hdns s hs
      refine routeDecision_of_refuses ?_
      rw [hsame s hs, refuses_of_isName hname hnorm]
      exact hdns

/-! ### A listed name in capitals -/

/-- A block list with the one entry `x`. -/
def xLists : FilterLists := { block := { suffix := [['x']] } }

/-- A hash that tells the spellings of `x` apart. -/
def xHash (t : Text) : Hash := if t = ['x'] then 1 else if t = ['X'] then 2 else 0

/-- A core in direct mode with this list. -/
def xCore : RouteCore where
  adblock := some (xLists.compile xHash fun _ _ => none)
  policy := { mode := .direct, rules := [], rawRules := [], selection := ∅, parsed := by simp }
  proxyGroups := []
  proxies := []

theorem toLower_eq_x {c : Char} (h : c.toLower = 'x') : c = 'x' ∨ c = 'X' := by
  unfold Char.toLower at h
  split at h
  · next hcap =>
    right
    have hval : (c.val + ('a'.val - 'A'.val)).toNat = 120 := congrArg (fun d => d.val.toNat) h
    have h1 : c.val.toNat ≤ 90 := UInt32.le_iff_toNat_le.mp hcap.2
    have h32 : ('a'.val - 'A'.val).toNat = 32 := by decide
    rw [UInt32.toNat_add] at hval
    refine Char.ext (UInt32.toNat_inj.mp ?_)
    show c.val.toNat = 88
    omega
  · exact .inl h

/-- Without its dots, a spelling of `x` is `x` or `X`. -/
theorem spelling_x (h : Text.SameSpelling s ['x']) :
    Text.trimEndMatches '.' s = ['x'] ∨ Text.trimEndMatches '.' s = ['X'] := by
  have hlower : (Text.trimEndMatches '.' s).map Char.toLower = ['x'] := h.trans (by decide)
  obtain ⟨c, htrim, hc⟩ := map_eq_singleton_iff.mp hlower
  rw [htrim]
  rcases toLower_eq_x hc with rfl | rfl
  · exact .inl rfl
  · exact .inr rfl

theorem isName_x : IsName ['x'] := by
  intro s hs
  -- a spelling is one of the two letters followed by dots
  obtain ⟨c, hc, rest, rfl⟩ : ∃ c, (c = 'x' ∨ c = 'X') ∧ ∃ rest, s = c :: rest := by
    obtain ⟨dots, hdots⟩ := List.rdropWhile_prefix (fun d => d == '.') s
    rcases spelling_x hs with htrim | htrim
    · exact ⟨'x', .inl rfl, dots, by rw [← hdots]; exact congrArg (· ++ dots) htrim⟩
    · exact ⟨'X', .inr rfl, dots, by rw [← hdots]; exact congrArg (· ++ dots) htrim⟩
  have hparse : ∀ tail, IpAddr.parse (c :: tail) = none := by
    rcases hc with rfl | rfl
    · exact IpAddr.parse_eq_none (by decide) (by decide) (by decide)
    · exact IpAddr.parse_eq_none (by decide) (by decide) (by decide)
  have hopen : Text.trimStartMatches '[' (c :: rest) = c :: rest := by
    rcases hc with rfl | rfl <;> rfl
  refine ⟨hparse rest, ?_⟩
  rw [hopen]
  -- trimming brackets at the end leaves the letter
  obtain ⟨tail, htail⟩ := List.rdropWhile_prefix (fun d => d == ']') (c :: rest)
  cases hcut : Text.trimEndMatches ']' (c :: rest) with
  | nil =>
    have hall := rdropWhile_eq_nil_iff.mp hcut c mem_cons_self
    rcases hc with rfl | rfl <;> exact absurd hall (by decide)
  | cons d more =>
    have hhead : d :: more ++ tail = c :: rest := by rw [← hcut]; exact htail
    rw [(List.cons.inj hhead).1]
    exact hparse more

/-- The hash tells apart all the strings that spellings of `x` lead to. -/
theorem xHash_injOn : Set.InjOn xHash (involved (some xLists) ['x']) := by
  have hmem : ∀ d ∈ involved (some xLists) ['x'], d = ['x'] ∨ d = ['X'] := by
    rintro d (⟨l, hl, hd⟩ | ⟨s, hs, hd⟩)
    · obtain rfl := Option.some.inj hl
      exact .inl (mem_singleton.mp hd)
    · rcases spelling_x hs with htrim | htrim
      · rw [htrim] at hd
        exact .inl (mem_singleton.mp hd)
      · rw [htrim] at hd
        exact .inr (mem_singleton.mp hd)
  intro a ha b hb heq
  rcases hmem a ha with rfl | rfl <;> rcases hmem b hb with rfl | rfl
  · rfl
  · exact absurd heq (by decide)
  · exact absurd heq (by decide)
  · rfl

/-- The list refuses `x`, in the DNS path too, and lets `X` pass, though the hash and the
lookup are as good as they can be. -/
theorem routeDecision_capital_x :
    IsName ['x'] ∧ Set.InjOn xHash (involved (some xLists) ['x']) ∧
      Text.SameSpelling ['X'] ['x'] ∧ xCore.dnsRefuses xHash ['x'] = some .list ∧
      xCore.routeDecision xHash (fun _ _ => .ok []) ⟨['x'], 443⟩ none "tcp".toList
        = .ok ⟨"REJECT".toList, "REJECT".toList, "Adblock".toList⟩ ∧
      xCore.routeDecision xHash (fun _ _ => .ok []) ⟨['X'], 443⟩ none "tcp".toList
        = .ok ⟨"DIRECT".toList, "DIRECT".toList, "Mode(Direct)".toList⟩ :=
  ⟨isName_x, xHash_injOn, by decide, by decide +kernel, by decide +kernel, by decide +kernel⟩

/-- The equivalence at this core: its list does not treat the spellings of `x` alike. -/
theorem routeDecision_spelling_x :
    ((∀ s t, Text.SameSpelling s ['x'] → Text.SameSpelling t ['x'] →
        xCore.routeDecision xHash (fun _ _ => .ok []) ⟨s, 443⟩ none "tcp".toList
          = xCore.routeDecision xHash (fun _ _ => .ok []) ⟨t, 443⟩ none "tcp".toList) ∧
      ∀ block, xCore.dnsRefuses xHash ['x'] = some block → ∀ s, Text.SameSpelling s ['x'] →
        xCore.routeDecision xHash (fun _ _ => .ok []) ⟨s, 443⟩ none "tcp".toList
          = .ok ⟨"REJECT".toList, "REJECT".toList, block.matched⟩) ↔
      ∀ l ∈ some xLists, ∀ s, Text.SameSpelling s ['x'] →
        l.SameListing (fun _ _ => none) (Text.trimEndMatches '.' s) (Text.normalize ['x']) :=
  routeDecision_spelling_iff rfl isName_x xHash_injOn (fun _ _ => rfl) none "tcp".toList

end RouteCore

end Clyntis.Core
