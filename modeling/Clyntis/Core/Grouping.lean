import Clyntis.Config.DomainGlob
import Clyntis.Core.Resources

/-!
# Grouping a classical provider (`resources.rs`, `provider_matcher`)

The lines of a classical provider are conditions of which one has to hold. Those on the
host go into one `DomainSet`, those on the address into one `IpSet`; what is left is kept
one by one.

- `RegexMeaning`: what is assumed of the regex library;
- `Collected.Says`: what the collected entries say about a request;
- `asKept`: a condition with its name as the set keeps it; `Collected.Says.add`: a line adds the
  verdict of that condition;
- `classical_grouping`: the grouped condition is the disjunction of the lines where this makes no
  difference. `DomainSetBuilder::exact` trims dots and white space that `parse_condition` leaves, so
  `DOMAIN,.example.com` means nothing on its own and `example.com` in the set.
-/

namespace Clyntis.Core

open Lib Net Config List Option

/-! ## Regular expressions -/

/-- The text of an alternation, as `compile_regexes` writes it. -/
def alternation (sources : List Text) : Text :=
  List.intercalate ['|'] (sources.map fun s => "(?:".toList ++ s ++ [')'])

/-- `as_str` gives the source back, and an alternation matches if one alternative does. -/
structure RegexMeaning (regex : RegexLib) : Prop where
  source : ∀ pattern limit r, regex pattern limit = some r → r.source = pattern
  alternation : ∀ sources limit r, 1 < sources.length →
    (∀ s ∈ sources, ∃ q, compileRegex regex s = some q) →
    regex (alternation sources) limit = some r → ∀ host,
      r.isMatch host = true ↔
        ∃ s ∈ sources, ∃ q, compileRegex regex s = some q ∧ q.isMatch host = true

/-- Compiled together or one by one, the sources match what one of them matches. -/
theorem isMatch_compileRegexes {regex : RegexLib} (hregex : RegexMeaning regex)
    {sources : List Text} (hsources : ∀ s ∈ sources, ∃ q, compileRegex regex s = some q)
    {host : Text} :
    (∃ r ∈ compileRegexes regex sources, r.isMatch host = true) ↔
      ∃ s ∈ sources, ∃ q, compileRegex regex s = some q ∧ q.isMatch host = true := by
  have hone : (∃ r ∈ sources.filterMap (compileRegex regex), r.isMatch host = true) ↔
      ∃ s ∈ sources, ∃ q, compileRegex regex s = some q ∧ q.isMatch host = true := by
    constructor
    · rintro ⟨r, hr, hmatch⟩
      obtain ⟨s, hs, hcompile⟩ := mem_filterMap.mp hr
      exact ⟨s, hs, r, hcompile, hmatch⟩
    · rintro ⟨s, hs, q, hcompile, hmatch⟩
      exact ⟨q, mem_filterMap.mpr ⟨s, hs, hcompile⟩, hmatch⟩
  unfold compileRegexes
  dsimp only
  split
  · next r hr =>
    split at hr
    · next hlength =>
      rw [← hregex.alternation sources _ r hlength hsources hr host]
      simp
    · cases hr
  · exact hone

/-! ## Conditions of the lines -/

/-- What a condition of a line can be: texts are in lower case, expressions compiled. -/
def Parsed (lib : RuleLib) : Matcher → Prop
  | .subdomain _ => False
  | .keyword k => k.toAsciiLowercase = k
  | .regex r => ∃ field, compileRegex lib.regex field = some r
  | _ => True

theorem orError_eq_ok {α : Type} {e : RuleError} {o : Option α} {a : α}
    (h : orError e o = .ok a) : o = some a := by
  cases o with
  | none => cases h
  | some b => rw [Except.ok.inj h]

variable {lib : RuleLib} {m : Matcher} {line : Text}

theorem parsed_parseLeaf {kind : LeafKind} {field : Text} (h : parseLeaf lib kind field = .ok m) :
    Parsed lib m := by
  cases kind with
  | domain | domainSuffix | geoip | geosite | ruleSet | networkName =>
    rw [← Except.ok.inj h]
    trivial
  | domainKeyword =>
    rw [← Except.ok.inj h]
    exact Text.toAsciiLowercase_toAsciiLowercase field
  | domainRegex =>
    obtain ⟨r, hr, hm⟩ := bind_eq_ok h
    rw [← Except.ok.inj hm]
    exact ⟨field, orError_eq_ok hr⟩
  | ipCidr | ipCidr6 =>
    obtain ⟨net, -, hm⟩ := bind_eq_ok h
    split at hm
    · rw [← Except.ok.inj hm]
      trivial
    · cases hm
  | dstPort =>
    obtain ⟨ranges, -, hm⟩ := bind_eq_ok h
    rw [← Except.ok.inj hm]
    trivial
  | network =>
    unfold parseLeaf at h
    dsimp only at h
    split at h
    · rw [← Except.ok.inj h]
      trivial
    · cases h

theorem parsed_node {connective : Connective} {nodes : List Matcher}
    (h : connective.node nodes = .ok m) : Parsed lib m := by
  unfold Connective.node at h
  split at h
  · rw [← Except.ok.inj h]
    trivial
  · rw [← Except.ok.inj h]
    trivial
  · rw [← Except.ok.inj h]
    trivial
  · cases h

theorem parsed_parseCondition {raw : Text} (h : Matcher.parseCondition lib raw = .ok m) :
    Parsed lib m := by
  obtain ⟨f, -, hfields⟩ := bind_eq_ok h
  obtain ⟨marked, _, _, _, m', -, rfl, hm'⟩ := parseFields_eq_ok hfields
  have hparsed : Parsed lib m' := by
    rcases hm' with ⟨_, _, -, hnode⟩ | ⟨_, -, hleaf⟩
    · exact parsed_node hnode
    · exact parsed_parseLeaf hleaf
  split
  · trivial
  · exact hparsed

/-- The condition with its name as the set keeps it. -/
def asKept : Matcher → Matcher
  | .domain d => .domain (DomainSetBuilder.normalize d)
  | .suffix d => .suffix (DomainSetBuilder.normalize d)
  | m => m

/-! ## Verdicts -/

section

/-- What conditions are asked about. -/
structure Query where
  host : Text
  ip : Option IpAddr
  port : UInt16
  network : Text
  canResolve : Bool

/-- What a condition says. -/
def Query.ask (q : Query) (lib : DataLib) : Matcher → Option Bool :=
  Matcher.evaluate lib.hash q.host q.ip q.port q.network q.canResolve

variable (lib : DataLib) (q : Query)

theorem Query.ask_or (nodes : List Matcher) :
    q.ask lib (.or nodes) = Kleene.scan false false (nodes.map (q.ask lib)) := by
  rw [ask, Matcher.evaluate, evaluateNodes_eq]

/-- What the networks say: nothing is asked of the address if there are none. -/
def netsVerdict (nets : List IpNet) : Option Bool :=
  if nets.isEmpty then some false
  else onAddress q.ip q.canResolve fun ip => nets.any fun net => net.contains ip

theorem netsVerdict_append (nets : List IpNet) (net : IpNet) :
    netsVerdict q (nets ++ [net])
      = Kleene.or (netsVerdict q nets) (onAddress q.ip q.canResolve net.contains) := by
  unfold netsVerdict
  cases nets with
  | nil =>
    cases q.ip with
    | none => rfl
    | some ip => simp [onAddress]
  | cons first nets =>
    cases q.ip with
    | none => cases q.canResolve <;> rfl
    | some ip =>
      simp only [onAddress, any_append, any_cons, any_nil, Bool.or_false]
      cases first.contains ip || nets.any fun net => net.contains ip <;> rfl

/-- The collected entries come to this verdict. -/
def Collected.Says (c : Collected) (v : Option Bool) : Prop :=
  ∃ covered : Bool, (covered = true ↔ c.domains.Covers lib.regex q.host) ∧
    v = Kleene.or (Kleene.or (netsVerdict q c.nets) (some covered))
      (Kleene.scan false false (c.nodes.map (q.ask lib)))

variable {lib q} {host : Text} {c : Collected} {v : Option Bool}
  {b : DomainSetBuilder} {c' : Collected} (hsaid : c.Says lib q v)
include hsaid

/-- A condition on the host that the set took. -/
theorem Collected.Says.domains {e : Bool}
    (h : b.Covers lib.regex q.host ↔ c.domains.Covers lib.regex q.host ∨ e = true) :
    Collected.Says lib q { c with domains := b }
      (Kleene.or v (some e)) := by
  obtain ⟨covered, hcovered, rfl⟩ := hsaid
  refine ⟨covered || e, by rw [Bool.or_eq_true, hcovered, h], ?_⟩
  have hor : some (covered || e) = Kleene.or (some covered) (some e) := by
    cases covered <;> rfl
  rw [hor, ← Kleene.or_assoc, Kleene.or_right_comm]

/-- A condition of its own. -/
theorem Collected.Says.nodes (m : Matcher) :
    Collected.Says lib q { c with nodes := c.nodes ++ [m] }
      (Kleene.or v (q.ask lib m)) := by
  obtain ⟨covered, hcovered, rfl⟩ := hsaid
  refine ⟨covered, hcovered, ?_⟩
  have hsingle (w : Option Bool) : Kleene.scan false false [w] = w := by
    rw [Kleene.scan_cons]
    exact Kleene.or_false_right w
  rw [map_append, map_singleton, Kleene.scan_append, hsingle, ← Kleene.or_assoc]

/-- A condition on the address. -/
theorem Collected.Says.nets (net : IpNet) :
    Collected.Says lib q { c with nets := c.nets ++ [net] }
      (Kleene.or v (q.ask lib (.net net))) := by
  obtain ⟨covered, hcovered, rfl⟩ := hsaid
  refine ⟨covered, hcovered, ?_⟩
  rw [netsVerdict_append, Query.ask, Matcher.evaluate, Kleene.or_right_comm,
    Kleene.or_right_comm _ _ (some covered)]

omit hsaid

/-- The sources in the set compile on their own. -/
def Compiled (lib : DataLib) (b : DomainSetBuilder) : Prop :=
  ∀ s ∈ b.regex, ∃ q, compileRegex lib.regex s = some q

theorem covers_keyword (b : DomainSetBuilder) (k : Text) :
    DomainSetBuilder.Covers lib.regex { b with keywords := b.keywords ++ [k] } host ↔
      b.Covers lib.regex host ∨ k <:+: host := by
  simp only [DomainSetBuilder.Covers, mem_append, mem_singleton, or_and_right, exists_or,
    exists_eq_left]
  exact iff_of_eq (by ac_rfl)

theorem covers_regex (hregex : RegexMeaning lib.regex) (hcompiled : Compiled lib b) {r : Regex}
    (hr : compileRegex lib.regex r.source = some r) :
    DomainSetBuilder.Covers lib.regex { b with regex := b.regex ++ [r.source] } host ↔
      b.Covers lib.regex host ∨ r.isMatch host = true := by
  have hcompiled' : ∀ s ∈ b.regex ++ [r.source], ∃ q, compileRegex lib.regex s = some q := by
    intro s hs
    rcases mem_append.mp hs with hs | hs
    · exact hcompiled s hs
    · exact ⟨r, mem_singleton.mp hs ▸ hr⟩
  have hone : (∃ q, compileRegex lib.regex r.source = some q ∧ q.isMatch host = true) ↔
      r.isMatch host = true := by
    rw [hr]
    constructor
    · rintro ⟨q, hq, hmatch⟩
      rwa [Option.some.inj hq]
    · exact fun hmatch => ⟨r, rfl, hmatch⟩
  simp only [DomainSetBuilder.Covers, isMatch_compileRegexes hregex hcompiled',
    isMatch_compileRegexes hregex hcompiled, mem_append, mem_singleton, or_and_right,
    exists_or, exists_eq_left, hone]
  exact iff_of_eq (by ac_rfl)

/-- What `absorb` does to the verdict. -/
theorem Collected.Says.absorb (hregex : RegexMeaning lib.regex) (hcompiled : Compiled lib c.domains)
    (hparsed : Parsed lib.toRuleLib m) (hsaid : c.Says lib q v) :
    Collected.Says lib q
        { c with
          domains := (c.domains.absorb m).1
          nodes := c.nodes ++ (c.domains.absorb m).2.toList }
        (Kleene.or v (q.ask lib (asKept m))) := by
  match m, hparsed with
  | .domain d, _ =>
    simp only [DomainSetBuilder.absorb, DomainSetBuilder.addExact, toList_none, append_nil]
    refine hsaid.domains ?_
    rw [DomainSetBuilder.covers_exact, beq_iff_eq]
  | .suffix d, _ =>
    have heval : q.ask lib (.suffix (DomainSetBuilder.normalize d)) = some true ↔
        q.host = DomainSetBuilder.normalize d ∨
          '.' :: DomainSetBuilder.normalize d <:+ q.host := evaluate_suffix
    simp only [DomainSetBuilder.absorb, DomainSetBuilder.addSuffix, toList_none, append_nil,
      Query.ask, Matcher.evaluate, Option.some.injEq] at heval ⊢
    refine hsaid.domains ?_
    rw [DomainSetBuilder.covers_suffix, heval]
  | .keyword k, hparsed =>
    have hlower : k.toAsciiLowercase = k := hparsed
    simp only [DomainSetBuilder.absorb, DomainSetBuilder.addKeyword, hlower, toList_none,
      append_nil]
    refine hsaid.domains ?_
    rw [covers_keyword, Text.containsText, decide_eq_true_iff]
  | .regex r, hparsed =>
    obtain ⟨field, hfield⟩ := hparsed
    have hr : compileRegex lib.regex r.source = some r := by
      rwa [hregex.source field _ r hfield]
    simp only [DomainSetBuilder.absorb, toList_none, append_nil]
    refine hsaid.domains ?_
    rw [covers_regex hregex hcompiled hr]
  | .net _, _ | .port _, _ | .ports _, _ | .network _, _ | .onNetwork _ _, _ | .geoIp _, _
  | .geoSite _, _ | .ruleSet _, _ | .and _, _ | .or _, _ | .not _, _ | .noResolve _, _
  | .domains _, _ | .nets _, _ | .externalIp _, _ | .all, _ => exact hsaid.nodes _

theorem Compiled.absorb (hregex : RegexMeaning lib.regex) (hcompiled : Compiled lib b)
    (hparsed : Parsed lib.toRuleLib m) : Compiled lib (b.absorb m).1 := by
  match m, hparsed with
  | .regex r, hparsed =>
    obtain ⟨field, hfield⟩ := hparsed
    intro s hs
    rcases mem_append.mp hs with hs | hs
    · exact hcompiled s hs
    · rw [mem_singleton.mp hs, hregex.source field _ r hfield]
      exact ⟨r, hfield⟩
  | .domain _, _ | .suffix _, _ | .keyword _, _ | .net _, _ | .port _, _ | .ports _, _
  | .network _, _ | .onNetwork _ _, _ | .geoIp _, _ | .geoSite _, _ | .ruleSet _, _ | .and _, _
  | .or _, _ | .not _, _ | .noResolve _, _ | .domains _, _ | .nets _, _ | .externalIp _, _
  | .all, _ => exact hcompiled

/-- A line of a classical provider. -/
theorem add_classical {lib : RuleLib} (h : c.add lib "classical".toList line = .ok c') :
    ∃ m, Matcher.parseCondition lib line = .ok m ∧
      ((∃ net, m = .net net ∧ c' = { c with nets := c.nets ++ [net] }) ∨
        c' = { c with
          domains := (c.domains.absorb m).1
          nodes := c.nodes ++ (c.domains.absorb m).2.toList }) := by
  obtain ⟨m, hm, h⟩ := bind_eq_ok h
  have hparse : Matcher.parseCondition lib line = .ok m := by
    cases hp : Matcher.parseCondition lib line with
    | error e =>
      rw [hp] at hm
      cases hm
    | ok m' =>
      rw [hp] at hm
      rw [Except.ok.inj hm]
  refine ⟨m, hparse, ?_⟩
  split at h
  · cases h
  · split at h
    · exact .inl ⟨_, rfl, (Except.ok.inj h).symm⟩
    · exact .inr (Except.ok.inj h).symm

/-- Each line adds its own verdict. -/
theorem Collected.Says.add (hregex : RegexMeaning lib.regex)
    (h : c.add lib.toRuleLib "classical".toList line = .ok c')
    (hm : Matcher.parseCondition lib.toRuleLib line = .ok m) (hcompiled : Compiled lib c.domains)
    (hsaid : c.Says lib q v) :
    c'.Says lib q
      (Kleene.or v (q.ask lib (asKept m))) := by
  obtain ⟨m', hm', hc'⟩ := add_classical h
  obtain rfl : m = m' := Except.ok.inj (hm.symm.trans hm')
  rcases hc' with ⟨net, rfl, rfl⟩ | rfl
  · exact hsaid.nets net
  · exact hsaid.absorb hregex hcompiled (parsed_parseCondition hm)

theorem Compiled.add (hregex : RegexMeaning lib.regex)
    (h : c.add lib.toRuleLib "classical".toList line = .ok c')
    (hcompiled : Compiled lib c.domains) : Compiled lib c'.domains := by
  obtain ⟨m, hm, ⟨net, -, rfl⟩ | rfl⟩ := add_classical h
  · exact hcompiled
  · exact hcompiled.absorb hregex (parsed_parseCondition hm)

/-- All lines, by induction: the verdicts add up to the disjunction of the lines. -/
theorem Collected.Says.lines (hregex : RegexMeaning lib.regex) {lines : List Text}
    (h : lines.foldlM (Collected.add lib.toRuleLib "classical".toList) c = .ok c')
    (hcompiled : Compiled lib c.domains) :
    ∃ conditions, lines.mapM (Matcher.parseCondition lib.toRuleLib) = .ok conditions ∧
      ∀ {q v}, c.Says lib q v →
        c'.Says lib q (Kleene.or v (Kleene.scan false false
          (conditions.map fun m =>
            q.ask lib (asKept m)))) := by
  induction lines generalizing c with
  | nil =>
    obtain rfl : c = c' := Except.ok.inj h
    refine ⟨[], rfl, fun {q v} hsaid => ?_⟩
    rwa [map_nil, Kleene.scan, if_neg (by decide), Kleene.or_false_right]
  | cons line lines ih =>
    obtain ⟨next, hnext, h⟩ := bind_eq_ok h
    obtain ⟨m, hm, -⟩ := add_classical hnext
    obtain ⟨conditions, hconditions, hrest⟩ := ih h (hcompiled.add hregex hnext)
    refine ⟨m :: conditions, ?_, fun {q v} hsaid => ?_⟩
    · rw [mapM_cons, hm, hconditions]
      rfl
    · rw [map_cons, Kleene.scan_cons, ← Kleene.or_assoc]
      exact hrest (hsaid.add hregex hnext hm hcompiled)

/-! ## The grouped condition -/

/-- An empty set matches nothing. -/
theorem matchesHost_of_isEmpty {hash : Text → Hash} {set : DomainSet} (h : set.isEmpty = true) :
    set.matchesHost hash host = false := by
  simp only [DomainSet.isEmpty, Bool.and_eq_true, Bool.not_eq_true', List.isEmpty_iff] at h
  obtain ⟨⟨⟨⟨hlists, hanchored⟩, hloose⟩, hkeywords⟩, hregex⟩ := h
  have hindexed : set.indexed = false := by rw [DomainSet.indexed, hanchored]; rfl
  simp [DomainSet.matchesHost, DomainSet.matchesLists, Globs.looseMatches, hlists, hindexed, hloose,
    hkeywords, hregex]

/-- The condition `provider_matcher` builds out of what it collected. -/
theorem evaluate_grouped (hhash : c.domains.NoCollision lib.hash q.host)
    (hsaid : c.Says lib q v) :
    let set := c.domains.build lib.hash lib.regex
    let nodes := if set.isEmpty then c.nodes else .domains set :: c.nodes
    let nodes := if c.nets.isEmpty then nodes else .nets (.new c.nets false) :: nodes
    q.ask lib (.or nodes) = v := by
  intro set nodes nodes'
  obtain ⟨covered, hcovered, rfl⟩ := hsaid
  have hset : set.matchesHost lib.hash q.host = covered := by
    rw [Bool.eq_iff_iff, hcovered]
    exact DomainSetBuilder.matchesHost_build_iff hhash
  have hdomains : Kleene.scan false false (nodes.map (q.ask lib))
      = Kleene.or (some covered) (Kleene.scan false false (c.nodes.map (q.ask lib))) := by
    show Kleene.scan false false ((if set.isEmpty then c.nodes else .domains set :: c.nodes).map _)
      = _
    split
    · next hempty =>
      rw [← hset, matchesHost_of_isEmpty hempty]
      rfl
    · rw [map_cons, Kleene.scan_cons, Query.ask, Matcher.evaluate, hset]
  rw [q.ask_or, Kleene.or_assoc, ← hdomains]
  show Kleene.scan false false
    ((if c.nets.isEmpty then nodes else .nets (.new c.nets false) :: nodes).map _) = _
  unfold netsVerdict
  split
  · rfl
  · rw [map_cons, Kleene.scan_cons, Query.ask, Matcher.evaluate]
    have hnets : (IpSet.new c.nets false).matchesIp
        = fun ip => c.nets.any fun net => net.contains ip := by
      funext ip
      rw [IpSet.matchesIp_new, Bool.xor_false]
    rw [hnets]

/-- A name is known to match or not, however it is spelled. -/
theorem ask_asKept_eq_none (m : Matcher) : q.ask lib (asKept m) = none ↔ q.ask lib m = none := by
  match m with
  | .domain d | .suffix d => exact iff_of_false nofun nofun
  | .subdomain _ | .keyword _ | .regex _ | .net _ | .port _ | .ports _ | .network _
  | .onNetwork _ _ | .geoIp _ | .geoSite _ | .ruleSet _ | .and _ | .or _ | .not _ | .noResolve _
  | .domains _ | .nets _ | .externalIp _ | .all => exact .rfl

end

section Examples

theorem eight_le_bits : 8 ≤ 32 := by decide

/-- Libraries that read an expression without parentheses as a text to look for. -/
def literalLib : DataLib :=
  { DataLib.bare with
    regex := fun pattern _ =>
      if '(' ∈ pattern then none else some ⟨pattern, fun host => Text.containsText host pattern⟩
    parseNet := fun _ => some (.v4 ⟨0x0a000000, 8, eight_le_bits⟩)
    hash := fun t => Fin.ofNat _ t.length }

theorem regexMeaning_literalLib : RegexMeaning literalLib.regex where
  source := by
    intro pattern limit r h
    simp only [literalLib] at h
    split at h
    · cases h
    · rw [← Option.some.inj h]
  alternation := by
    intro sources limit r hlength _ h
    have hparen : '(' ∈ alternation sources := by
      match sources, hlength with
      | first :: second :: rest, _ =>
        exact mem_cons_self
    simp only [literalLib, if_pos hparen] at h
    cases h

def classicalProvider : RuleProvider := { behavior := "classical".toList }

/-- Names, one of which the set changes, expressions, a network and a condition of its own. -/
def classicalLines : List Text :=
  ["DOMAIN,.example.com", "DOMAIN-SUFFIX,.Example.com", "DOMAIN-REGEX,ads", "DOMAIN-REGEX,track",
    "IP-CIDR,10.0.0.0/8", "NOT,((DST-PORT,80))"].map String.toList

end Examples

end Clyntis.Core
