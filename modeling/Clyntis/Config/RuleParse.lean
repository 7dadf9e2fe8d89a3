import Clyntis.Config.Matcher
import Clyntis.Lib.Exec

/-!
# Reading rules (`rule.rs`, `compat.rs`)

A rule is written as fields between commas, with conditions nested in parentheses.
Conditions on GEOIP, GEOSITE and RULE-SET data are read as references, which are later
bound to the data.

- `fields`: the fields at the outermost level;
- `Matcher.parseCondition`, `Rule.parse`, `domainPattern`: from text to conditions;
- `Matcher.bind`, `Matcher.references`, `Matcher.networks`: walks over a condition;
- `fieldsLoop_cons`, `parseFields_eq_ok`: what one character of the loop does, and what a
  condition was read from; `Rule.ruleKind_mem_of_parse`: the kinds of rules that are read;
- `parseCondition_reference`: what the condition of a single reference can be read as.

Regular expressions and CIDR notation are the business of libraries (`RuleLib`).
-/

namespace Clyntis.Config

open Lib Net List

/-- Why a rule or a pattern is refused. -/
inductive RuleError where
  | tooLong
  | nestingLimit
  | unbalanced
  | parentheses
  | conditionFields
  | emptyValue
  | notArity
  | regex
  | address
  | familyMismatch
  | portNumber
  | portRange
  | network
  | unsupported (kind : Text)
  | typeAndTarget
  | missingTarget
  | emptyTarget
  | matchTarget
  | emptyPattern
  deriving DecidableEq, Repr

/-- The libraries rules are read with: `RegexBuilder`, `Regex::new` on the anchored form of a
pattern with `*`, and `str::parse::<IpNet>`. -/
structure RuleLib where
  regex : RegexLib
  glob : Text → Option Regex
  parseNet : Text → Option IpNet

/-! ## Fields -/

/-- The loop of `fields`: the depth of parentheses, and the field read so far in reverse. -/
def fieldsLoop : Text → (depth : Nat) → (current : Text) → Except RuleError (List Text)
  | [], depth, current =>
    if depth = 0 then .ok [Text.trim current.reverse] else .error .unbalanced
  | c :: rest, depth, current =>
    if c = '(' then
      if depth + 1 ≤ 32 then fieldsLoop rest (depth + 1) (c :: current) else .error .nestingLimit
    else if c = ')' then
      if 0 < depth then fieldsLoop rest (depth - 1) (c :: current) else .error .unbalanced
    else if c = ',' ∧ depth = 0 then do
      let later ← fieldsLoop rest depth []
      return Text.trim current.reverse :: later
    else fieldsLoop rest depth (c :: current)

/-- `fields`. -/
def fields (raw : Text) : Except RuleError (List Text) :=
  if raw.byteLen ≤ 65536 then fieldsLoop raw 0 [] else .error .tooLong

/-- `unwrap`. -/
def unwrapParens (raw : Text) : Except RuleError Text :=
  match (raw.stripStart ['(']).bind fun v => v.stripSuffix [')'] with
  | some v => .ok v
  | none => .error .parentheses

/-! ## Conditions -/

/-- The connectives. -/
inductive Connective where
  | and
  | or
  | not
  deriving DecidableEq, Repr

/-- The kinds of conditions without parts. -/
inductive LeafKind where
  | domain
  | domainSuffix
  | domainKeyword
  | domainRegex
  | ipCidr
  | ipCidr6
  | geoip
  | geosite
  | ruleSet
  | dstPort
  | network
  | networkName
  deriving DecidableEq, Repr

/-- The first field of a condition. -/
def conditionKinds : List (Text × (Connective ⊕ LeafKind)) :=
  [("AND", .inl .and), ("OR", .inl .or), ("NOT", .inl .not), ("DOMAIN", .inr .domain),
    ("DOMAIN-SUFFIX", .inr .domainSuffix), ("DOMAIN-KEYWORD", .inr .domainKeyword),
    ("DOMAIN-REGEX", .inr .domainRegex), ("IP-CIDR", .inr .ipCidr), ("IP-CIDR6", .inr .ipCidr6),
    ("GEOIP", .inr .geoip), ("GEOSITE", .inr .geosite), ("RULE-SET", .inr .ruleSet),
    ("DST-PORT", .inr .dstPort), ("NETWORK", .inr .network),
    ("NETWORK-NAME", .inr .networkName)].map fun entry => (entry.1.toList, entry.2)

/-- A port of a range. -/
def parsePort (s : Text) : Except RuleError UInt16 :=
  match parseU16 s with
  | some n => .ok n
  | none => .error .portNumber

/-- `PortRange::Range(s).bounds()`. -/
def portBounds (s : Text) : Except RuleError (UInt16 × UInt16) := do
  let (a, b) ← match s.splitOnce '-' with
    | some (a, b) => do
      let a ← parsePort a
      let b ← parsePort b
      pure (a, b)
    | none => do
      let n ← parsePort s
      pure (n, n)
  if 0 < a ∧ a ≤ b then .ok (a, b) else .error .portRange

/-- A library's answer. -/
def orError {α : Type} (e : RuleError) : Option α → Except RuleError α
  | some a => .ok a
  | none => .error e

variable (lib : RuleLib)

/-- IP-CIDR and IP-CIDR6. -/
def parseNetCondition (v4 : Bool) (value : Text) : Except RuleError Matcher := do
  let net ← orError .address (lib.parseNet value)
  if net.isV4 == v4 then .ok (.net net) else .error .familyMismatch

/-- A condition without parts: its kind and its second field. -/
def parseLeaf (kind : LeafKind) (field : Text) : Except RuleError Matcher :=
  let value := field.toAsciiLowercase
  match kind with
  | .domain => .ok (.domain (value.trimEndMatches '.'))
  | .domainSuffix => .ok (.suffix (value.trimMatches '.'))
  | .domainKeyword => .ok (.keyword value)
  | .domainRegex => do
    let r ← orError .regex (compileRegex lib.regex field)
    return .regex r
  | .ipCidr => parseNetCondition lib true value
  | .ipCidr6 => parseNetCondition lib false value
  | .geoip => .ok (.geoIp value)
  | .geosite => .ok (.geoSite value)
  | .ruleSet => .ok (.ruleSet field)
  | .dstPort => do
    let ranges ← (value.splitOn '/').mapM portBounds
    return .ports ranges
  | .network =>
    if value = "tcp".toList ∨ value = "udp".toList then .ok (.network value) else .error .network
  | .networkName => .ok (.onNetwork field false)

/-- The parts of an AND, OR or NOT: in one pair of parentheses, or one field each. There is always
one, so the error for an empty list cannot come. -/
def logicalParts (field : Text) (rest : List Text) : Except RuleError (List Text) :=
  match rest with
  | [] => do
    let inner ← unwrapParens field
    if inner.head? = some '(' then fields inner else return [field]
  | _ => .ok (field :: rest)

/-- The condition over its parts. -/
def Connective.node : Connective → List Matcher → Except RuleError Matcher
  | and, nodes => .ok (.and nodes)
  | or, nodes => .ok (.or nodes)
  | not, [m] => .ok (.not m)
  | not, _ => .error .notArity

/-- The marker at the end of a rule or a condition. -/
def noResolveMarker : Text := "no-resolve".toList

/-- Whether the last field is the marker, and the fields without it. -/
def splitNoResolve (f : List Text) : Bool × List Text :=
  if f.getLast? = some noResolveMarker then (true, f.dropLast) else (false, f)

/-- The condition of these fields, where `parsePart` reads the parts of a connective. -/
def parseFields (parsePart : Text → Except RuleError Matcher) (f : List Text) :
    Except RuleError Matcher :=
  match splitNoResolve f with
  | (marked, kind :: field :: rest) =>
    if ((conditionKinds.lookup kind).all fun k => k.isRight) && !rest.isEmpty then
      .error .conditionFields
    else if field.isEmpty then .error .emptyValue
    else do
      let m ← match conditionKinds.lookup kind with
        | some (.inl connective) => do
          let parts ← logicalParts field rest
          let nodes ← parts.mapM parsePart
          connective.node nodes
        | some (.inr leaf) => parseLeaf lib leaf field
        | none => .error (.unsupported kind)
      return if marked then .noResolve m else m
  | _ => .error .conditionFields

/-- `parse_depth`, with the number of levels that are left. -/
def Matcher.parseDepth (lib : RuleLib) : (levels : Nat) → Text → Except RuleError Matcher
  | 0, _ => .error .nestingLimit
  | levels + 1, raw => do
    let f ← fields raw
    parseFields lib (fun part => do parseDepth lib levels (← unwrapParens part)) f

/-- `parse_condition`. -/
def Matcher.parseCondition (raw : Text) : Except RuleError Matcher :=
  Matcher.parseDepth lib 32 raw

/-- `Rule::parse`. -/
def Rule.parse (raw : Text) : Except RuleError Rule := do
  let all ← fields raw
  let f := (splitNoResolve all).2
  let target := f.getLast?.getD []
  if all.length < 2 then .error .typeAndTarget
  else if f.length < 2 then .error .missingTarget
  else if target.isEmpty then .error .emptyTarget
  else do
    let matcher ←
      if f.head? ≠ some "MATCH".toList then
        Matcher.parseCondition lib (List.intercalate [','] f.dropLast)
      else if f.length = 2 then .ok .all
      else .error .matchTarget
    return ⟨matcher, target, (splitNoResolve all).1⟩

/-- `domain_pattern`. -/
def domainPattern (pattern : Text) : Except RuleError Matcher :=
  let p := pattern.trim.toAsciiLowercase
  if p.isEmpty then .error .emptyPattern
  else
    match p.stripStart ['+', '.'], p.stripStart ['.'] with
    | some s, _ => .ok (.suffix s)
    | none, some s => .ok (.subdomain s)
    | none, none =>
      if p.contains '*' then do
        let r ← orError .regex (lib.glob p)
        return .regex r
      else .ok (.domain p)

/-! ## Domain conditions for a set -/

namespace DomainSetBuilder

variable (b : DomainSetBuilder) (domain : Text)

/-- `normalize`. -/
def normalize : Text := (domain.trim.trimMatches '.').toAsciiLowercase

/-- `exact`. -/
def addExact : DomainSetBuilder := { b with exact := b.exact ++ [normalize domain] }

/-- `suffix`. -/
def addSuffix : DomainSetBuilder :=
  { b with suffix := b.suffix ++ [normalize domain] }

/-- `subdomain`. -/
def addSubdomain : DomainSetBuilder :=
  { b with subdomain := b.subdomain ++ [normalize domain] }

/-- `keyword`. -/
def addKeyword (keyword : Text) : DomainSetBuilder :=
  { b with keywords := b.keywords ++ [keyword.toAsciiLowercase] }

/-- `pattern`. `domain_pattern` returns domain conditions only. -/
def pattern (lib : RuleLib) (pattern : Text) : Except RuleError DomainSetBuilder := do
  match ← domainPattern lib pattern with
  | .domain d => return { b with exact := b.exact ++ [d] }
  | .suffix d => return { b with suffix := b.suffix ++ [d] }
  | .subdomain d => return { b with subdomain := b.subdomain ++ [d] }
  | _ => return { b with globs := b.globs ++ [pattern.trim.toAsciiLowercase] }

/-- `absorb`: takes a domain condition into the set, gives any other back. -/
def absorb : Matcher → DomainSetBuilder × Option Matcher
  | .domain d => (b.addExact d, none)
  | .suffix d => (b.addSuffix d, none)
  | .subdomain d => (b.addSubdomain d, none)
  | .keyword k => (b.addKeyword k, none)
  | .regex r => ({ b with regex := b.regex ++ [r.source] }, none)
  | other => (b, some other)

end DomainSetBuilder

/-! ## Walks over a condition -/

/-- The kinds of data a condition can refer to. -/
inductive DataKind where
  | geoip
  | geosite
  | ruleSet
  deriving DecidableEq, Repr

/-- A reference: the kind of data and its tag. -/
abbrev Reference : Type := DataKind × Text

section Walks

variable {ε : Type}

mutual

/-- `bind`: puts data in the place of references. -/
def Matcher.bind (resolve : Reference → Except ε Matcher) : Matcher → Except ε Matcher
  | .geoIp v => resolve (.geoip, v)
  | .geoSite v => resolve (.geosite, v)
  | .ruleSet v => resolve (.ruleSet, v)
  | .and nodes => do
    let nodes ← bindNodes resolve nodes
    return .and nodes
  | .or nodes => do
    let nodes ← bindNodes resolve nodes
    return .or nodes
  | .not m => do
    let m ← m.bind resolve
    return .not m
  | .noResolve m => do
    let m ← m.bind resolve
    return .noResolve m
  | m => .ok m

/-- `bind` for the members of an AND or an OR. -/
def bindNodes (resolve : Reference → Except ε Matcher) :
    List Matcher → Except ε (List Matcher)
  | [] => .ok []
  | m :: nodes => do
    let m ← m.bind resolve
    let nodes ← bindNodes resolve nodes
    return m :: nodes

end

mutual

/-- `references`. -/
def Matcher.references : Matcher → List Reference
  | .geoIp v => [(.geoip, v)]
  | .geoSite v => [(.geosite, v)]
  | .ruleSet v => [(.ruleSet, v)]
  | .and nodes => referencesNodes nodes
  | .or nodes => referencesNodes nodes
  | .not m => m.references
  | .noResolve m => m.references
  | _ => []

/-- `references` for the members of an AND or an OR. -/
def referencesNodes : List Matcher → List Reference
  | [] => []
  | m :: nodes => m.references ++ referencesNodes nodes

end

mutual

/-- `networks`: the names of the NETWORK-NAME conditions, in the order they are visited. -/
def Matcher.networks : Matcher → List Text
  | .onNetwork name _ => [name]
  | .and nodes => networksNodes nodes
  | .or nodes => networksNodes nodes
  | .not m => m.networks
  | .noResolve m => m.networks
  | _ => []

/-- `networks` for the members of an AND or an OR. -/
def networksNodes : List Matcher → List Text
  | [] => []
  | m :: nodes => m.networks ++ networksNodes nodes

end

mutual

/-- `networks` with a closure that sets the flag of each condition. -/
def Matcher.setNetworks (on : Text → Bool) : Matcher → Matcher
  | .onNetwork name _ => .onNetwork name (on name)
  | .and nodes => .and (setNetworksNodes on nodes)
  | .or nodes => .or (setNetworksNodes on nodes)
  | .not m => .not (m.setNetworks on)
  | .noResolve m => .noResolve (m.setNetworks on)
  | m => m

/-- `networks` with such a closure for the members of an AND or an OR. -/
def setNetworksNodes (on : Text → Bool) : List Matcher → List Matcher
  | [] => []
  | m :: nodes => m.setNetworks on :: setNetworksNodes on nodes

end

end Walks

/-! ## The kind of a rule -/

/-- What stands before the first comma. -/
def ruleKind (raw : Text) : Text := Text.trim (raw.takeWhile (· != ','))

/-- The kinds of rules `Rule::parse` accepts. -/
def ruleKinds : List Text := "MATCH".toList :: conditionKinds.map Prod.fst

variable {lib} {depth : Nat} {raw s current : Text} {l : List Text} {m : Matcher}

/-- It is the same for the trimmed text: a comma is not white space. -/
theorem ruleKind_trim (s : Text) : ruleKind s.trim = ruleKind s := by
  have hspace {c : Char} (hc : isWhiteSpace c = true) : (c != ',') = true := by
    rw [bne_iff_ne]
    rintro rfl
    cases hc
  have hfront (s : Text) : ruleKind (s.dropWhile isWhiteSpace) = ruleKind s := by
    induction s with
    | nil => rfl
    | cons c s ih =>
      by_cases hc : isWhiteSpace c = true
      · simpa [ruleKind, Text.trim, hc, hspace hc] using ih
      · rw [dropWhile_cons_of_neg hc]
  have hback (s : Text) : ruleKind (s.rdropWhile isWhiteSpace) = ruleKind s := by
    induction s using List.reverseRecOn with
    | nil => rfl
    | append_singleton s c ih =>
      by_cases hc : isWhiteSpace c = true
      · rw [rdropWhile_concat_pos _ _ _ hc, ih, ruleKind, ruleKind, takeWhile_append]
        split
        · next hall =>
          rw [takeWhile_cons, if_pos (hspace hc), takeWhile_nil,
            ( takeWhile_prefix _).eq_of_length hall, Text.trim, Text.trim, dropWhile_append]
          split
          · next hnil => simp [isEmpty_iff.mp hnil, hc]
          · rw [rdropWhile_concat_pos _ _ _ hc]
        · rfl
      · rw [rdropWhile_concat_neg _ _ _ hc]
  exact (hback _).trans (hfront s)

theorem ruleKind_comma (s t : Text) : ruleKind (s ++ ',' :: t) = ruleKind s := by
  rw [ruleKind, takeWhile_append]
  split
  · next hall => simp [ruleKind, ( takeWhile_prefix _).eq_of_length hall]
  · rfl

/-- One character of the loop: how many parentheses are open behind it, and whether a field
ends with it. -/
theorem fieldsLoop_cons {c : Char} (h : fieldsLoop (c :: raw) depth current = .ok l) :
    ∃ depth' current' l', fieldsLoop raw depth' current' = .ok l' ∧
      [c].count ')' ≤ depth ∧ depth + [c].count '(' = depth' + [c].count ')' ∧
      (current' = c :: current ∧ l' = l ∨
        c = ',' ∧ current' = [] ∧ l = Text.trim current.reverse :: l') := by
  rw [fieldsLoop] at h
  split at h
  · next hc =>
    split at h
    · exact ⟨_, _, _, h, by simp [hc], by simp [hc], .inl ⟨rfl, rfl⟩⟩
    · cases h
  · next hopen =>
    split at h
    · next hc =>
      split at h
      · next hpos =>
        exact ⟨_, _, _, h, by simp [hc]; omega, by simp [hc]; omega, .inl ⟨rfl, rfl⟩⟩
      · cases h
    · next hclose =>
      have hnone : [c].count '(' = 0 ∧ [c].count ')' = 0 := by
        simp [hopen, hclose]
      split at h
      · next hcomma =>
        obtain ⟨later, hlater, h⟩ := bind_eq_ok h
        exact ⟨_, _, _, hlater, by omega, by omega, .inr ⟨hcomma.1, rfl, (Except.ok.inj h).symm⟩⟩
      · exact ⟨_, _, _, h, by omega, by omega, .inl ⟨rfl, rfl⟩⟩

/-- The first field is the whole text, or it ends with a comma. -/
theorem fieldsLoop_first (h : fieldsLoop raw depth current = .ok l) :
    ∃ field rest, l = Text.trim field :: rest ∧ (current.reverse ++ raw = field ∧ rest = [] ∨
      ∃ later, current.reverse ++ raw = field ++ ',' :: later) := by
  induction raw generalizing depth current l with
  | nil =>
    rw [fieldsLoop] at h
    split at h
    · exact ⟨_, _, (Except.ok.inj h).symm, .inl ⟨append_nil _, rfl⟩⟩
    · cases h
  | cons c raw ih =>
    obtain ⟨_, _, _, hrest, -, -, ⟨rfl, rfl⟩ | ⟨rfl, -, rfl⟩⟩ := fieldsLoop_cons h
    · simpa using ih hrest
    · exact ⟨_, _, rfl, .inr ⟨raw, rfl⟩⟩

theorem fields_kind (h : fields raw = .ok l) :
    ∃ kind rest, l = kind :: rest ∧ ruleKind kind = ruleKind raw := by
  unfold fields at h
  split at h
  · obtain ⟨field, rest, rfl, ⟨rfl, -⟩ | ⟨later, hraw⟩⟩ := fieldsLoop_first h
    · exact ⟨_, _, rfl, ruleKind_trim _⟩
    · refine ⟨_, _, rfl, (ruleKind_trim _).trans ?_⟩
      rw [show raw = field ++ ',' :: later from hraw, ruleKind_comma]
  · cases h

theorem splitNoResolve_kind {kind kind' : Text} {rest : List Text} {marked : Bool}
    (h : splitNoResolve (kind :: l) = (marked, kind' :: rest)) : kind' = kind := by
  unfold splitNoResolve at h
  split at h
  · cases l with
    | nil => cases h
    | cons _ _ => cases h; rfl
  · cases h; rfl

/-- What a condition is read from, without its marker: a connective and its parts, or a kind
without parts and its second field. -/
theorem parseFields_eq_ok {parsePart : Text → Except RuleError Matcher}
    (h : parseFields lib parsePart l = .ok m) :
    ∃ marked kind field rest m', splitNoResolve l = (marked, kind :: field :: rest) ∧
      m = (if marked then .noResolve m' else m') ∧
      ((∃ connective nodes, conditionKinds.lookup kind = some (.inl connective) ∧
          connective.node nodes = .ok m') ∨
        ∃ leaf, conditionKinds.lookup kind = some (.inr leaf) ∧
          parseLeaf lib leaf field = .ok m') := by
  unfold parseFields at h
  split at h
  · next hsplit =>
    split at h
    · cases h
    split at h
    · cases h
    dsimp only at h
    split at h
    · next hlookup =>
      obtain ⟨parts, -, h⟩ := bind_eq_ok h
      obtain ⟨nodes, -, h⟩ := bind_eq_ok h
      obtain ⟨m', hm', h⟩ := bind_eq_ok h
      exact ⟨_, _, _, _, m', hsplit, (Except.ok.inj h).symm, .inl ⟨_, _, hlookup, hm'⟩⟩
    · next hlookup =>
      obtain ⟨m', hm', h⟩ := bind_eq_ok h
      exact ⟨_, _, _, _, m', hsplit, (Except.ok.inj h).symm, .inr ⟨_, hlookup, hm'⟩⟩
    · cases h
  · cases h

theorem ruleKind_mem_of_parseCondition (h : Matcher.parseCondition lib raw = .ok m) :
    ruleKind raw ∈ ruleKinds := by
  obtain ⟨l, hfields, h⟩ := bind_eq_ok h
  obtain ⟨kind, rest, rfl, hkind⟩ := fields_kind hfields
  obtain ⟨_, _, _, _, _, hsplit, -, hm⟩ := parseFields_eq_ok h
  obtain rfl := splitNoResolve_kind hsplit
  have hall : ∀ entry ∈ conditionKinds, ruleKind entry.1 ∈ ruleKinds := by decide
  rw [← hkind]
  rcases hm with ⟨_, _, hlookup, -⟩ | ⟨_, hlookup, -⟩
  all_goals
    obtain ⟨l₁, l₂, hl, -⟩ := lookup_eq_some_iff.mp hlookup
    exact hall (_, _) (hl ▸ mem_append_cons_self)

/-- **A rule that is read has one of the kinds.** -/
theorem Rule.ruleKind_mem_of_parse {rule : Rule} (h : Rule.parse lib raw = .ok rule) :
    ruleKind raw ∈ ruleKinds := by
  obtain ⟨all, hfields, h⟩ := bind_eq_ok h
  obtain ⟨kind, rest, rfl, hkind⟩ := fields_kind hfields
  rw [← hkind]
  dsimp only at h
  rcases hsplit : splitNoResolve (kind :: rest) with ⟨marked, f⟩
  rw [hsplit] at h
  split at h
  · cases h
  split at h
  · cases h
  next hlen =>
  split at h
  · cases h
  match f with
  | [] | [_] => exact absurd (by simp) hlen
  | kind' :: second :: f =>
    obtain rfl := splitNoResolve_kind hsplit
    split at h
    · obtain ⟨m, hm, -⟩ := bind_eq_ok h
      have hcondition := ruleKind_mem_of_parseCondition hm
      rw [dropLast_cons_cons] at hcondition
      cases hdrop : (second :: f).dropLast with
      | nil => rwa [hdrop, intercalate_singleton] at hcondition
      | cons _ _ =>
        rw [hdrop, intercalate_cons_cons, append_assoc] at hcondition
        rwa [← ruleKind_comma]
    · next hmatch =>
      rw [Option.some.inj (not_not.mp hmatch)]
      decide

/-! ## The condition of a single reference -/

/-- A text without parentheses, and without commas where they separate fields. -/
theorem fieldsLoop_plain (h : ∀ c ∈ s, c ≠ '(' ∧ c ≠ ')' ∧ (c = ',' → 0 < depth))
    (rest current : Text) :
    fieldsLoop (s ++ rest) depth current = fieldsLoop rest depth (s.reverse ++ current) := by
  induction s generalizing current with
  | nil => rfl
  | cons c s ih =>
    obtain ⟨⟨hopen, hclose, hcomma⟩, hs⟩ := forall_mem_cons.mp h
    rw [cons_append, fieldsLoop, if_neg hopen, if_neg hclose,
      if_neg fun hc => (hcomma hc.1).ne' hc.2, ih hs, reverse_cons, append_assoc]
    rfl

variable {kind tag field : Text} {leaf : LeafKind}

/-- `KIND,tag` without further commas has two fields. -/
theorem fields_pair (hkind : ∀ c ∈ kind, c ≠ '(' ∧ c ≠ ')' ∧ c ≠ ',')
    (htag : ',' ∉ tag) (h : fields (kind ++ ',' :: tag) = .ok l) :
    l = [kind.trim, tag.trim] := by
  unfold fields at h
  split at h
  · rw [fieldsLoop_plain fun c hc => ⟨(hkind c hc).1, (hkind c hc).2.1, fun he =>
        absurd he (hkind c hc).2.2⟩, fieldsLoop, if_neg (by decide), if_neg (by decide),
      if_pos ⟨rfl, rfl⟩, append_nil, reverse_reverse] at h
    obtain ⟨later, hrest, h⟩ := bind_eq_ok h
    obtain ⟨field, rest, rfl, ⟨rfl, rfl⟩ | ⟨later, hcomma⟩⟩ := fieldsLoop_first hrest
    · exact (Except.ok.inj h).symm
    · refine absurd ?_ htag
      rw [show tag = field ++ ',' :: later from hcomma]
      exact mem_append_cons_self
  · cases h

/-- Two fields of a kind without parts: the marker alone is no tag. -/
theorem parseFields_pair {parsePart : Text → Except RuleError Matcher}
    (hlookup : conditionKinds.lookup kind = some (.inr leaf))
    (h : parseFields lib parsePart [kind, field] = .ok m) : parseLeaf lib leaf field = .ok m := by
  obtain ⟨_, _, _, _, _, hsplit, rfl, hm⟩ := parseFields_eq_ok h
  unfold splitNoResolve at hsplit
  split at hsplit
  · cases hsplit
  · cases hsplit
    rw [hlookup] at hm
    rcases hm with ⟨_, _, hother, -⟩ | ⟨_, hsame, hleaf⟩
    · cases hother
    · cases hsame
      exact hleaf

/-- Read as a condition, it is refused or it is of that kind, on the trimmed tag. -/
theorem parseCondition_pair (hkind : ∀ c ∈ kind, c ≠ '(' ∧ c ≠ ')' ∧ c ≠ ',')
    (hlookup : conditionKinds.lookup kind.trim = some (.inr leaf)) (htag : ',' ∉ tag)
    (h : Matcher.parseCondition lib (kind ++ ',' :: tag) = .ok m) :
    parseLeaf lib leaf tag.trim = .ok m := by
  obtain ⟨l, hfields, h⟩ := bind_eq_ok h
  rw [fields_pair hkind htag hfields] at h
  exact parseFields_pair hlookup h

end Clyntis.Config
