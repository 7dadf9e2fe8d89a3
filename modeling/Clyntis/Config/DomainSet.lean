import Clyntis.Lib.Sorted
import Clyntis.Lib.Text
import Mathlib.Data.Char
import Mathlib.Data.List.Lex
import Mathlib.Data.Prod.Lex

/-!
# Domain sets (`rule.rs`, `DomainSet` and `DomainSetBuilder`)

Large lists of domains are kept as sorted hashes. A lookup hashes the host and
each of its parent domains once and searches every list for the hash.

- `labelMatches`, `globMatches`: patterns with `*`, label by label;
- `DomainList`, `Globs`, `DomainSet.matchesHost`: the compiled set;
- `DomainSetBuilder`: what was put in, and `Covers`, what that means for a host;
- `matchesHost_build_iff`: unless two different names share a hash, the compiled
  set matches exactly the hosts its entries cover.

`domain_hash` is a parameter (`hash`): a keyed hash with a random key. The regex
library is one too (`RegexLib`).
-/

namespace Clyntis.Config

open Lib List

/-- A `u64` from `domain_hash`. -/
abbrev Hash : Type := Fin (2 ^ 64)

instance Hash.neZero : NeZero (2 ^ 64) := ⟨by decide⟩

/-- A compiled regular expression. -/
structure Regex where
  source : Text
  isMatch : Text → Bool

/-- `RegexBuilder::new(pattern).case_insensitive(true).size_limit(limit).build()`. -/
abbrev RegexLib : Type := (pattern : Text) → (limit : Nat) → Option Regex

variable (regex : RegexLib)

/-- `compile_regex`. -/
def compileRegex (pattern : Text) : Option Regex :=
  regex pattern (2 * 1024 * 1024)

/-- `compile_regexes`: one alternation if it can be built, else one by one. -/
def compileRegexes (sources : List Text) : List Regex :=
  let combined := List.intercalate ['|'] (sources.map fun s => "(?:".toList ++ s ++ [')'])
  match if 1 < sources.length then regex combined (8 * 1024 * 1024) else none with
  | some r => [r]
  | none => sources.filterMap (compileRegex regex)

/-! ## Patterns -/

/-- `u8::eq_ignore_ascii_case`. -/
def eqIgnoreAsciiCase (a b : UInt8) : Bool :=
  let lower (c : UInt8) : UInt8 := if 65 ≤ c ∧ c ≤ 90 then c + 32 else c
  lower a == lower b

/-- The `while` loop of `label_matches`: positions in the pattern and the label, and
where the last `*` was passed. `none`: the fuel is used up. -/
def labelLoop (pattern label : Bytes) : (fuel p l : Nat) → (star : Option (Nat × Nat)) → Option Bool
  | 0, _, _, _ => none
  | fuel + 1, p, l, star =>
    match label[l]? with
    | none => some ((pattern.drop p).all (· == 42))
    | some c =>
      if pattern[p]? = some 42 then labelLoop pattern label fuel (p + 1) l (some (p, l))
      else if (pattern[p]?).any (eqIgnoreAsciiCase · c) then
        labelLoop pattern label fuel (p + 1) (l + 1) star
      else
        match star with
        | some (sp, sl) => labelLoop pattern label fuel (sp + 1) (sl + 1) (some (sp, sl + 1))
        | none => some false

/-- The number of rounds the loop may still take: one for every place left in the
pattern, all of them again for every place left after the last `*`. -/
def labelRounds (pattern label : Bytes) (p : Nat) (star : Option (Nat × Nat)) : Nat :=
  (label.length - (star.elim 0 Prod.snd)) * (pattern.length + 1) + (pattern.length - p)

/-- `label_matches`: `*` stands for any run of bytes. -/
def labelMatches (pattern label : Bytes) : Bool :=
  (labelLoop pattern label (labelRounds pattern label 0 none + 1) 0 0 none).getD false

/-- The loop ends within its rounds: a step forward uses up a place of the pattern,
and going back to the last `*` moves it one place on in the label. -/
theorem labelLoop_isSome {pattern label : Bytes} {fuel p l : Nat}
    {star : Option (Nat × Nat)} (hstar : ∀ sp sl, star = some (sp, sl) → sl ≤ l)
    (hfuel : labelRounds pattern label p star < fuel) :
    (labelLoop pattern label fuel p l star).isSome := by
  induction fuel generalizing p l star with
  | zero => omega
  | succ fuel ih =>
    rw [labelLoop.eq_def]
    dsimp only
    cases hl : label[l]? with
    | none => rfl
    | some c =>
      have hlt := (List.getElem?_eq_some_iff.mp hl).1
      have hle : star.elim 0 Prod.snd ≤ l := by
        cases star with
        | none => exact Nat.zero_le _
        | some s => exact hstar s.1 s.2 rfl
      dsimp only
      split
      · next hp =>
        have hplt := (List.getElem?_eq_some_iff.mp hp).1
        refine ih (fun sp sl h => ?_) ?_
        · obtain ⟨-, rfl⟩ := Prod.mk.inj (Option.some.inj h)
          exact le_rfl
        · have hmul := Nat.mul_le_mul_right (pattern.length + 1)
            (Nat.sub_le_sub_left hle label.length)
          simp only [labelRounds] at hfuel ⊢
          show (label.length - l) * (pattern.length + 1) + _ < fuel
          omega
      · split
        · next hp =>
          obtain ⟨d, hd, -⟩ := (Option.any_eq_true _ _).mp hp
          have hplt := (List.getElem?_eq_some_iff.mp hd).1
          refine ih (fun sp sl h => Nat.le_succ_of_le (hstar sp sl h)) ?_
          simp only [labelRounds] at hfuel ⊢
          omega
        · match star, hstar, hle, hfuel with
          | none, _, _, _ => rfl
          | some (sp, sl), hstar, hle, hfuel =>
            refine ih (fun sp' sl' h => ?_) ?_
            · obtain ⟨-, rfl⟩ := Prod.mk.inj (Option.some.inj h)
              exact le_rfl
            · have hone : label.length - sl = (label.length - (sl + 1)) + 1 := by
                have hsl : sl ≤ l := hle
                omega
              simp only [labelRounds, Option.elim, hone, Nat.add_mul] at hfuel ⊢
              omega

/-- So `label_matches` is what its loop comes to, never the default. -/
theorem labelLoop_eq_some (pattern label : Bytes) :
    labelLoop pattern label (labelRounds pattern label 0 none + 1) 0 0 none
      = some (labelMatches pattern label) := by
  have hends : (labelLoop pattern label (labelRounds pattern label 0 none + 1) 0 0 none).isSome :=
    labelLoop_isSome nofun (Nat.lt_succ_self _)
  obtain ⟨v, hv⟩ := Option.isSome_iff_exists.mp hends
  rw [labelMatches, hv]
  rfl

/-- The loop over the labels of pattern and host. -/
def globLabels : (parts labels : List Text) → Bool
  | [], labels => labels.isEmpty
  | _ :: _, [] => false
  | part :: parts, label :: labels =>
    if labelMatches part.bytes label.bytes then globLabels parts labels else false

/-- `glob_matches`. -/
def globMatches (pattern host : Text) : Bool := globLabels (pattern.splitOn '.') (host.splitOn '.')

/-- A pattern only matches a host with as many labels. -/
theorem globLabels_length {parts labels : List Text} (h : globLabels parts labels = true) :
    parts.length = labels.length := by
  fun_induction globLabels parts labels with
  | case1 labels => exact (length_eq_zero_iff.mpr (isEmpty_iff.mp h)).symm
  | case2 => cases h
  | case3 part parts label labels _ ih => exact congrArg (· + 1) (ih h)
  | case4 => cases h

/-- `fixed_suffix`: the labels after the last one that holds a `*`. -/
def fixedSuffix (pattern : Text) : Option Text :=
  if '*' ∈ pattern then
    (Text.splitOnce (pattern.rtakeWhile (· != '*')) '.').map Prod.snd
  else none

/-! ## The compiled set -/

/-- `DomainList`: sorted hashes without duplicates. -/
structure DomainList where
  hashes : List Hash
  sorted : hashes.Pairwise (· < ·)

namespace DomainList

/-- `ListBuilder::build` of the hashed domains. -/
def build (hash : Text → Hash) (domains : List Text) : DomainList :=
  ⟨sortDedup (fun a b => decide (a ≤ b)) (domains.map hash), pairwise_sortDedup _⟩

/-- `contains`: the binary search finds what a sorted list holds. -/
def contains (list : DomainList) (h : Hash) : Bool := list.hashes.contains h

/-- `is_empty`. -/
def isEmpty (list : DomainList) : Bool := list.hashes.isEmpty

theorem contains_build {hash : Text → Hash} {domains : List Text} {h : Hash} :
    (build hash domains).contains h = true ↔ ∃ d ∈ domains, hash d = h := by
  rw [contains, contains_iff_mem]
  show h ∈ sortDedup _ (domains.map hash) ↔ _
  rw [mem_sortDedup, mem_map]

theorem isEmpty_build {hash : Text → Hash} {domains : List Text} :
    (build hash domains).isEmpty = true ↔ domains = [] := by
  rw [isEmpty, List.isEmpty_iff, List.eq_nil_iff_forall_not_mem]
  show (∀ h, h ∉ sortDedup _ (domains.map hash)) ↔ _
  simp only [mem_sortDedup, ← List.eq_nil_iff_forall_not_mem, List.map_eq_nil_iff]

end DomainList

/-- An anchored pattern: the hash of its fixed suffix, its number of labels and its
text, in this order also for sorting. -/
abbrev Anchored : Type := Hash ×ₗ Nat ×ₗ Text

namespace Anchored

/-- The entry of a pattern with this fixed suffix. -/
def of (hash : Text → Hash) (suffix pattern : Text) : Anchored :=
  toLex (hash suffix, toLex ((pattern.splitOn '.').length, pattern))

/-- The hash of the fixed suffix. -/
def hash (a : Anchored) : Hash := (ofLex a).1

/-- The number of labels. -/
def count (a : Anchored) : Nat := (ofLex (ofLex a).2).1

/-- The pattern itself. -/
def pattern (a : Anchored) : Text := (ofLex (ofLex a).2).2

theorem hash_mono {a b : Anchored} (h : a < b) : a.hash ≤ b.hash :=
  Prod.Lex.monotone_fst a b h.le

end Anchored

/-- `Globs`. -/
structure Globs where
  anchored : List Anchored
  loose : List Text
  sorted : anchored.Pairwise (· < ·)

namespace Globs

/-- The anchored patterns among `patterns`. -/
def anchoredOf (hash : Text → Hash) (patterns : List Text) : List Anchored :=
  patterns.filterMap fun p => (fixedSuffix p).map fun suffix => Anchored.of hash suffix p

/-- `Globs::new`. -/
def new (hash : Text → Hash) (patterns : List Text) : Globs where
  anchored := sortDedup (fun a b => decide (a ≤ b)) (anchoredOf hash patterns)
  loose := sortDedup (fun a b => decide (a ≤ b)) (patterns.filter fun p => (fixedSuffix p).isNone)
  sorted := pairwise_sortDedup _

/-- `anchored_at`. -/
def anchoredAt (globs : Globs) (suffix : Hash) (labels : Nat) (host : Text) : Bool :=
  (equalRange Anchored.hash suffix globs.anchored).any fun a =>
    a.count == labels && globMatches a.pattern host

/-- `loose_matches`. -/
def looseMatches (globs : Globs) (host : Text) : Bool :=
  globs.loose.any fun pattern => globMatches pattern host

variable {patterns : List Text}

theorem mem_anchored_new {hash : Text → Hash} {a : Anchored} :
    a ∈ (new hash patterns).anchored ↔
      ∃ p ∈ patterns, ∃ suffix, fixedSuffix p = some suffix ∧ Anchored.of hash suffix p = a := by
  simp only [new, mem_sortDedup, anchoredOf, mem_filterMap, Option.map_eq_some_iff]

/-- The index only narrows the candidates: each is still matched in full. -/
theorem anchoredAt_new {hash : Text → Hash} {h : Hash} {host : Text} :
    (new hash patterns).anchoredAt h (host.splitOn '.').length host = true ↔
      ∃ p ∈ patterns, ∃ suffix, fixedSuffix p = some suffix ∧ hash suffix = h ∧
        globMatches p host = true := by
  have hmono := (new hash patterns).sorted.imp Anchored.hash_mono
  rw [anchoredAt, any_eq_true]
  simp only [mem_equalRange hmono, mem_anchored_new, Bool.and_eq_true, beq_iff_eq]
  constructor
  · rintro ⟨a, ⟨⟨p, hp, suffix, hsuffix, rfl⟩, hh⟩, -, hglob⟩
    exact ⟨p, hp, suffix, hsuffix, hh, hglob⟩
  · rintro ⟨p, hp, suffix, hsuffix, hh, hglob⟩
    exact ⟨.of hash suffix p, ⟨⟨p, hp, suffix, hsuffix, rfl⟩, hh⟩, globLabels_length hglob, hglob⟩

theorem looseMatches_new {hash : Text → Hash} {host : Text} :
    (new hash patterns).looseMatches host = true ↔
      ∃ p ∈ patterns, fixedSuffix p = none ∧ globMatches p host = true := by
  rw [looseMatches, any_eq_true]
  simp only [new, mem_sortDedup, mem_filter, Option.isNone_iff_eq_none, and_assoc]

end Globs

/-- `DomainSet`. -/
structure DomainSet where
  exact : DomainList
  suffix : DomainList
  subdomain : DomainList
  globs : Globs
  keywords : List Text
  regex : List Regex

/-- What follows each dot of a name. -/
def parentDomains : Text → List Text
  | [] => []
  | c :: rest => if c = '.' then rest :: parentDomains rest else parentDomains rest

theorem mem_parentDomains {host domain : Text} :
    domain ∈ parentDomains host ↔ '.' :: domain <:+ host := by
  induction host with
  | nil => simp [parentDomains]
  | cons c rest ih =>
    rw [parentDomains, suffix_cons_iff]
    split
    · next hc =>
      rw [hc, mem_cons, ih]
      simp
    · next hc =>
      rw [ih]
      constructor
      · exact .inr
      · rintro (heq | h)
        · exact absurd (List.cons.inj heq).1.symm hc
        · exact h

namespace DomainSet

variable (hash : Text → Hash) (set : DomainSet)

/-- `lists`: whether any hash is listed. -/
def lists : Bool :=
  !(set.exact.isEmpty && set.suffix.isEmpty && set.subdomain.isEmpty)

/-- `globs`: whether any pattern is indexed. -/
def indexed : Bool := !set.globs.anchored.isEmpty

/-- `is_empty`. -/
def isEmpty (set : DomainSet) : Bool :=
  !set.lists && set.globs.anchored.isEmpty && set.globs.loose.isEmpty && set.keywords.isEmpty &&
    set.regex.isEmpty

/-- One round of the loop in `matches`: `label` is the host (`first`) or what is left
of it after a dot. -/
def matchesLabel (labels : Nat) (host : Text) (first : Bool)
    (label : Text) : Bool :=
  let h := hash label
  (set.lists && ((first && set.exact.contains h) || set.suffix.contains h ||
      (!first && set.subdomain.contains h))) ||
    (set.indexed && !first && set.globs.anchoredAt h labels host)

/-- The part of `matches` that hashes: the loop visits the host and then its parent
domains, as `split_once` cuts them off. -/
def matchesLists (host : Text) : Bool :=
  if set.lists || set.indexed then
    let labels := if set.indexed then (host.splitOn '.').length else 0
    set.matchesLabel hash labels host true host ||
      (parentDomains host).any (set.matchesLabel hash labels host false)
  else false

/-- `matches`. -/
def matchesHost (host : Text) : Bool :=
  set.matchesLists hash host ||
    set.globs.looseMatches host ||
    set.keywords.any (fun k => Text.containsText host k) ||
    set.regex.any (fun r => r.isMatch host)

end DomainSet

/-! ## What a set stands for -/

/-- `DomainSetBuilder`. The source hashes the domains of the first three lists as they
come in; here they are hashed by `build`, with the same key. -/
structure DomainSetBuilder where
  exact : List Text := []
  suffix : List Text := []
  subdomain : List Text := []
  globs : List Text := []
  keywords : List Text := []
  regex : List Text := []

namespace DomainSetBuilder

/-- `build`. -/
def build (hash : Text → Hash) (regex : RegexLib) (b : DomainSetBuilder) : DomainSet where
  exact := .build hash b.exact
  suffix := .build hash b.suffix
  subdomain := .build hash b.subdomain
  globs := .new hash b.globs
  keywords := b.keywords
  regex := compileRegexes regex b.regex

/-- The names that were hashed for the set. -/
def hashed (b : DomainSetBuilder) : List Text :=
  b.exact ++ b.suffix ++ b.subdomain ++ b.globs.filterMap fixedSuffix

/-- What the entries say about a host: a listed name, a name under a listed one, a
pattern whose fixed suffix the host has, a keyword or a regular expression. -/
def Covers (b : DomainSetBuilder) (host : Text) : Prop :=
  host ∈ b.exact ∨
  (∃ d ∈ b.suffix, host = d ∨ '.' :: d <:+ host) ∨
  (∃ d ∈ b.subdomain, '.' :: d <:+ host) ∨
  (∃ p ∈ b.globs, globMatches p host = true ∧
    ∀ suffix, fixedSuffix p = some suffix → '.' :: suffix <:+ host) ∨
  (∃ k ∈ b.keywords, k <:+: host) ∨
  ∃ r ∈ compileRegexes regex b.regex, r.isMatch host = true

section Exact

variable {hash : Text → Hash} {regex : RegexLib} {b : DomainSetBuilder} {host label : Text}

/-- No parent domain of the host, nor the host, shares its hash with another name that
was put in. -/
def NoCollision (hash : Text → Hash) (b : DomainSetBuilder) (host : Text) : Prop :=
  ∀ label ∈ host :: parentDomains host, ∀ d ∈ b.hashed, hash d = hash label → d = label

/-- Without collisions a list holds the hash of a label exactly if the label is listed. -/
theorem contains_iff_mem (h : NoCollision hash b host)
    (hlabel : label ∈ host :: parentDomains host) {l : List Text} (hl : ∀ d ∈ l, d ∈ b.hashed) :
    (DomainList.build hash l).contains (hash label) = true ↔ label ∈ l := by
  rw [DomainList.contains_build]
  constructor
  · rintro ⟨d, hd, heq⟩
    exact h label hlabel d (hl d hd) heq ▸ hd
  · intro hmem
    exact ⟨label, hmem, rfl⟩

/-- What one round of the loop finds. -/
def LabelListed (b : DomainSetBuilder) (host : Text) (first : Bool) (label : Text) : Prop :=
  (first = true ∧ label ∈ b.exact) ∨ label ∈ b.suffix ∨ (first = false ∧ label ∈ b.subdomain) ∨
    (first = false ∧ ∃ p ∈ b.globs, fixedSuffix p = some label ∧ globMatches p host = true)

/-- The flags only skip lists that are empty. -/
theorem lists_build (h : label ∈ b.exact ∨ label ∈ b.suffix ∨ label ∈ b.subdomain) :
    (b.build hash regex).lists = true := by
  rw [DomainSet.lists, Bool.not_eq_true', Bool.and_eq_false_iff, Bool.and_eq_false_iff]
  simp only [← Bool.not_eq_true, build, DomainList.isEmpty_build]
  rcases h with hm | hm | hm
  · exact .inl (.inl (ne_nil_of_mem hm))
  · exact .inl (.inr (ne_nil_of_mem hm))
  · exact .inr (ne_nil_of_mem hm)

theorem indexed_build {p suffix : Text} (hp : p ∈ b.globs) (hfixed : fixedSuffix p = some suffix) :
    (b.build hash regex).indexed = true := by
  rw [DomainSet.indexed, Bool.not_eq_true', isEmpty_eq_false_iff]
  exact ne_nil_of_mem (Globs.mem_anchored_new.mpr ⟨p, hp, suffix, hfixed, rfl⟩)

/-- Without collisions the index finds the patterns whose fixed suffix is the label. -/
theorem anchoredAt_iff (h : NoCollision hash b host) (hlabel : label ∈ host :: parentDomains host) :
    (Globs.new hash b.globs).anchoredAt (hash label) (host.splitOn '.').length host = true ↔
      ∃ p ∈ b.globs, fixedSuffix p = some label ∧ globMatches p host = true := by
  rw [Globs.anchoredAt_new]
  constructor
  · rintro ⟨p, hp, suffix, hfixed, heq, hm⟩
    have hmem : suffix ∈ b.hashed := by
      simp only [hashed, mem_append, mem_filterMap]
      exact .inr ⟨p, hp, hfixed⟩
    exact ⟨p, hp, h label hlabel suffix hmem heq ▸ hfixed, hm⟩
  · rintro ⟨p, hp, hfixed, hm⟩
    exact ⟨p, hp, label, hfixed, rfl, hm⟩

theorem matchesLabel_build_iff (regex : RegexLib) (h : NoCollision hash b host) {first : Bool}
    (hlabel : label ∈ host :: parentDomains host) :
    (b.build hash regex).matchesLabel hash (host.splitOn '.').length host first label = true ↔
      LabelListed b host first label := by
  have hexact := contains_iff_mem h hlabel (l := b.exact) (by simp +contextual [hashed])
  have hsuffix := contains_iff_mem h hlabel (l := b.suffix) (by simp +contextual [hashed])
  have hsub := contains_iff_mem h hlabel (l := b.subdomain) (by simp +contextual [hashed])
  have hglob := anchoredAt_iff h hlabel
  have hlists : label ∈ b.exact ∨ label ∈ b.suffix ∨ label ∈ b.subdomain →
      (b.build hash regex).lists = true := lists_build
  have hindexed : (∃ p ∈ b.globs, fixedSuffix p = some label ∧ globMatches p host = true) →
      (b.build hash regex).indexed = true := by
    rintro ⟨p, hp, hfixed, -⟩
    exact indexed_build hp hfixed
  unfold DomainSet.matchesLabel LabelListed
  generalize (b.build hash regex).lists = lists at hlists ⊢
  generalize (b.build hash regex).indexed = indexed at hindexed ⊢
  simp only [build]
  grind

/-- What the whole loop finds. -/
theorem matchesLists_build_iff (h : NoCollision hash b host) :
    (b.build hash regex).matchesLists hash host = true ↔
      LabelListed b host true host ∨
        ∃ label ∈ parentDomains host, LabelListed b host false label := by
  -- the number of labels is only needed for the index of the patterns
  have hcount : (b.build hash regex).matchesLabel hash
      (if (b.build hash regex).indexed then (host.splitOn '.').length else 0) host
      = (b.build hash regex).matchesLabel hash (host.splitOn '.').length host := by
    funext first label
    cases hi : (b.build hash regex).indexed <;> simp [DomainSet.matchesLabel, hi]
  have hparents : (∃ label ∈ parentDomains host, LabelListed b host false label) ↔
      (parentDomains host).any ((b.build hash regex).matchesLabel hash
        (host.splitOn '.').length host false) = true := by
    rw [any_eq_true]
    refine exists_congr fun label => and_congr_right fun hmem => ?_
    exact (matchesLabel_build_iff regex h (mem_cons_of_mem _ hmem)).symm
  rw [hparents, ← matchesLabel_build_iff regex h mem_cons_self]
  unfold DomainSet.matchesLists
  cases hany : (b.build hash regex).lists || (b.build hash regex).indexed with
  | true => simp [hcount]
  | false =>
    -- without lists and indexed patterns no round finds anything
    obtain ⟨hl, hi⟩ := Bool.or_eq_false_iff.mp hany
    simp [DomainSet.matchesLabel, hl, hi]

/-- **The compiled set is exact**: without hash collisions it matches the hosts its
entries cover. -/
theorem matchesHost_build_iff (h : NoCollision hash b host) :
    (b.build hash regex).matchesHost hash host = true ↔ b.Covers regex host := by
  have hloose : (b.build hash regex).globs.looseMatches host = true ↔
      ∃ p ∈ b.globs, fixedSuffix p = none ∧ globMatches p host = true := Globs.looseMatches_new
  simp only [DomainSet.matchesHost, Bool.or_eq_true, matchesLists_build_iff h, hloose,
    any_eq_true, Text.containsText, decide_eq_true_eq]
  constructor
  · rintro (((hlisted | ⟨p, hp, hfixed, hm⟩) | hkey) | hregex)
    · rcases hlisted with hhost | ⟨label, hparent, hlabel⟩
      · rcases hhost with ⟨-, hmem⟩ | hmem | ⟨hfirst, -⟩ | ⟨hfirst, -⟩
        · exact .inl hmem
        · exact .inr (.inl ⟨host, hmem, .inl rfl⟩)
        · cases hfirst
        · cases hfirst
      · have hdot := mem_parentDomains.mp hparent
        rcases hlabel with ⟨hfirst, -⟩ | hmem | ⟨-, hmem⟩ | ⟨-, p, hp, hfixed, hm⟩
        · cases hfirst
        · exact .inr (.inl ⟨label, hmem, .inr hdot⟩)
        · exact .inr (.inr (.inl ⟨label, hmem, hdot⟩))
        · refine .inr (.inr (.inr (.inl ⟨p, hp, hm, fun suffix hsuffix => ?_⟩)))
          rw [hfixed] at hsuffix
          exact Option.some.inj hsuffix ▸ hdot
    · refine .inr (.inr (.inr (.inl ⟨p, hp, hm, fun suffix hsuffix => ?_⟩)))
      rw [hfixed] at hsuffix
      cases hsuffix
    · exact .inr (.inr (.inr (.inr (.inl hkey))))
    · exact .inr (.inr (.inr (.inr (.inr hregex))))
  · rintro (hmem | ⟨d, hd, rfl | hdot⟩ | ⟨d, hd, hdot⟩ | ⟨p, hp, hm, hsuffix⟩ | hkey | hregex)
    · exact .inl (.inl (.inl (.inl (.inl ⟨rfl, hmem⟩))))
    · exact .inl (.inl (.inl (.inl (.inr (.inl hd)))))
    · exact .inl (.inl (.inl (.inr ⟨d, mem_parentDomains.mpr hdot, .inr (.inl hd)⟩)))
    · exact .inl (.inl (.inl (.inr ⟨d, mem_parentDomains.mpr hdot, .inr (.inr (.inl ⟨rfl, hd⟩))⟩)))
    · cases hfixed : fixedSuffix p with
      | none => exact .inl (.inl (.inr ⟨p, hp, hfixed, hm⟩))
      | some suffix =>
        have hdot := mem_parentDomains.mpr (hsuffix suffix hfixed)
        exact .inl (.inl (.inl (.inr ⟨suffix, hdot, .inr (.inr (.inr ⟨rfl, p, hp, hfixed, hm⟩))⟩)))
    · exact .inl (.inr hkey)
    · exact .inr hregex

end Exact

end DomainSetBuilder

end Clyntis.Config
