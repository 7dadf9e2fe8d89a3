import Clyntis.Config.RuleParse
import Clyntis.Lib.Wildcard

/-!
# Patterns in a domain set (`rule.rs`, `label_matches`, `glob_matches`, `domain_pattern`)

A pattern with `*` is checked when it is added by building the regular expression of
`domain_pattern`, but matched in the set by a loop over the labels.

- `labelMatches_iff`: the greedy loop with one place to go back to finds every match, in
  time (`label_matches_exact`);
- `globMatches_iff`: in lower case the loop agrees with the regular expression;
- `evaluate_suffix`, `evaluate_subdomain`: the other patterns are entries of the set;
- `domain_set_exact`: a set built from patterns matches a host exactly if one of them
  does on its own.
-/

namespace Clyntis.Config

open Lib Net List

/-! ## One label -/

/-- The label fits the pattern, up to the case of ASCII letters. -/
abbrev LabelFits : Bytes → Bytes → Prop :=
  Wild 42 (fun a b => eqIgnoreAsciiCase a b = true) fun _ => True

section Label

variable {pattern label : Bytes} {p l : Nat} {star : Option (Nat × Nat)} {sp sl : Nat}

/-- Since the last `*` only letters were passed, one for each byte of the label. -/
def Passed (pattern : Bytes) (p l : Nat) (star : Option (Nat × Nat)) : Prop :=
  ∀ sp sl, star = some (sp, sl) → ∃ letters, 42 ∉ letters ∧ sl + letters.length = l ∧
    pattern.drop sp = 42 :: (letters ++ pattern.drop p)

/-- What the loop has still to try: the rest of the label here, or with one more byte for
the last `*`. -/
def Untried (pattern label : Bytes) (p l : Nat) (star : Option (Nat × Nat)) : Prop :=
  LabelFits (pattern.drop p) (label.drop l) ∨
    ∃ sp sl, star = some (sp, sl) ∧ LabelFits (pattern.drop sp) (label.drop (sl + 1))

theorem drop_eq_cons {xs : Bytes} {n : Nat} {x : UInt8} (h : xs[n]? = some x) :
    xs.drop n = x :: xs.drop (n + 1) := by
  obtain ⟨hlt, rfl⟩ := List.getElem?_eq_some_iff.mp h
  exact List.drop_eq_getElem_cons hlt

theorem Passed.drop_star (hpassed : Passed pattern p l (some (sp, sl))) :
    pattern.drop sp = 42 :: pattern.drop (sp + 1) := by
  obtain ⟨letters, -, -, hdrop⟩ := hpassed sp sl rfl
  rw [← drop_drop, hdrop, drop_one, tail_cons]

/-- With more for the last `*`, the rest of the pattern fits further on in the label. -/
theorem Passed.later (hpassed : Passed pattern p l star)
    (hstar : star = some (sp, sl)) (h : LabelFits (pattern.drop sp) (label.drop (sl + 1))) :
    ∃ n, LabelFits (pattern.drop p) (label.drop (l + n)) := by
  obtain ⟨letters, hletters, rfl, hdrop⟩ := hpassed sp sl hstar
  rw [hdrop] at h
  obtain ⟨run, rest, hsplit, -, hrest⟩ := wild_star.mp h
  have hrest' : rest = label.drop (sl + 1 + run.length) := by
    rw [← drop_drop, hsplit, drop_left]
  refine ⟨1 + run.length, ?_⟩
  have hfits := hrest.of_letters_append hletters
  rw [hrest', drop_drop] at hfits
  rwa [show sl + letters.length + (1 + run.length) = sl + 1 + run.length + letters.length by omega]

/-- At the end of the label nothing is left for the last `*`. -/
theorem untried_end (hpassed : Passed pattern p l star) (hl : label.length ≤ l) :
    Untried pattern label p l star ↔ (pattern.drop p).all (· == 42) = true := by
  have hnil (n : Nat) : label.drop (l + n) = [] := drop_eq_nil_of_le (by omega)
  have hall : LabelFits (pattern.drop p) [] ↔ (pattern.drop p).all (· == 42) = true := by
    rw [LabelFits, wild_nil_right, all_eq_true]
    simp only [beq_iff_eq]
  rw [← hall]
  constructor
  · rintro (h | ⟨sp, sl, hstar, h⟩)
    · rwa [← hnil 0]
    · obtain ⟨n, hn⟩ := hpassed.later hstar h
      rwa [hnil n] at hn
  · intro h
    refine .inl ?_
    rwa [show label.drop l = [] from hnil 0]

/-- At a `*` the earlier one need not be tried again: this one can take what it would. -/
theorem untried_star (hpassed : Passed pattern p l star) (hp : pattern[p]? = some 42) :
    Untried pattern label p l star ↔ Untried pattern label (p + 1) l (some (p, l)) := by
  have hdrop := drop_eq_cons hp
  have hhere : Untried pattern label (p + 1) l (some (p, l)) ↔
      LabelFits (pattern.drop p) (label.drop l) := by
    rw [hdrop, LabelFits, wild_star_drop, drop_drop]
    constructor
    · rintro (h | ⟨sp, sl, heq, h⟩)
      · exact .inl h
      · obtain ⟨rfl, rfl⟩ := Prod.mk.inj (Option.some.inj heq)
        rw [hdrop] at h
        exact .inr h
    · rintro (h | h)
      · exact .inl h
      · refine .inr ⟨p, l, rfl, ?_⟩
        rwa [hdrop]
  rw [hhere]
  constructor
  · rintro (h | ⟨sp, sl, hstar, h⟩)
    · exact h
    · obtain ⟨n, hn⟩ := hpassed.later hstar h
      rw [hdrop] at hn ⊢
      refine .of_drop (n := n) ?_
      rwa [drop_drop]
  · exact .inl

/-- A letter that fits is passed. -/
theorem untried_letter {c d : UInt8} (hl : label[l]? = some c) (hp : pattern[p]? = some d)
    (hd : d ≠ 42) (heq : eqIgnoreAsciiCase d c = true) :
    Untried pattern label p l star ↔ Untried pattern label (p + 1) (l + 1) star := by
  refine or_congr ?_ Iff.rfl
  rw [drop_eq_cons hp, drop_eq_cons hl, LabelFits, wild_letter hd]
  constructor
  · rintro ⟨b, u, hcons, -, h⟩
    obtain ⟨-, rfl⟩ := List.cons.inj hcons
    exact h
  · intro h
    exact ⟨c, _, rfl, heq, h⟩

/-- Where neither a `*` nor a fitting letter stands, the rest of the label does not fit. -/
theorem not_labelFits_here {c : UInt8} (hl : label[l]? = some c) (hstar : pattern[p]? ≠ some 42)
    (hletter : (pattern[p]?).any (eqIgnoreAsciiCase · c) ≠ true) :
    ¬ LabelFits (pattern.drop p) (label.drop l) := by
  rw [drop_eq_cons hl]
  intro h
  cases hp : pattern[p]? with
  | none =>
    rw [drop_eq_nil_of_le (getElem?_eq_none_iff.mp hp)] at h
    cases wild_nil_left.mp h
  | some d =>
    rw [hp] at hstar hletter
    rw [drop_eq_cons hp] at h
    obtain ⟨b, u, hcons, hfits, -⟩ := (wild_letter fun heq => hstar (congrArg some heq)).mp h
    obtain ⟨rfl, -⟩ := List.cons.inj hcons
    exact hletter hfits

/-- Going back: the last `*` takes one more byte. -/
theorem untried_back (hpassed : Passed pattern p l (some (sp, sl)))
    (hnot : ¬ LabelFits (pattern.drop p) (label.drop l)) :
    Untried pattern label p l (some (sp, sl)) ↔
      Untried pattern label (sp + 1) (sl + 1) (some (sp, sl + 1)) := by
  have hback : LabelFits (pattern.drop sp) (label.drop (sl + 1)) ↔
      LabelFits (pattern.drop (sp + 1)) (label.drop (sl + 1)) ∨
        LabelFits (pattern.drop sp) (label.drop (sl + 1 + 1)) := by
    rw [hpassed.drop_star, LabelFits, wild_star_drop, drop_drop]
  constructor
  · rintro (h | ⟨sp', sl', heq, h⟩)
    · exact absurd h hnot
    · obtain ⟨rfl, rfl⟩ := Prod.mk.inj (Option.some.inj heq)
      rcases hback.mp h with h | h
      · exact .inl h
      · exact .inr ⟨sp, sl + 1, rfl, h⟩
  · rintro (h | ⟨sp', sl', heq, h⟩)
    · exact .inr ⟨sp, sl, rfl, hback.mpr (.inl h)⟩
    · obtain ⟨rfl, rfl⟩ := Prod.mk.inj (Option.some.inj heq)
      exact .inr ⟨sp, sl, rfl, hback.mpr (.inr h)⟩

theorem Passed.letter (hpassed : Passed pattern p l star) {d : UInt8} (hp : pattern[p]? = some d)
    (hd : d ≠ 42) : Passed pattern (p + 1) (l + 1) star := by
  intro sp sl hstar
  obtain ⟨letters, hletters, rfl, hdrop⟩ := hpassed sp sl hstar
  refine ⟨letters ++ [d], ?_, by simp [Nat.add_assoc], ?_⟩
  · rw [mem_append, mem_singleton]
    rintro (hmem | heq)
    · exact hletters hmem
    · exact hd heq.symm
  · rw [hdrop, drop_eq_cons hp, append_assoc, singleton_append]

theorem passed_star (hp : pattern.drop p = 42 :: pattern.drop (p + 1)) :
    Passed pattern (p + 1) l (some (p, l)) := by
  intro sp sl heq
  obtain ⟨rfl, rfl⟩ := Prod.mk.inj (Option.some.inj heq)
  exact ⟨[], not_mem_nil, rfl, hp⟩

/-- The loop tries all there is: by induction on its rounds, what is untried stays the same. -/
theorem labelLoop_iff {fuel : Nat} {v : Bool} (hpassed : Passed pattern p l star)
    (h : labelLoop pattern label fuel p l star = some v) :
    v = true ↔ Untried pattern label p l star := by
  induction fuel generalizing p l star with
  | zero => cases h
  | succ fuel ih =>
    rw [labelLoop.eq_def] at h
    dsimp only at h
    cases hl : label[l]? with
    | none =>
      rw [hl] at h
      rw [untried_end hpassed (getElem?_eq_none_iff.mp hl), Option.some.inj h]
    | some c =>
      rw [hl] at h
      dsimp only at h
      split at h
      · next hp =>
        rw [untried_star hpassed hp]
        exact ih (passed_star (drop_eq_cons hp)) h
      · next hnotstar =>
        split at h
        · next hletter =>
          obtain ⟨d, hp, heq⟩ := (Option.any_eq_true _ _).mp hletter
          have hd : d ≠ 42 := fun hd => hnotstar (hd ▸ hp)
          rw [untried_letter hl hp hd heq]
          exact ih (hpassed.letter hp hd) h
        · next hletter =>
          have hnot := not_labelFits_here hl hnotstar hletter
          rcases star with _ | ⟨sp, sl⟩
          · rw [← Option.some.inj h]
            constructor
            · intro hfalse
              cases hfalse
            · rintro (hfits | ⟨sp, sl, heq, -⟩)
              · exact absurd hfits hnot
              · cases heq
          · rw [untried_back hpassed hnot]
            exact ih (passed_star hpassed.drop_star) h

/-- **`label_matches` is exact**: it finds a match if there is one. -/
theorem labelMatches_iff (pattern label : Bytes) :
    labelMatches pattern label = true ↔ LabelFits pattern label := by
  have hpassed : Passed pattern 0 0 none := nofun
  rw [labelLoop_iff hpassed (labelLoop_eq_some pattern label)]
  constructor
  · rintro (h | ⟨sp, sl, heq, -⟩)
    · exact h
    · cases heq
  · exact .inl

/-- **The matcher ends in time and is exact**: the loop never needs more rounds than the
product of the two lengths, each counted with its end, and what it comes to is whether the
label fits. A round looks at one byte of either; the last one also passes once over what is
left of the pattern. -/
theorem label_matches_exact (pattern label : Bytes) :
    (∀ fuel, (pattern.length + 1) * (label.length + 1) ≤ fuel →
      labelLoop pattern label fuel 0 0 none = some (labelMatches pattern label)) ∧
    (labelMatches pattern label = true ↔ LabelFits pattern label) := by
  refine ⟨fun fuel hfuel => ?_, labelMatches_iff pattern label⟩
  have hpassed : Passed pattern 0 0 none := fun _ _ h => by cases h
  have hrounds : labelRounds pattern label 0 none < fuel := by
    simp only [labelRounds, Option.elim, Nat.sub_zero]
    rw [Nat.mul_comm, Nat.add_one_mul] at hfuel
    omega
  have hends : (labelLoop pattern label fuel 0 0 none).isSome :=
    labelLoop_isSome (fun _ _ h => by cases h) hrounds
  obtain ⟨v, hv⟩ := Option.isSome_iff_exists.mp hends
  have hsame : v = true ↔ labelMatches pattern label = true := by
    rw [labelLoop_iff hpassed hv, labelLoop_iff hpassed (labelLoop_eq_some pattern label)]
  rw [hv, Bool.eq_iff_iff.mpr hsame]

end Label

/-! ## The whole host -/

/-- The meaning of `^…$` around a pattern with `[^.]*` in the place of each `*`. -/
def globLanguage (pattern : Text) : Language Char := wildLanguage '*' (· ≠ '.') pattern

/-- The regular expressions of `domain_pattern` have their standard meaning. -/
def GlobRegex (lib : RuleLib) : Prop :=
  ∀ pattern r, lib.glob pattern = some r →
    ∀ host, r.isMatch host = true ↔ host ∈ globLanguage pattern

/-- No byte of a text in lower case is an upper case letter. -/
theorem not_upper_of_lower {t : Text} (h : t.toAsciiLowercase = t) {b : UInt8} (hb : b ∈ t.bytes) :
    ¬ (65 ≤ b ∧ b ≤ 90) := by
  rintro ⟨hlow, hhigh⟩
  obtain ⟨c, hc, hb⟩ := mem_flatMap.mp hb
  have hhigh' : b.toNat ≤ 90 := UInt8.le_iff_toNat_le.mp hhigh
  have hascii : b < 128 := UInt8.lt_iff_toNat_lt.mpr (Nat.lt_of_le_of_lt hhigh' (by decide))
  have hcode : c.val.toNat = b.toNat := mem_utf8EncodeChar_ascii hascii hb
  have hupper : c.val ≥ 'A'.val ∧ c.val ≤ 'Z'.val := by
    refine ⟨UInt32.le_iff_toNat_le.mpr ?_, UInt32.le_iff_toNat_le.mpr ?_⟩
    · rwa [hcode]
    · rwa [hcode]
  have hsame := congrArg (fun d : Char => d.val.toNat) (Text.lower_of_mem h hc)
  unfold Char.toLower at hsame
  rw [dif_pos hupper] at hsame
  have h32 : ('a'.val - 'A'.val).toNat = 32 := by decide
  have hsum : (c.val.toNat + ('a'.val - 'A'.val).toNat) % 2 ^ 32 = c.val.toNat := hsame
  omega

theorem eqIgnoreAsciiCase_iff {a b : UInt8} (ha : ¬ (65 ≤ a ∧ a ≤ 90))
    (hb : ¬ (65 ≤ b ∧ b ≤ 90)) : eqIgnoreAsciiCase a b = true ↔ a = b := by
  simp only [eqIgnoreAsciiCase, if_neg ha, if_neg hb, beq_iff_eq]

/-- In lower case a label is matched character by character. -/
theorem labelMatches_bytes {part label : Text} (hpart : part.toAsciiLowercase = part)
    (hlabel : label.toAsciiLowercase = label) :
    labelMatches part.bytes label.bytes = true ↔ Wild '*' Eq (fun _ => True) part label := by
  rw [labelMatches_iff, ← wild_bytes_iff]
  have hcase {a b : UInt8} (ha : a ∈ part.bytes) (hb : b ∈ label.bytes) :=
    eqIgnoreAsciiCase_iff (not_upper_of_lower hpart ha) (not_upper_of_lower hlabel hb)
  constructor
  · exact Wild.imp (fun a ha b hb => (hcase ha hb).mp) fun _ _ => id
  · exact Wild.imp (fun a ha b hb => (hcase ha hb).mpr) fun _ _ => id

theorem globLabels_iff {parts labels : List Text} :
    globLabels parts labels = true ↔
      List.Forall₂ (fun part label => labelMatches part.bytes label.bytes = true) parts labels := by
  fun_induction globLabels parts labels with
  | case1 labels => rw [List.isEmpty_iff, List.forall₂_nil_left_iff]
  | case2 => simp
  | case3 part parts label labels hmatch ih => rw [ih, List.forall₂_cons, and_iff_right hmatch]
  | case4 part parts label labels hmatch =>
    simp [hmatch]

variable {pattern : Text} {b b' : DomainSetBuilder}

/-- **The loop is the regular expression**: in lower case, `glob_matches` accepts the words of
the pattern's language. -/
theorem globMatches_iff {host : Text} (hpattern : pattern.toAsciiLowercase = pattern)
    (hhost : host.toAsciiLowercase = host) :
    globMatches pattern host = true ↔ host ∈ globLanguage pattern := by
  rw [globMatches, globLabels_iff, globLanguage, mem_wildLanguage,
    wild_iff_forall₂_splitOn (by decide)]
  have hlabels {part label : Text} (hpart : part ∈ pattern.splitOn '.')
      (hlabel : label ∈ host.splitOn '.') :=
    labelMatches_bytes (Text.lower_of_mem_splitOn hpattern hpart)
      (Text.lower_of_mem_splitOn hhost hlabel)
  constructor
  · exact forall₂_imp_mem fun part hpart label hlabel => (hlabels hpart hlabel).mp
  · exact forall₂_imp_mem fun part hpart label hlabel => (hlabels hpart hlabel).mpr

/-- The fixed suffix ends the pattern, after a dot, and has no `*`. -/
theorem eq_append_of_fixedSuffix {suffix : Text} (h : fixedSuffix pattern = some suffix) :
    ∃ front, pattern = front ++ '.' :: suffix ∧ '*' ∉ '.' :: suffix := by
  unfold fixedSuffix at h
  split at h
  · obtain ⟨⟨before, after⟩, hsplit, rfl⟩ := Option.map_eq_some_iff.mp h
    obtain ⟨htail, -⟩ := Text.splitOnce_eq_some hsplit
    refine ⟨pattern.rdropWhile (· != '*') ++ before, ?_, fun hmem => ?_⟩
    · rw [append_assoc, ← htail, rdropWhile_append_rtakeWhile]
    · have hstar : '*' ∈ pattern.rtakeWhile (· != '*') := by
        rw [htail]
        exact mem_append_right _ hmem
      exact absurd (mem_rtakeWhile_imp hstar) (by decide)
  · cases h

/-- So every host of the pattern's language ends in it: the index loses no match. -/
theorem fixedSuffix_of_mem_globLanguage {host suffix : Text}
    (h : host ∈ globLanguage pattern) (hsuffix : fixedSuffix pattern = some suffix) :
    '.' :: suffix <:+ host := by
  obtain ⟨front, rfl, hstar⟩ := eq_append_of_fixedSuffix hsuffix
  exact (mem_wildLanguage.mp h).suffix_of_letters hstar

/-! ## Entries -/

section

variable {hash : Text → Hash} {host : Text} {ip : Option IpAddr} {port : UInt16} {network : Text}
  {canResolve : Bool} {d : Text}

theorem evaluate_domain :
    (Matcher.domain d).evaluate hash host ip port network canResolve = some true ↔ host = d := by
  rw [Matcher.evaluate, Option.some.injEq, beq_iff_eq]

/-- A suffix: the domain and what is under it. -/
theorem evaluate_suffix :
    (Matcher.suffix d).evaluate hash host ip port network canResolve = some true ↔
      host = d ∨ '.' :: d <:+ host := by
  rw [Matcher.evaluate, Option.some.injEq, Bool.or_eq_true, beq_iff_eq, Option.any_eq_true]
  refine or_congr Iff.rfl ?_
  constructor
  · rintro ⟨front, hstrip, hdot⟩
    obtain ⟨front', rfl⟩ := Text.endsWith_iff.mp hdot
    rw [Text.stripSuffix_eq_some.mp hstrip, append_assoc]
    exact suffix_append _ _
  · rintro ⟨front, rfl⟩
    refine ⟨front ++ ['.'], Text.stripSuffix_eq_some.mpr ?_, Text.endsWith_iff.mpr ⟨front, rfl⟩⟩
    rw [append_assoc, singleton_append]

/-- A name without empty labels does not begin with a dot. -/
theorem ne_cons_dot_of_labels (hlabels : [] ∉ host.splitOn '.') (d : Text) : host ≠ '.' :: d := by
  rintro rfl
  exact hlabels mem_cons_self

/-- What is under a domain. -/
theorem evaluate_subdomain (hlabels : [] ∉ host.splitOn '.') :
    (Matcher.subdomain d).evaluate hash host ip port network canResolve = some true ↔
      '.' :: d <:+ host := by
  rw [Matcher.evaluate, Option.some.injEq, Option.any_eq_true]
  constructor
  · rintro ⟨front, hstrip, hcond⟩
    obtain ⟨-, hdot⟩ := Bool.and_eq_true_iff.mp hcond
    obtain ⟨front', rfl⟩ := Text.endsWith_iff.mp hdot
    rw [Text.stripSuffix_eq_some.mp hstrip, append_assoc]
    exact suffix_append _ _
  · rintro ⟨front, rfl⟩
    have hfront : front ≠ [] := fun hnil =>
      ne_cons_dot_of_labels hlabels d (by rw [hnil, nil_append])
    refine ⟨front ++ ['.'], Text.stripSuffix_eq_some.mpr ?_, Bool.and_eq_true_iff.mpr ⟨?_, ?_⟩⟩
    · rw [append_assoc, singleton_append]
    · obtain ⟨c, rest, rfl⟩ := exists_cons_of_ne_nil hfront
      have hpos := c.utf8Size_pos
      have hdot : ('.' : Char).utf8Size = 1 := by decide
      simp only [Text.byteLen, map_append, map_cons, sum_append, sum_cons, decide_eq_true_eq]
      omega
    · exact Text.endsWith_iff.mpr ⟨front, rfl⟩

end

/-! ## A set of patterns -/

/-- What `domain_pattern` returns. -/
theorem domainPattern_cases {lib : RuleLib} {m : Matcher} (h : domainPattern lib pattern = .ok m) :
    (∃ d, m = .domain d) ∨ (∃ d, m = .suffix d) ∨ (∃ d, m = .subdomain d) ∨
      ∃ r, m = .regex r ∧ lib.glob pattern.trim.toAsciiLowercase = some r := by
  unfold domainPattern at h
  dsimp only at h
  split at h
  · cases h
  · split at h
    · exact .inr (.inl ⟨_, (Except.ok.inj h).symm⟩)
    · exact .inr (.inr (.inl ⟨_, (Except.ok.inj h).symm⟩))
    · split at h
      · cases hr : lib.glob pattern.trim.toAsciiLowercase with
        | none =>
          rw [hr] at h
          cases h
        | some r =>
          rw [hr] at h
          exact .inr (.inr (.inr ⟨r, (Except.ok.inj h).symm, rfl⟩))
      · exact .inl ⟨_, (Except.ok.inj h).symm⟩

namespace DomainSetBuilder

variable {lib : RuleLib} {hash : Text → Hash} {host : Text} {ip : Option IpAddr} {port : UInt16}
  {network : Text} {canResolve : Bool}

/-- Nothing is covered by an empty set. -/
theorem not_covers_empty (regex : RegexLib) :
    ¬ ({} : DomainSetBuilder).Covers regex host := by
  rintro (h | ⟨_, h, -⟩ | ⟨_, h, -⟩ | ⟨_, h, -⟩ | ⟨_, h, -⟩ | ⟨_, h, -⟩) <;> cases h

section Entries

variable (regex : RegexLib) (b : DomainSetBuilder) (d : Text)

/-- One more name. -/
theorem covers_exact : Covers regex { b with exact := b.exact ++ [d] } host ↔
    b.Covers regex host ∨ host = d := by
  simp only [Covers, mem_append, mem_singleton]
  exact or_right_comm

/-- One more domain with what is under it. -/
theorem covers_suffix : Covers regex { b with suffix := b.suffix ++ [d] } host ↔
    b.Covers regex host ∨ (host = d ∨ '.' :: d <:+ host) := by
  simp only [Covers, mem_append, mem_singleton, or_and_right, exists_or, exists_eq_left]
  exact iff_of_eq (by ac_rfl)

/-- One more domain, for what is under it. -/
theorem covers_subdomain : Covers regex { b with subdomain := b.subdomain ++ [d] } host ↔
    b.Covers regex host ∨ '.' :: d <:+ host := by
  simp only [Covers, mem_append, mem_singleton, or_and_right, exists_or, exists_eq_left]
  exact iff_of_eq (by ac_rfl)

/-- One more pattern with `*`. -/
theorem covers_glob (pattern : Text) : Covers regex { b with globs := b.globs ++ [pattern] } host ↔
    b.Covers regex host ∨ (globMatches pattern host = true ∧
      ∀ suffix, fixedSuffix pattern = some suffix → '.' :: suffix <:+ host) := by
  simp only [Covers, mem_append, mem_singleton, or_and_right, exists_or, exists_eq_left]
  exact iff_of_eq (by ac_rfl)

end Entries

/-- One more pattern covers the hosts it matches on its own. -/
theorem covers_pattern (hregex : GlobRegex lib) (hlower : host.toAsciiLowercase = host)
    (hlabels : [] ∉ host.splitOn '.')
    (h : b.pattern lib pattern = .ok b') :
    b'.Covers lib.regex host ↔ b.Covers lib.regex host ∨
      ∃ m, domainPattern lib pattern = .ok m ∧
        m.evaluate hash host ip port network canResolve = some true := by
  obtain ⟨m, hm, h⟩ := bind_eq_ok h
  rw [hm]
  have hown : (∃ m', Except.ok m = (Except.ok m' : Except RuleError Matcher) ∧
      m'.evaluate hash host ip port network canResolve = some true) ↔
      m.evaluate hash host ip port network canResolve = some true := by
    constructor
    · rintro ⟨m', heq, heval⟩
      rwa [Except.ok.inj heq]
    · intro heval
      exact ⟨m, rfl, heval⟩
  rw [hown]
  rcases domainPattern_cases hm with ⟨d, rfl⟩ | ⟨d, rfl⟩ | ⟨d, rfl⟩ | ⟨r, rfl, hglob⟩
  · rw [← Except.ok.inj h, evaluate_domain, covers_exact]
  · rw [← Except.ok.inj h, evaluate_suffix, covers_suffix]
  · rw [← Except.ok.inj h, evaluate_subdomain hlabels, covers_subdomain]
  · have heval : (Matcher.regex r).evaluate hash host ip port network canResolve = some true ↔
        host ∈ globLanguage pattern.trim.toAsciiLowercase := by
      rw [Matcher.evaluate, Option.some.injEq]
      exact hregex _ _ hglob host
    have hentry : (globMatches pattern.trim.toAsciiLowercase host = true ∧
        ∀ suffix, fixedSuffix pattern.trim.toAsciiLowercase = some suffix →
          '.' :: suffix <:+ host) ↔
        host ∈ globLanguage pattern.trim.toAsciiLowercase := by
      rw [globMatches_iff (Text.toAsciiLowercase_toAsciiLowercase _) hlower]
      exact ⟨And.left, fun hmem => ⟨hmem, fun _ => fixedSuffix_of_mem_globLanguage hmem⟩⟩
    rw [← Except.ok.inj h, heval, ← hentry, covers_glob]

/-- The patterns of a list, put in one after the other. -/
def patterns (lib : RuleLib) (l : List Text) (b : DomainSetBuilder) :
    Except RuleError DomainSetBuilder :=
  l.foldlM (fun b pattern => b.pattern lib pattern) b

theorem covers_patterns (hregex : GlobRegex lib) (hlower : host.toAsciiLowercase = host)
    (hlabels : [] ∉ host.splitOn '.') {l : List Text}
    (h : patterns lib l b = .ok b') :
    b'.Covers lib.regex host ↔ b.Covers lib.regex host ∨
      ∃ pattern ∈ l, ∃ m, domainPattern lib pattern = .ok m ∧
        m.evaluate hash host ip port network canResolve = some true := by
  induction l generalizing b with
  | nil =>
    rw [← Except.ok.inj h]
    simp
  | cons pattern l ih =>
    obtain ⟨next, hnext, h⟩ := bind_eq_ok h
    have hfirst : next.Covers lib.regex host ↔ b.Covers lib.regex host ∨
        ∃ m, domainPattern lib pattern = .ok m ∧
          m.evaluate hash host ip port network canResolve = some true :=
      covers_pattern hregex hlower hlabels hnext
    rw [ih h, hfirst, exists_mem_cons_iff, or_assoc]

end DomainSetBuilder

/-- **A set of patterns is exact**: put in one after the other and compiled, they match a host
exactly if one of them matches it on its own. -/
theorem domain_set_exact {lib : RuleLib} (hregex : GlobRegex lib) {patterns : List Text}
    {b : DomainSetBuilder} (hok : DomainSetBuilder.patterns lib patterns {} = .ok b) {host : Text}
    (hlower : host.toAsciiLowercase = host) (hlabels : [] ∉ host.splitOn '.')
    {hash : Text → Hash} (hhash : b.NoCollision hash host) (ip : Option IpAddr) (port : UInt16)
    (network : Text) (canResolve : Bool) :
    (b.build hash lib.regex).matchesHost hash host = true ↔
      ∃ pattern ∈ patterns, ∃ m, domainPattern lib pattern = .ok m ∧
        m.evaluate hash host ip port network canResolve = some true := by
  rw [DomainSetBuilder.matchesHost_build_iff hhash,
    DomainSetBuilder.covers_patterns hregex hlower hlabels hok,
    or_iff_right (DomainSetBuilder.not_covers_empty lib.regex)]

open Classical in
/-- A library whose regular expressions have their standard meaning. -/
noncomputable def meaningLib : RuleLib where
  regex _ _ := none
  glob pattern := some ⟨pattern, fun host => decide (host ∈ globLanguage pattern)⟩
  parseNet _ := none

/-- A pattern found through the hash of its fixed suffix. -/
theorem domain_set_exact_indexed :
    let patterns := ["+.Test.org".toList, " *w.example.com".toList]
    let b : DomainSetBuilder :=
      { suffix := ["test.org".toList], globs := ["*w.example.com".toList] }
    let hash : Text → Hash := fun t => Fin.ofNat _ t.length
    let host := "www.example.com".toList
    DomainSetBuilder.patterns meaningLib patterns {} = .ok b ∧ b.NoCollision hash host ∧
      (b.build hash meaningLib.regex).matchesHost hash host = true ∧
      ∃ pattern ∈ patterns, ∃ m, domainPattern meaningLib pattern = .ok m ∧
        m.evaluate hash host none 443 "tcp".toList true = some true := by
  intro patterns b hash host
  have hregex : GlobRegex meaningLib := by
    rintro pattern r h host
    rw [← Option.some.inj h]
    exact @decide_eq_true_iff _ (Classical.propDecidable _)
  have hok : DomainSetBuilder.patterns meaningLib patterns {} = .ok b := rfl
  have hhash : b.NoCollision hash host := by
    unfold DomainSetBuilder.NoCollision
    decide +kernel
  have hmatch : (b.build hash meaningLib.regex).matchesHost hash host = true := by
    decide +kernel
  exact ⟨hok, hhash, hmatch, (domain_set_exact hregex hok (by decide +kernel) (by decide +kernel)
    hhash none 443 "tcp".toList true).mp hmatch⟩

end Clyntis.Config
