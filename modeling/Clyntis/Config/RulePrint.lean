import Clyntis.Config.RuleParse

/-!
# Writing rules (`CONFIGURATION.md`, `rule.rs`)

A condition is a tree of AND, OR and NOT over conditions without parts. Written as
`KIND,((c1),(c2),...)`, with `no-resolve` behind any of them, it is read back as it was.

- `RuleTree`, `RuleTree.print`, `ruleText`: trees and their texts;
- `RuleTree.condition`: what a tree stands for, each leaf read on its own;
- `Inside`, `Outside`: how the loop of `fields` passes over a text;
- `parseDepth_print`: reading a printed tree;
- `rule_round_trip`: reading a printed rule, and no text with unbalanced parentheses is read.
-/

namespace Clyntis.Config

open Lib List

/-! ## Trees and texts -/

/-- A text that stands as one field. -/
structure FieldText where
  text : Text
  plain : ∀ c ∈ text, c ≠ '(' ∧ c ≠ ')' ∧ c ≠ ','
  trimmed : text.trim = text
  unmarked : text ≠ noResolveMarker

/-- The first field of a connective. -/
def Connective.name : Connective → Text
  | and => "AND".toList
  | or => "OR".toList
  | not => "NOT".toList

/-- The first field of a condition without parts. -/
def LeafKind.name : LeafKind → Text
  | domain => "DOMAIN".toList
  | domainSuffix => "DOMAIN-SUFFIX".toList
  | domainKeyword => "DOMAIN-KEYWORD".toList
  | domainRegex => "DOMAIN-REGEX".toList
  | ipCidr => "IP-CIDR".toList
  | ipCidr6 => "IP-CIDR6".toList
  | geoip => "GEOIP".toList
  | geosite => "GEOSITE".toList
  | ruleSet => "RULE-SET".toList
  | dstPort => "DST-PORT".toList
  | network => "NETWORK".toList
  | networkName => "NETWORK-NAME".toList

/-- A connective that takes any number of parts. -/
inductive Junction where
  | and
  | or
  deriving DecidableEq, Repr

def Junction.connective : Junction → Connective
  | and => .and
  | or => .or

/-- A condition as it is written: AND and OR have at least one part, NOT has one. -/
inductive RuleTree where
  | leaf (kind : LeafKind) (value : FieldText) (marked : Bool)
  | junction (kind : Junction) (first : RuleTree) (rest : List RuleTree) (marked : Bool)
  | not (part : RuleTree) (marked : Bool)

/-- Fields between commas. -/
def commas (l : List Text) : Text := List.intercalate [','] l

/-- In parentheses. -/
def paren (s : Text) : Text := '(' :: (s ++ [')'])

/-- The last field of a marked condition or rule. -/
def markers (marked : Bool) : List Text := if marked then [noResolveMarker] else []

mutual

/-- The fields of a condition. -/
def RuleTree.fieldTexts : RuleTree → List Text
  | .leaf kind value marked => kind.name :: value.text :: markers marked
  | .junction kind first rest marked =>
    kind.connective.name :: paren (commas (paren (commas first.fieldTexts) :: partTexts rest)) ::
      markers marked
  | .not part marked =>
    Connective.not.name :: paren (paren (commas part.fieldTexts)) :: markers marked

/-- The parts of a connective, each in parentheses. -/
def partTexts : List RuleTree → List Text
  | [] => []
  | t :: ts => paren (commas t.fieldTexts) :: partTexts ts

end

/-- The text of a condition. -/
def RuleTree.print (t : RuleTree) : Text := commas t.fieldTexts

theorem partTexts_eq (ts : List RuleTree) : partTexts ts = ts.map fun t => paren t.print := by
  induction ts with
  | nil => rw [partTexts, map_nil]
  | cons t ts ih => rw [partTexts, ih, map_cons, RuleTree.print]

/-- The text of a rule. -/
def ruleText (t : RuleTree) (target : FieldText) (noResolve : Bool) : Text :=
  commas (t.fieldTexts ++ target.text :: markers noResolve)

mutual

/-- How many connectives stand around each other. -/
def RuleTree.depth : RuleTree → Nat
  | .leaf _ _ _ => 0
  | .junction _ first rest _ => max first.depth (partsDepth rest) + 1
  | .not part _ => part.depth + 1

/-- The same for parts. -/
def partsDepth : List RuleTree → Nat
  | [] => 0
  | t :: ts => max t.depth (partsDepth ts)

end

variable {t : RuleTree} {ts : List RuleTree} {s : Text} {height depth : Nat} {marked : Bool}
  {read : Text → Except RuleError Matcher}

theorem depth_le_partsDepth (h : t ∈ ts) : t.depth ≤ partsDepth ts := by
  induction ts with
  | nil => cases h
  | cons u ts ih =>
    rw [partsDepth]
    rcases mem_cons.mp h with rfl | h
    · exact Nat.le_max_left _ _
    · exact Nat.le_trans (ih h) (Nat.le_max_right _ _)

/-- A marked condition. -/
def mark (marked : Bool) (m : Matcher) : Matcher := if marked then .noResolve m else m

/-- The condition over its parts. -/
def Junction.node : Junction → List Matcher → Matcher
  | and, nodes => .and nodes
  | or, nodes => .or nodes

section Condition

variable (lib : RuleLib)

mutual

/-- The condition a tree stands for, where `parse_condition` reads each leaf on its own. -/
def RuleTree.condition : RuleTree → Except RuleError Matcher
  | .leaf kind value marked =>
    Matcher.parseCondition lib (commas (kind.name :: value.text :: markers marked))
  | .junction kind first rest marked => do
    let m ← first.condition
    let ms ← partConditions rest
    return mark marked (kind.node (m :: ms))
  | .not part marked => do
    let m ← part.condition
    return mark marked (.not m)

/-- The same for parts. -/
def partConditions : List RuleTree → Except RuleError (List Matcher)
  | [] => .ok []
  | t :: ts => do
    let m ← t.condition
    let ms ← partConditions ts
    return m :: ms

end

end Condition

/-! ## Passing over a text -/

/-- Inside parentheses the loop of `fields` passes over `s`, which nests `height` levels. -/
def Inside (height : Nat) (s : Text) : Prop :=
  ∀ depth, 0 < depth → depth + height ≤ 32 → ∀ rest current,
    fieldsLoop (s ++ rest) depth current = fieldsLoop rest depth (s.reverse ++ current)

/-- Outside parentheses it passes over `s`. -/
def Outside (s : Text) : Prop :=
  ∀ rest current, fieldsLoop (s ++ rest) 0 current = fieldsLoop rest 0 (s.reverse ++ current)

section Passing

theorem Inside.mono {height' : Nat} (h : Inside height s) (hle : height ≤ height') :
    Inside height' s :=
  fun depth hpos hlimit => h depth hpos (by omega)

theorem inside_nil : Inside height [] := fun _ _ _ _ _ => rfl

theorem Inside.append {t : Text} (hs : Inside height s) (ht : Inside height t) :
    Inside height (s ++ t) := by
  intro depth hpos hlimit rest current
  rw [append_assoc, hs depth hpos hlimit, ht depth hpos hlimit, reverse_append, append_assoc]

theorem inside_plain (h : ∀ c ∈ s, c ≠ '(' ∧ c ≠ ')') : Inside height s :=
  fun _ hpos _ => fieldsLoop_plain fun c hc => ⟨(h c hc).1, (h c hc).2, fun _ => hpos⟩

theorem outside_plain (h : ∀ c ∈ s, c ≠ '(' ∧ c ≠ ')' ∧ c ≠ ',') : Outside s :=
  fieldsLoop_plain fun c hc => ⟨(h c hc).1, (h c hc).2.1, fun he => absurd he (h c hc).2.2⟩

theorem Inside.fieldsLoop_paren (h : Inside height s)
    (hlimit : depth + (height + 1) ≤ 32) (rest current : Text) :
    fieldsLoop (Config.paren s ++ rest) depth current =
      fieldsLoop rest depth ((Config.paren s).reverse ++ current) := by
  rw [Config.paren, cons_append, append_assoc, singleton_append, fieldsLoop,
    if_pos rfl, if_pos (by omega), h (depth + 1) (by omega) (by omega), fieldsLoop]
  simp

theorem Inside.paren (h : Inside height s) : Inside (height + 1) (paren s) :=
  fun _ _ hlimit => h.fieldsLoop_paren hlimit

theorem commas_cons_cons (s t : Text) (l : List Text) :
    commas (s :: t :: l) = s ++ ',' :: commas (t :: l) := by
  rw [commas, intercalate_cons_cons, append_assoc]
  rfl

theorem inside_commas {l : List Text} (h : ∀ s ∈ l, Inside height s) :
    Inside height (commas l) := by
  match l with
  | [] => exact inside_nil
  | [s] =>
    rw [commas, intercalate_singleton]
    exact h s mem_cons_self
  | s :: t :: l =>
    rw [commas_cons_cons]
    refine (h s mem_cons_self).append (Inside.append (t := commas (t :: l)) (s := [','])
      (inside_plain (by simp)) (inside_commas fun u hu => h u (mem_cons_of_mem _ hu)))

/-- The fields between commas. -/
theorem fieldsLoop_commas {l : List Text} (h : ∀ t ∈ s :: l, Outside t) :
    fieldsLoop (commas (s :: l)) 0 [] = .ok ((s :: l).map Text.trim) := by
  induction l generalizing s with
  | nil =>
    have hs := h s mem_cons_self [] []
    rw [append_nil, append_nil] at hs
    rw [commas, intercalate_singleton, hs, fieldsLoop, reverse_reverse]
    rfl
  | cons t l ih =>
    rw [commas_cons_cons, h s mem_cons_self, fieldsLoop,
      ih fun u hu => h u (mem_cons_of_mem _ hu), append_nil, reverse_reverse]
    rfl

end Passing

/-! ## The fields of a tree -/

/-- The characters of a text, looked through one by one. -/
theorem plain_of_all (h : (s.all fun c => c ≠ '(' ∧ c ≠ ')' ∧ c ≠ ',') = true) :
    ∀ c ∈ s, c ≠ '(' ∧ c ≠ ')' ∧ c ≠ ',' := fun c hc =>
  of_decide_eq_true (all_eq_true.mp h c hc)

variable (kind : LeafKind)

theorem plain_leafName : ∀ c ∈ kind.name, c ≠ '(' ∧ c ≠ ')' ∧ c ≠ ',' :=
  plain_of_all (by cases kind <;> rfl)

variable (connective : Connective) {current : Text} {name second : Text}

theorem plain_connectiveName :
    ∀ c ∈ connective.name, c ≠ '(' ∧ c ≠ ')' ∧ c ≠ ',' :=
  plain_of_all (by cases connective <;> rfl)

theorem eq_of_mem_markers (h : s ∈ markers marked) : s = noResolveMarker := by
  cases marked with
  | false => cases h
  | true => exact mem_singleton.mp h

theorem plain_marker : ∀ c ∈ noResolveMarker, c ≠ '(' ∧ c ≠ ')' ∧ c ≠ ',' := plain_of_all rfl

theorem trim_paren (s : Text) : (paren s).trim = paren s := by
  have hclose : isWhiteSpace ')' = false := by decide
  have hlast : paren s = ('(' :: s) ++ [')'] := rfl
  exact (congrArg (List.rdropWhile isWhiteSpace) hlast).trans
    (rdropWhile_concat_neg _ _ _ (by simp [hclose]))

/-- A text without commas and parentheses is passed over inside parentheses too. -/
theorem inside_of_plain (h : ∀ c ∈ s, c ≠ '(' ∧ c ≠ ')' ∧ c ≠ ',') : Inside height s :=
  inside_plain fun c hc => ⟨(h c hc).1, (h c hc).2.1⟩

/-- The fields around the second one. -/
theorem inside_fields
    (hname : ∀ c ∈ name, c ≠ '(' ∧ c ≠ ')' ∧ c ≠ ',') (hsecond : Inside height second) :
    Inside height (commas (name :: second :: markers marked)) := by
  refine inside_commas (forall_mem_cons.mpr ⟨inside_of_plain hname,
    forall_mem_cons.mpr ⟨hsecond, fun s hs => ?_⟩⟩)
  rw [eq_of_mem_markers hs]
  exact inside_of_plain plain_marker

mutual

/-- A connective nests two levels of parentheses. -/
theorem RuleTree.inside_print : ∀ t : RuleTree, Inside (2 * t.depth) t.print
  | .leaf kind value marked => by
    rw [RuleTree.print, RuleTree.fieldTexts]
    exact inside_fields (plain_leafName kind) (inside_of_plain value.plain)
  | .junction kind first rest marked => by
    rw [RuleTree.print, RuleTree.fieldTexts, RuleTree.depth]
    have hparts : Inside (2 * max first.depth (partsDepth rest) + 1)
        (commas (paren first.print :: partTexts rest)) := by
      refine inside_commas (forall_mem_cons.mpr ⟨?_, fun s hs => ?_⟩)
      · exact Inside.mono first.inside_print.paren (by omega)
      · exact Inside.mono (inside_partTexts rest s hs) (by omega)
    exact inside_fields (plain_connectiveName _) hparts.paren
  | .not part marked => by
    exact inside_fields (plain_connectiveName _) part.inside_print.paren.paren

theorem inside_partTexts : ∀ (ts : List RuleTree), ∀ s ∈ partTexts ts,
    Inside (2 * partsDepth ts + 1) s
  | [], s, hs => nomatch hs
  | t :: ts, s, hs => by
    rw [partTexts] at hs
    rw [partsDepth]
    rcases mem_cons.mp hs with rfl | hs
    · exact Inside.mono t.inside_print.paren (by omega)
    · exact Inside.mono (inside_partTexts ts s hs) (by omega)

end

/-- A text that `fields` gives back as one field. -/
structure IsField (s : Text) : Prop where
  outside : Outside s
  trimmed : s.trim = s

theorem FieldText.isField (value : FieldText) : IsField value.text :=
  ⟨outside_plain value.plain, value.trimmed⟩

theorem isField_leafName : IsField kind.name :=
  ⟨outside_plain (plain_leafName kind), by cases kind <;> decide⟩

theorem isField_connectiveName : IsField connective.name :=
  ⟨outside_plain (plain_connectiveName connective), by cases connective <;> decide⟩

theorem isField_markers : ∀ s ∈ markers marked, IsField s := by
  intro s hs
  rw [eq_of_mem_markers hs]
  exact ⟨outside_plain plain_marker, by decide⟩

theorem isField_fields (hname : IsField name)
    (hsecond : IsField second) : ∀ s ∈ name :: second :: markers marked, IsField s :=
  forall_mem_cons.mpr ⟨hname, forall_mem_cons.mpr ⟨hsecond, isField_markers⟩⟩

theorem Inside.isField_paren (h : Inside height s) (hlimit : height + 1 ≤ 32) :
    IsField (Config.paren s) :=
  ⟨h.fieldsLoop_paren (by omega), trim_paren s⟩

/-- `fields` gives the fields back. -/
theorem fields_commas {l : List Text} (hne : l ≠ []) (h : ∀ s ∈ l, IsField s)
    (hlength : (commas l).byteLen ≤ 65536) : fields (commas l) = .ok l := by
  obtain ⟨s, rest, rfl⟩ := exists_cons_of_ne_nil hne
  have htrim : (s :: rest).map Text.trim = s :: rest :=
    (map_congr_left fun t ht => (h t ht).trimmed).trans (map_id _)
  rw [fields, if_pos hlength, fieldsLoop_commas fun t ht => (h t ht).outside, htrim]

theorem isField_partTexts (hdepth : 2 * partsDepth ts + 2 ≤ 32) :
    ∀ s ∈ partTexts ts, IsField s := by
  intro s hs
  rw [partTexts_eq] at hs
  obtain ⟨t, ht, rfl⟩ := mem_map.mp hs
  have hle := depth_le_partsDepth ht
  exact t.inside_print.isField_paren (by omega)

/-- The fields of a tree that is not too deep. -/
theorem RuleTree.isField_fieldTexts (hdepth : 2 * t.depth ≤ 32) :
    ∀ s ∈ t.fieldTexts, IsField s := by
  cases t with
  | leaf kind value marked =>
    exact isField_fields (isField_leafName kind) value.isField
  | junction kind first rest marked =>
    rw [RuleTree.depth] at hdepth
    have hparts := inside_commas (inside_partTexts (first :: rest))
    rw [partsDepth] at hparts
    exact isField_fields (isField_connectiveName _) (hparts.isField_paren (by omega))
  | not part marked =>
    rw [RuleTree.depth] at hdepth
    rw [RuleTree.fieldTexts]
    exact isField_fields (isField_connectiveName _)
      (part.inside_print.paren.isField_paren (by omega))

theorem RuleTree.fieldTexts_ne_nil (t : RuleTree) : t.fieldTexts ≠ [] := by
  cases t <;> (rw [RuleTree.fieldTexts]; exact cons_ne_nil _ _)

/-! ## Lengths -/

theorem byteLen_le_commas {l : List Text} (h : s ∈ l) : s.byteLen ≤ (commas l).byteLen := by
  induction l with
  | nil => cases h
  | cons t l ih =>
    cases l with
    | nil =>
      rw [commas, intercalate_singleton, mem_singleton.mp h]
    | cons u l =>
      rw [commas_cons_cons, Text.byteLen_append]
      rcases mem_cons.mp h with rfl | h
      · omega
      · have hrest := ih h
        have hcomma : Text.byteLen (',' :: commas (u :: l))
            = Text.byteLen [','] + (commas (u :: l)).byteLen := Text.byteLen_append [','] _
        omega

theorem byteLen_le_paren (s : Text) : s.byteLen ≤ (paren s).byteLen := by
  have hparen : paren s = ['('] ++ (s ++ [')']) := rfl
  rw [hparen, Text.byteLen_append, Text.byteLen_append]
  omega

/-- A part is no longer than the whole. -/
theorem byteLen_print_le {limit : Nat} (hlength : (commas (partTexts ts)).byteLen ≤ limit)
    (h : t ∈ ts) : t.print.byteLen ≤ limit := by
  have hmem : paren t.print ∈ partTexts ts := by
    rw [partTexts_eq]
    exact mem_map_of_mem h
  exact Nat.le_trans (byteLen_le_paren _) (Nat.le_trans (byteLen_le_commas hmem) hlength)

/-! ## Reading a tree -/

section

variable {lib : RuleLib} {parsePart : Text → Except RuleError Matcher}

theorem splitNoResolve_markers {l : List Text} {s : Text} (hs : s ≠ noResolveMarker) :
    splitNoResolve (l ++ s :: markers marked) = (marked, l ++ [s]) := by
  cases marked with
  | false =>
    rw [splitNoResolve, if_neg]
    · rfl
    · simp [markers, hs]
  | true =>
    rw [splitNoResolve, if_pos]
    · simp [markers]
    · simp [markers]

theorem lookup_leafName :
    conditionKinds.lookup kind.name = some (.inr kind) := by
  cases kind <;> decide +kernel

theorem lookup_connectiveName :
    conditionKinds.lookup connective.name = some (.inl connective) := by
  cases connective <;> decide +kernel

/-- A leaf has no parts to read. -/
theorem parseFields_leaf (value : FieldText) (marked : Bool) :
    parseFields lib parsePart (kind.name :: value.text :: markers marked)
      = if value.text.isEmpty then .error .emptyValue
        else do
          let m ← parseLeaf lib kind value.text
          return mark marked m := by
  have hsplit : splitNoResolve (kind.name :: value.text :: markers marked)
      = (marked, [kind.name, value.text]) :=
    splitNoResolve_markers (l := [kind.name]) value.unmarked
  rw [parseFields, hsplit]
  dsimp only
  rw [lookup_leafName]
  rfl

theorem unwrapParens_paren (s : Text) : unwrapParens (paren s) = .ok s := by
  have hopen : (paren s).stripStart ['('] = some (s ++ [')']) := rfl
  have hclose : Text.stripSuffix (s ++ [')']) [')'] = some s := Text.stripSuffix_eq_some.mpr rfl
  rw [unwrapParens, hopen, Option.bind_some, hclose]

theorem paren_ne_marker (s : Text) : paren s ≠ noResolveMarker := by
  intro h
  cases h

/-- A connective reads its parts. -/
theorem parseFields_connective {inner : Text} (marked : Bool)
    (hinner : inner.head? = some '(') :
    parseFields lib parsePart (connective.name :: paren inner :: markers marked) = do
      let parts ← fields inner
      let nodes ← parts.mapM parsePart
      let m ← connective.node nodes
      return mark marked m := by
  have hsplit : splitNoResolve (connective.name :: paren inner :: markers marked)
      = (marked, [connective.name, paren inner]) :=
    splitNoResolve_markers (l := [connective.name]) (paren_ne_marker inner)
  have hparts : logicalParts (paren inner) [] = fields inner := by
    rw [logicalParts, unwrapParens_paren]
    exact if_pos hinner
  rw [parseFields, hsplit]
  dsimp only
  rw [lookup_connectiveName]
  rw [hparts]
  rfl

/-- A list of parts, each read as it was written. -/
theorem mapM_partTexts (h : ∀ t ∈ ts, read t.print = t.condition lib) :
    (partTexts ts).mapM (fun part => do read (← unwrapParens part)) = partConditions lib ts := by
  induction ts with
  | nil => rfl
  | cons t ts ih =>
    obtain ⟨hfirst, hrest⟩ := forall_mem_cons.mp h
    rw [partTexts, mapM_cons, unwrapParens_paren]
    show (read t.print >>= _) = _
    rw [hfirst]
    refine bind_congr fun m => ?_
    rw [ih hrest]

theorem fields_print (hdepth : 2 * t.depth ≤ 32) (hlength : t.print.byteLen ≤ 65536) :
    fields t.print = .ok t.fieldTexts :=
  fields_commas t.fieldTexts_ne_nil (RuleTree.isField_fieldTexts hdepth) hlength

/-- The parts of a connective, inside its parentheses. -/
theorem parseFields_parts {connective : Connective} (hdepth : 2 * partsDepth (t :: ts) + 2 ≤ 32)
    (hlength : (commas (partTexts (t :: ts))).byteLen ≤ 65536)
    (hread : ∀ u ∈ t :: ts, read u.print = u.condition lib) :
    parseFields lib (fun part => do read (← unwrapParens part))
        (connective.name :: paren (commas (partTexts (t :: ts))) :: markers marked) = do
      let nodes ← partConditions lib (t :: ts)
      let m ← connective.node nodes
      return mark marked m := by
  have hhead : (commas (partTexts (t :: ts))).head? = some '(' := by
    rw [partTexts]
    cases hrest : partTexts ts with
    | nil =>
      rfl
    | cons u us =>
      rfl
  have hfields : fields (commas (partTexts (t :: ts))) = .ok (partTexts (t :: ts)) := by
    refine fields_commas ?_ (isField_partTexts hdepth) hlength
    exact cons_ne_nil _ _
  rw [parseFields_connective connective marked hhead, hfields]
  exact congrArg (· >>= fun nodes => do return mark marked (← connective.node nodes))
    (mapM_partTexts hread)

/-- Reading a printed tree: by induction on the levels that are left. -/
theorem parseDepth_print {levels : Nat} (hlevels : t.depth < levels) (hdepth : 2 * t.depth ≤ 32)
    (hlength : t.print.byteLen ≤ 65536) :
    Matcher.parseDepth lib levels t.print = t.condition lib := by
  induction levels generalizing t with
  | zero => exact absurd hlevels (Nat.not_lt_zero _)
  | succ levels ih =>
    have hfields := fields_print hdepth hlength
    have hsecond {name second : Text} {marked : Bool}
        (h : t.fieldTexts = name :: paren second :: markers marked) : second.byteLen ≤ 65536 := by
      refine Nat.le_trans (byteLen_le_paren _) (Nat.le_trans (byteLen_le_commas ?_) hlength)
      rw [h]
      exact mem_cons_of_mem _ mem_cons_self
    rw [Matcher.parseDepth, hfields]
    show parseFields lib _ t.fieldTexts = _
    cases t with
    | leaf kind value marked =>
      rw [RuleTree.print, RuleTree.fieldTexts] at hfields
      rw [RuleTree.condition, Matcher.parseCondition, Matcher.parseDepth, hfields,
        RuleTree.fieldTexts, parseFields_leaf]
      exact (parseFields_leaf kind value marked).symm
    | junction kind first rest marked =>
      rw [RuleTree.depth] at hlevels hdepth
      have hparts : (commas (partTexts (first :: rest))).byteLen ≤ 65536 := hsecond rfl
      refine (parseFields_parts (t := first) ?_ hparts fun u hu => ?_).trans ?_
      · rw [partsDepth]
        omega
      · have hle := depth_le_partsDepth hu
        rw [partsDepth] at hle
        exact ih (by omega) (by omega) (byteLen_print_le hparts hu)
      · rw [RuleTree.condition, partConditions]
        cases first.condition lib with
        | error e => rfl
        | ok m =>
          cases partConditions lib rest with
          | error e => rfl
          | ok ms => cases kind <;> rfl
    | not part marked =>
      rw [RuleTree.depth] at hlevels hdepth
      have hsingle : commas (partTexts [part]) = paren part.print := by
        rw [partTexts, partTexts, commas, intercalate_singleton]
        rfl
      have hparts : (commas (partTexts [part])).byteLen ≤ 65536 := by
        rw [hsingle]
        exact hsecond rfl
      rw [RuleTree.fieldTexts, ← RuleTree.print, ← hsingle]
      refine (parseFields_parts (t := part) ?_ hparts fun u hu => ?_).trans ?_
      · rw [partsDepth, partsDepth]
        omega
      · obtain rfl := mem_singleton.mp hu
        exact ih (by omega) (by omega) (byteLen_print_le hparts hu)
      · rw [RuleTree.condition, partConditions]
        cases part.condition lib with
        | error e => rfl
        | ok m => rfl

end

/-! ## Reading a rule -/

section

variable {lib : RuleLib}

theorem fieldTexts_head (t : RuleTree) : t.fieldTexts.head? ≠ some "MATCH".toList := by
  cases t with
  | leaf kind | junction kind =>
    rw [RuleTree.fieldTexts, head?_cons]
    cases kind <;> decide
  | not part marked =>
    rw [RuleTree.fieldTexts, head?_cons]
    decide

theorem byteLen_commas_append (l m : List Text) :
    (commas l).byteLen ≤ (commas (l ++ m)).byteLen := by
  match l, m with
  | [], _ => exact Nat.zero_le _
  | [s], [] => exact le_rfl
  | [s], t :: m =>
    rw [commas, intercalate_singleton, singleton_append, commas_cons_cons, Text.byteLen_append]
    exact Nat.le_add_right _ _
  | s :: t :: l, m =>
    rw [cons_append, cons_append, commas_cons_cons, commas_cons_cons,
      Text.byteLen_append, Text.byteLen_append]
    refine Nat.add_le_add_left ?_ _
    exact Nat.add_le_add_left (byteLen_commas_append (t :: l) m) _

/-- A printed rule is read as it was written. -/
theorem parse_ruleText {t : RuleTree} {target : FieldText} {noResolve : Bool}
    (hdepth : 2 * t.depth ≤ 32) (htarget : target.text ≠ [])
    (hlength : (ruleText t target noResolve).byteLen ≤ 65536) :
    Rule.parse lib (ruleText t target noResolve) = do
      let m ← t.condition lib
      return ⟨m, target.text, noResolve⟩ := by
  have hfields : fields (ruleText t target noResolve)
      = .ok (t.fieldTexts ++ target.text :: markers noResolve) := by
    refine fields_commas (by simp) (fun s hs => ?_) hlength
    rcases mem_append.mp hs with hs | hs
    · exact RuleTree.isField_fieldTexts hdepth s hs
    · rcases mem_cons.mp hs with rfl | hs
      · exact target.isField
      · exact isField_markers s hs
  have hread : Matcher.parseCondition lib t.print = t.condition lib :=
    parseDepth_print (by omega) hdepth (Nat.le_trans (byteLen_commas_append _ _) hlength)
  have hpos : 0 < t.fieldTexts.length := length_pos_iff.mpr t.fieldTexts_ne_nil
  have hsplit : splitNoResolve (t.fieldTexts ++ target.text :: markers noResolve)
      = (noResolve, t.fieldTexts ++ [target.text]) := splitNoResolve_markers target.unmarked
  have hhead : (t.fieldTexts ++ [target.text]).head? ≠ some "MATCH".toList := by
    rw [head?_append_of_ne_nil _ t.fieldTexts_ne_nil]
    exact fieldTexts_head t
  rw [Rule.parse, hfields]
  show (if _ then _ else _) = _
  have hall : ¬ (t.fieldTexts ++ target.text :: markers noResolve).length < 2 := by
    rw [length_append, length_cons]
    omega
  have htwo : ¬ (t.fieldTexts ++ [target.text]).length < 2 := by
    rw [length_append, length_singleton]
    omega
  rw [hsplit, if_neg hall, if_neg htwo, getLast?_concat, Option.getD_some,
    if_neg (by simpa using htarget), if_pos hhead, dropLast_concat]
  show (Matcher.parseCondition lib t.print >>= _) = _
  rw [hread]

/-! ## Parentheses -/

/-- Every closing parenthesis closes an open one, and all are closed. -/
def Balanced (raw : Text) : Prop :=
  (∀ front, front <+: raw → front.count ')' ≤ front.count '(') ∧ raw.count '(' = raw.count ')'

variable {l : List Text} {raw : Text}

/-- The loop counts the parentheses that are open. -/
theorem balanced_of_fieldsLoop (h : fieldsLoop raw depth current = .ok l) :
    (∀ front, front <+: raw → front.count ')' ≤ depth + front.count '(') ∧
      depth + raw.count '(' = raw.count ')' := by
  induction raw generalizing depth current l with
  | nil =>
    rw [fieldsLoop] at h
    split at h
    · next hdepth =>
      refine ⟨fun front hfront => ?_, by rw [hdepth]; rfl⟩
      rw [prefix_nil.mp hfront]
      exact Nat.zero_le _
    · cases h
  | cons c raw ih =>
    obtain ⟨depth', current', l', hrest, hclose, hdepth, -⟩ := fieldsLoop_cons h
    obtain ⟨hfronts, htotal⟩ := ih hrest
    have hsplit (d : Char) (s : Text) : (c :: s).count d = [c].count d + s.count d := by
      rw [← singleton_append, count_append]
    refine ⟨fun front hfront => ?_, by rw [hsplit '(' raw, hsplit ')' raw]; omega⟩
    rcases prefix_cons_iff.mp hfront with rfl | ⟨front', rfl, hfront'⟩
    · exact Nat.zero_le _
    · have hle := hfronts front' hfront'
      rw [hsplit '(' front', hsplit ')' front']
      omega

theorem balanced_of_fields (h : fields raw = .ok l) : Balanced raw := by
  unfold fields at h
  split at h
  · have hcount := balanced_of_fieldsLoop h
    simp only [Nat.zero_add] at hcount
    exact hcount
  · cases h

end

/-- **Rules are read as they are written**: a rule over a tree with at most 15 connectives
around each other is read back with its condition, target and marker, and a text with
unbalanced parentheses is not read. -/
theorem rule_round_trip (lib : RuleLib) :
    (∀ (t : RuleTree) (target : FieldText) (noResolve : Bool), t.depth ≤ 15 →
      target.text ≠ [] → (ruleText t target noResolve).byteLen ≤ 65536 →
      Rule.parse lib (ruleText t target noResolve) = do
        let m ← t.condition lib
        return ⟨m, target.text, noResolve⟩) ∧
      ∀ raw, ¬ Balanced raw → ∃ e, Rule.parse lib raw = .error e := by
  refine ⟨fun t target noResolve hdepth htarget hlength => ?_, fun raw hraw => ?_⟩
  · exact parse_ruleText (by omega) htarget hlength
  · cases hparse : Rule.parse lib raw with
    | error e => exact ⟨e, rfl⟩
    | ok rule =>
      rw [Rule.parse] at hparse
      obtain ⟨l, hfields, -⟩ := bind_eq_ok hparse
      exact absurd (balanced_of_fields hfields) hraw

/-- `AND,((DOMAIN,example.com,no-resolve),(NOT,((DST-PORT,443)))),DIRECT,no-resolve`. -/
theorem rule_round_trip_and :
    let lib : RuleLib := ⟨fun _ _ => none, fun _ => none, fun _ => none⟩
    let domain : FieldText := ⟨"example.com".toList, plain_of_all rfl, by decide, by decide⟩
    let https : FieldText := ⟨"443".toList, plain_of_all rfl, by decide, by decide⟩
    let direct : FieldText := ⟨"DIRECT".toList, plain_of_all rfl, by decide, by decide⟩
    let t : RuleTree := .junction .and (.leaf .domain domain true)
      [.not (.leaf .dstPort https false) false] false
    ruleText t direct true
        = "AND,((DOMAIN,example.com,no-resolve),(NOT,((DST-PORT,443)))),DIRECT,no-resolve".toList ∧
      Rule.parse lib (ruleText t direct true)
        = .ok ⟨.and [.noResolve (.domain "example.com".toList), .not (.ports [(443, 443)])],
            "DIRECT".toList, true⟩ := by
  intro lib domain https direct t
  refine ⟨by decide +kernel, ?_⟩
  rw [(rule_round_trip lib).1 t direct true (by decide +kernel) (by decide) (by decide +kernel)]
  rfl

end Clyntis.Config
