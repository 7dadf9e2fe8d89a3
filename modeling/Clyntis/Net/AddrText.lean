import Clyntis.Net.Addr
import Mathlib.Tactic.IntervalCases

/-!
# The text of an address

How Rust's standard library writes an address, and that its parser reads it back.

- `IpAddr.toText`: dotted decimal; or hexadecimal groups with the longest run of two or
  more zero groups written as `::`, and the last 32 bits in dotted decimal if the address is
  an IPv4-mapped one.
- `readNumber_toDigits`, `readIpv4Addr_ipv4Text`, `readGroups_groupsText`: each reader takes
  back the text of its value and leaves what follows.
- `IpAddr.parse_toText`: the round trip; `IpAddr.toText_plain`, `IpAddr.length_toText_le`: the
  text is short and has no blanks or control characters.
-/

namespace Clyntis.Net

open Lib List

/-! ## Writing -/

/-- `Ipv4Addr`'s `Display`. -/
def ipv4Text (a : BitVec 32) : Text :=
  Nat.toDigits 10 (a.toNat / 2 ^ 24) ++ '.' :: (Nat.toDigits 10 (a.toNat / 2 ^ 16 % 256) ++
    '.' :: (Nat.toDigits 10 (a.toNat / 2 ^ 8 % 256) ++ '.' :: Nat.toDigits 10 (a.toNat % 256)))

variable (a : BitVec 128)

/-- `a.segments()`. -/
def segments : List Nat :=
  (List.range 8).map fun i => a.toNat / 65536 ^ (7 - i) % 65536

/-- `Span`: a run of zero groups. -/
structure Span where
  start : Nat := 0
  len : Nat := 0
  deriving DecidableEq, Repr

/-- One turn of the search for the longest run of zero groups; the state is `longest` and
`current`. -/
def zeroStep (spans : Span × Span) (e : Nat × Nat) : Span × Span :=
  if e.1 = 0 then
    let current : Span :=
      ⟨if spans.2.len = 0 then e.2 else spans.2.start, spans.2.len + 1⟩
    (if spans.1.len < current.len then current else spans.1, current)
  else (spans.1, {})

/-- The longest run of zero groups, the first one if there are several. -/
def longestZeros (groups : List Nat) : Span := (groups.zipIdx.foldl zeroStep ({}, {})).1

/-- `fmt_subslice`: the groups with a colon between them. -/
def groupsText : List Nat → Text
  | [] => []
  | first :: tail => Nat.toDigits 16 first ++ tail.flatMap fun g => ':' :: Nat.toDigits 16 g

/-- `Ipv6Addr`'s `Display`. -/
def ipv6Text : Text :=
  if a.toNat / 2 ^ 32 = 0xffff then "::ffff:".toList ++ ipv4Text (a.setWidth 32)
  else
    let zeros := longestZeros (segments a)
    if 1 < zeros.len then
      groupsText ((segments a).take zeros.start) ++ ':' :: ':' ::
        groupsText ((segments a).drop (zeros.start + zeros.len))
    else groupsText (segments a)

/-- `ip.to_string()`. -/
def IpAddr.toText : IpAddr → Text
  | v4 a => ipv4Text a
  | v6 a => ipv6Text a

/-! ## Reading numbers back -/

section

variable {radix n : Nat} {c : Char} {rest : Text}

theorem toDigit_digitChar (hradix : radix ≤ 16) {d : Nat} (hd : d < radix) :
    toDigit radix (Nat.digitChar d) = some d := by
  have h16 : d < 16 := by omega
  unfold toDigit
  interval_cases d <;> simp_all [Nat.digitChar]

/-- The characters of a numeral are digits. -/
theorem exists_of_mem_toDigits (hradix : 1 < radix) (h : c ∈ Nat.toDigits radix n) :
    ∃ d < radix, c = Nat.digitChar d := by
  induction n using Nat.strong_induction_on with
  | _ n ih =>
    by_cases hlt : n < radix
    · rw [Nat.toDigits_of_lt_base hlt, mem_singleton] at h
      exact ⟨n, hlt, h⟩
    · rw [Nat.toDigits_of_base_le hradix (by omega), mem_append, mem_singleton] at h
      rcases h with h | h
      · exact ih _ (Nat.div_lt_self (by omega) hradix) h
      · exact ⟨n % radix, Nat.mod_lt _ (by omega), h⟩

/-- What follows a numeral does not go on with a digit. -/
def Ends (radix : Nat) (rest : Text) : Prop := ∀ c ∈ rest.head?, toDigit radix c = none

theorem leadingDigits_eq (radix : Nat) (s : Text) :
    leadingDigits radix s =
      ((s.takeWhile fun c => (toDigit radix c).isSome).filterMap (toDigit radix),
        s.dropWhile fun c => (toDigit radix c).isSome) := by
  induction s with
  | nil => rfl
  | cons c s ih =>
    cases h : toDigit radix c with
    | none => simp [leadingDigits, h]
    | some d => simp [leadingDigits, h, ih]

theorem leadingDigits_append {cs : Text} (hcs : ∀ c ∈ cs, (toDigit radix c).isSome)
    (hrest : Ends radix rest) :
    leadingDigits radix (cs ++ rest) = (cs.filterMap (toDigit radix), rest) := by
  rw [leadingDigits_eq, takeWhile_append_of_pos hcs, dropWhile_append_of_pos hcs]
  cases rest with
  | nil => simp
  | cons c rest => simp [hrest c rfl]

/-- The digits of a numeral, as numbers. -/
def digitsOf (radix n : Nat) : List Nat := (Nat.toDigits radix n).filterMap (toDigit radix)

theorem digitsOf_of_lt (hradix : radix ≤ 16) (h : n < radix) : digitsOf radix n = [n] := by
  rw [digitsOf, Nat.toDigits_of_lt_base h]
  simp [toDigit_digitChar hradix h]

theorem digitsOf_of_le (hone : 1 < radix) (hradix : radix ≤ 16) (h : radix ≤ n) :
    digitsOf radix n = digitsOf radix (n / radix) ++ [n % radix] := by
  rw [digitsOf, Nat.toDigits_of_base_le hone h]
  simp [toDigit_digitChar hradix (Nat.mod_lt n (by omega : 0 < radix)), digitsOf]

theorem foldl_digitsOf (hone : 1 < radix) (hradix : radix ≤ 16) :
    (digitsOf radix n).foldl (fun m d => m * radix + d) 0 = n := by
  induction n using Nat.strong_induction_on with
  | _ n ih =>
    by_cases hlt : n < radix
    · simp [digitsOf_of_lt hradix hlt]
    · rw [digitsOf_of_le hone hradix (by omega), foldl_append,
        ih _ (Nat.div_lt_self (by omega) hone)]
      exact Nat.div_add_mod' n radix

/-- A number other than zero is written without a zero in front. -/
theorem head_digitsOf (hone : 1 < radix) (hradix : radix ≤ 16) (hpos : 0 < n) :
    (digitsOf radix n).head? ≠ some 0 := by
  induction n using Nat.strong_induction_on with
  | _ n ih =>
    by_cases hlt : n < radix
    · rw [digitsOf_of_lt hradix hlt]
      simp only [head?_cons, ne_eq, Option.some.injEq]
      omega
    · have hdiv : 0 < n / radix := Nat.div_pos (by omega) (by omega)
      rw [digitsOf_of_le hone hradix (by omega), head?_append]
      cases hhead : (digitsOf radix (n / radix)).head? with
      | none =>
        have hfold := foldl_digitsOf (n := n / radix) hone hradix
        rw [head?_eq_none_iff.mp hhead] at hfold
        simp only [foldl_nil] at hfold
        omega
      | some d =>
        have hne := ih _ (Nat.div_lt_self (by omega) hone) hdiv
        rw [hhead] at hne
        simpa using hne

/-- `read_number` takes back a numeral. -/
theorem readNumber_toDigits (hone : 1 < radix) (hradix : radix ≤ 16) {maxDigits limit : Nat}
    (zeros : Bool) (hmax : (Nat.toDigits radix n).length ≤ maxDigits) (hlimit : n < limit)
    (hrest : Ends radix rest) :
    readNumber radix maxDigits limit zeros (Nat.toDigits radix n ++ rest) = some (n, rest) := by
  have hdigits : ∀ c ∈ Nat.toDigits radix n, (toDigit radix c).isSome := by
    intro c hc
    obtain ⟨d, hd, rfl⟩ := exists_of_mem_toDigits hone hc
    rw [toDigit_digitChar hradix hd]
    rfl
  have hlen : (digitsOf radix n).length ≤ maxDigits :=
    (length_filterMap_le _ _).trans hmax
  have hvalue := foldl_digitsOf (n := n) hone hradix
  have hne : digitsOf radix n ≠ [] := by
    by_cases hlt : n < radix
    · simp [digitsOf_of_lt hradix hlt]
    · simp [digitsOf_of_le hone hradix (Nat.le_of_not_lt hlt)]
  have hzero : ((digitsOf radix n).head? == some 0 && decide (1 < (digitsOf radix n).length))
      = false := by
    rcases Nat.eq_zero_or_pos n with rfl | hpos
    · rw [digitsOf_of_lt hradix (by omega)]
      rfl
    · rw [beq_eq_false_iff_ne.mpr (head_digitsOf hone hradix hpos)]
      rfl
  have hread : leadingDigits radix (Nat.toDigits radix n ++ rest) = (digitsOf radix n, rest) :=
    leadingDigits_append hdigits hrest
  unfold readNumber
  simp only [hread, hvalue, Bool.and_assoc, hzero, Bool.and_false]
  refine if_neg ?_
  simp only [length_eq_zero_iff, hne, false_or]
  omega

end

/-! ## Reading addresses back -/

theorem readSeparator_cons {α : Type} {sep : Char} {i : Nat} (hi : 0 < i) (inner : Reader α)
    (rest : Text) : readSeparator sep i inner (sep :: rest) = inner rest := by
  simp [readSeparator, hi, readGivenChar]

variable {rest : Text} {gs groups : List Nat} {left : Nat} {spans : Span × Span}

/-- `read_ipv4_addr` takes back the text of an address. -/
theorem readIpv4Addr_ipv4Text (a : BitVec 32) (hrest : Ends 10 rest) :
    readIpv4Addr (ipv4Text a ++ rest) = some (a, rest) := by
  have hdot : ∀ more, Ends 10 ('.' :: more) := by
    rintro more c ⟨⟩
    decide
  have hoctet : ∀ n < 256, ∀ more, Ends 10 more →
      readNumber 10 3 256 false (Nat.toDigits 10 n ++ more) = some (n, more) := by
    intro n hn more hmore
    exact readNumber_toDigits (by decide) (by decide) false
      ((Nat.length_toDigits_le_iff (by decide) (by decide)).mpr (by omega)) hn hmore
  simp only [ipv4Text, append_assoc, cons_append, readIpv4Addr]
  have hsecond : ∀ n < 256, ∀ i, 0 < i → ∀ more, Ends 10 more →
      readSeparator '.' i (readNumber 10 3 256 false) ('.' :: (Nat.toDigits 10 n ++ more)) =
        some (n, more) := by
    intro n hn i hi more hmore
    rw [readSeparator_cons hi, hoctet n hn more hmore]
  simp only [hoctet _ (show a.toNat / 2 ^ 24 < 256 by omega) _ (hdot _), Option.bind_eq_bind,
    Option.bind_some, hsecond _ (show a.toNat / 2 ^ 16 % 256 < 256 by omega) 1 (by decide) _
      (hdot _), hsecond _ (show a.toNat / 2 ^ 8 % 256 < 256 by omega) 2 (by decide) _ (hdot _),
    hsecond _ (show a.toNat % 256 < 256 by omega) 3 (by decide) _ hrest]
  congr 2
  apply BitVec.eq_of_toNat_eq
  rw [BitVec.toNat_ofNat]
  omega

theorem readIpv4Addr_text (a : BitVec 32) : readIpv4Addr (ipv4Text a) = some (a, []) := by
  rw [← append_nil (ipv4Text a)]
  exact readIpv4Addr_ipv4Text a nofun

/-- A text in which something other than a dot follows the first digits is no IPv4 address. -/
theorem readIpv4Addr_eq_none {s : Text}
    (h : (s.dropWhile fun c => (toDigit 10 c).isSome).head? ≠ some '.') :
    readIpv4Addr s = none := by
  unfold readIpv4Addr
  cases hread : readNumber 10 3 256 false s with
  | none => simp [hread]
  | some out =>
    obtain ⟨n, more⟩ := out
    have hmore : more = (leadingDigits 10 s).2 := by
      unfold readNumber at hread
      dsimp only at hread
      split at hread
      · cases hread
      · split at hread
        · cases hread
        · exact (congrArg Prod.snd (Option.some.inj hread)).symm
    have hsep : readSeparator '.' 1 (readNumber 10 3 256 false) more = none := by
      rw [hmore, leadingDigits_eq]
      generalize s.dropWhile _ = more at h
      cases more with
      | nil => rfl
      | cons c more =>
        have hc : c ≠ '.' := fun hc => h (by rw [hc]; rfl)
        simp [readSeparator, readGivenChar, hc]
    simp [hread, hsep]

/-- What follows a group: nothing, another group or the two colons. -/
def EndsGroup (rest : Text) : Prop := ∀ c ∈ rest.head?, c = ':'

theorem EndsGroup.ends (h : EndsGroup rest) : Ends 16 rest := by
  intro c hc
  rw [h c hc]
  decide

theorem endsGroup_colon (more : Text) : EndsGroup (':' :: more) := by
  rintro c ⟨⟩
  rfl

/-- A text without a dot up to its colon is no IPv4 address. -/
theorem readIpv4Addr_of_ends (cs : Text) (hcs : '.' ∉ cs) (hrest : EndsGroup rest) :
    readIpv4Addr (cs ++ rest) = none := by
  refine readIpv4Addr_eq_none ?_
  induction cs with
  | nil =>
    cases rest with
    | nil => simp
    | cons c rest =>
      obtain rfl := hrest c rfl
      exact fun h => absurd (Option.some.inj h) (by decide)
  | cons c cs ih =>
    rw [mem_cons, not_or] at hcs
    rw [cons_append, dropWhile_cons]
    split
    · exact ih hcs.2
    · exact fun h => hcs.1 (Option.some.inj h).symm

/-- A group is not the beginning of an IPv4 address. -/
theorem readIpv4Addr_group (g : Nat) (hrest : EndsGroup rest) :
    readIpv4Addr (Nat.toDigits 16 g ++ rest) = none := by
  refine readIpv4Addr_of_ends _ (fun hmem => ?_) hrest
  obtain ⟨d, hd, hdot⟩ := exists_of_mem_toDigits (by decide) hmem
  revert hdot
  interval_cases d <;> decide

/-- `read_number` takes back a group. -/
theorem readNumber_group {g : Nat} (hg : g < 65536) (hrest : EndsGroup rest) :
    readNumber 16 4 65536 true (Nat.toDigits 16 g ++ rest) = some (g, rest) :=
  readNumber_toDigits (by decide) (by decide) true
    ((Nat.length_toDigits_le_iff (by decide) (by decide)).mpr (by omega)) hg
    hrest.ends

/-- What follows the groups: nothing or the two colons. -/
def EndsGroups (rest : Text) : Prop := rest = [] ∨ ∃ more, rest = ':' :: ':' :: more

theorem EndsGroups.endsGroup (h : EndsGroups rest) : EndsGroup rest := by
  rcases h with rfl | ⟨more, rfl⟩
  · rintro c ⟨⟩
  · exact endsGroup_colon _

theorem readNumber_of_ends (h : EndsGroup rest) : readNumber 16 4 65536 true rest = none := by
  cases rest with
  | nil => rfl
  | cons c rest =>
    obtain rfl := h c rfl
    simp [readNumber, leadingDigits, show toDigit 16 ':' = none by decide]

/-- Where no group follows, `read_groups` ends. -/
theorem readGroups_of_ends (left i : Nat) (h : EndsGroups rest) :
    readGroups left i rest = (([], false), rest) := by
  have hends := h.endsGroup
  have hnone {more : Text} (hmore : EndsGroup more) : readIpv4Addr more = none :=
    readIpv4Addr_of_ends [] (by simp) hmore
  cases left with
  | zero => rfl
  | succ left =>
    by_cases hi : 0 < i
    · rcases h with rfl | ⟨more, rfl⟩
      · simp [readGroups, readSeparator, readGivenChar, hi]
      · have hcolon := endsGroup_colon more
        simp [readGroups, readSeparator_cons hi, hnone hcolon, readNumber_of_ends hcolon]
    · simp [readGroups, readSeparator, hi, hnone hends, readNumber_of_ends hends]

/-- The groups after the first one, each behind its colon. -/
def tailText (gs : List Nat) : Text := gs.flatMap fun g => ':' :: Nat.toDigits 16 g

theorem endsGroup_tailText (gs : List Nat) (h : EndsGroup rest) :
    EndsGroup (tailText gs ++ rest) := by
  cases gs with
  | nil => exact h
  | cons g gs => exact endsGroup_colon _

/-- `read_groups` takes back a group, here behind its separator. -/
theorem readGroups_group {g i : Nat} {text : Text} {v4 : Bool} (hg : g < 65536)
    (htext : ∀ {α : Type} (inner : Reader α),
      readSeparator ':' i inner text = inner (Nat.toDigits 16 g ++ (tailText gs ++ rest)))
    (hrest : EndsGroup rest) {more : Text}
    (hrec : readGroups left (i + 1) (tailText gs ++ rest) = ((groups, v4), more)) :
    readGroups (left + 1) i text = ((g :: groups, v4), more) := by
  have hends := endsGroup_tailText gs hrest
  rw [readGroups, htext, htext, readIpv4Addr_group g hends, readNumber_group hg hends]
  simp [hrec]

/-- `read_groups` takes back the groups after the first one. -/
theorem readGroups_tailText (hgs : ∀ g ∈ gs, g < 65536) {i : Nat} (hleft : gs.length ≤ left)
    (hi : 0 < i) (hrest : EndsGroups rest) :
    readGroups left i (tailText gs ++ rest) = ((gs, false), rest) := by
  induction gs generalizing left i with
  | nil => exact readGroups_of_ends left i hrest
  | cons g gs ih =>
    obtain ⟨left, rfl⟩ : ∃ k, left = k + 1 := ⟨left - 1, by simp at hleft; omega⟩
    have htext : tailText (g :: gs) ++ rest =
        ':' :: (Nat.toDigits 16 g ++ (tailText gs ++ rest)) := by
      simp [tailText]
    refine readGroups_group (hgs g mem_cons_self) (fun inner => ?_) hrest.endsGroup
      (ih (fun g' hg' => hgs g' (mem_cons_of_mem _ hg')) (Nat.le_of_succ_le_succ hleft)
        (Nat.succ_pos i))
    rw [htext, readSeparator_cons hi]

/-- `read_groups` takes back groups. -/
theorem readGroups_groupsText (hgs : ∀ g ∈ gs, g < 65536) (hleft : gs.length ≤ left)
    (hrest : EndsGroups rest) :
    readGroups left 0 (groupsText gs ++ rest) = ((gs, false), rest) := by
  cases gs with
  | nil => exact readGroups_of_ends left 0 hrest
  | cons g gs =>
    obtain ⟨left, rfl⟩ : ∃ k, left = k + 1 := ⟨left - 1, by simp at hleft; omega⟩
    refine readGroups_group (hgs g mem_cons_self) (fun inner => ?_) hrest.endsGroup
      (readGroups_tailText (fun g' hg' => hgs g' (mem_cons_of_mem _ hg'))
        (Nat.le_of_succ_le_succ hleft) Nat.one_pos hrest)
    rw [groupsText, append_assoc]
    rfl

theorem readGroups_text (hgs : ∀ g ∈ gs, g < 65536) (hleft : gs.length ≤ left) :
    readGroups left 0 (groupsText gs) = ((gs, false), []) := by
  rw [← append_nil (groupsText gs)]
  exact readGroups_groupsText hgs hleft (.inl rfl)

/-! ## Runs of zero groups -/

/-- The run lies in these groups, and they are zero there. -/
def Span.Zeros (span : Span) (groups : List Nat) : Prop :=
  span.start + span.len ≤ groups.length ∧
    (groups.drop span.start).take span.len = List.replicate span.len 0

theorem Span.Zeros.append {span : Span} (h : span.Zeros groups) (g : Nat) :
    span.Zeros (groups ++ [g]) := by
  obtain ⟨hle, hzero⟩ := h
  refine ⟨by rw [length_append]; omega, ?_⟩
  rw [drop_append_of_le_length (by omega), take_append_of_le_length, hzero]
  rw [length_drop]
  omega

/-- A run that reaches to the end goes on with a zero. -/
theorem Span.Zeros.extend {span : Span} (h : span.Zeros groups)
    (hend : span.start + span.len = groups.length) :
    Span.Zeros ⟨span.start, span.len + 1⟩ (groups ++ [0]) := by
  obtain ⟨hle, hzero⟩ := h
  have hdrop : groups.drop span.start = List.replicate span.len 0 := by
    rw [← hzero, take_of_length_le]
    rw [length_drop]
    omega
  refine ⟨by rw [length_append, length_singleton]; dsimp only; omega, ?_⟩
  show ((groups ++ [0]).drop span.start).take (span.len + 1) = List.replicate (span.len + 1) 0
  rw [drop_append_of_le_length (by omega), hdrop, ← replicate_succ', take_of_length_le (by simp)]

/-- What the search has found in the groups it has seen. -/
structure Searched (groups : List Nat) (spans : Span × Span) : Prop where
  longest : spans.1.Zeros groups
  current : spans.2.Zeros groups
  current_end : spans.2.len = 0 ∨ spans.2.start + spans.2.len = groups.length

theorem zeros_empty (groups : List Nat) : Span.Zeros {} groups := ⟨Nat.zero_le _, rfl⟩

theorem Searched.step (h : Searched groups spans) (g : Nat) :
    Searched (groups ++ [g]) (zeroStep spans (g, groups.length)) := by
  unfold zeroStep
  by_cases hg : g = 0
  · subst hg
    rw [if_pos rfl]
    dsimp only
    -- the current run goes on, or begins here
    have hcurrent : Span.Zeros ⟨if spans.2.len = 0 then groups.length else spans.2.start,
        spans.2.len + 1⟩ (groups ++ [0]) := by
      by_cases hlen : spans.2.len = 0
      · rw [hlen]
        have hnew : Span.Zeros ⟨groups.length, 0⟩ groups := ⟨le_rfl, rfl⟩
        exact hnew.extend rfl
      · rw [if_neg hlen]
        exact h.current.extend (h.current_end.resolve_left hlen)
    refine ⟨?_, hcurrent, .inr ?_⟩
    · split
      · exact hcurrent
      · exact h.longest.append 0
    · have hend := h.current_end
      show (if spans.2.len = 0 then groups.length else spans.2.start) + (spans.2.len + 1) =
        (groups ++ [0]).length
      rw [length_append, length_singleton]
      split <;> omega
  · rw [if_neg hg]
    exact ⟨h.longest.append g, zeros_empty _, .inl rfl⟩

theorem Searched.foldl {seen : List Nat} (h : Searched seen spans) (groups : List Nat) :
    Searched (seen ++ groups) ((groups.zipIdx seen.length).foldl zeroStep spans) := by
  induction groups generalizing seen spans with
  | nil => simpa using h
  | cons g groups ih =>
    have hrest := ih (h.step g)
    rw [append_assoc, length_append] at hrest
    exact hrest

/-- The run that is written as two colons consists of zero groups. -/
theorem zeros_longestZeros (groups : List Nat) : (longestZeros groups).Zeros groups := by
  have hnone : Searched [] ({}, {}) := ⟨zeros_empty _, zeros_empty _, .inl rfl⟩
  exact (hnone.foldl groups).longest

/-! ## IPv6 addresses -/

theorem foldl_groups (base count n : Nat) :
    ((List.range count).map fun i => n / base ^ (count - 1 - i) % base).foldl
      (fun m g => m * base + g) 0 = n % base ^ count := by
  induction count generalizing n with
  | zero => simp [Nat.mod_one]
  | succ count ih =>
    have hfront : (List.range count).map (fun i => n / base ^ (count + 1 - 1 - i) % base) =
        (List.range count).map fun i => n / base / base ^ (count - 1 - i) % base := by
      refine map_congr_left fun i hi => ?_
      have hlt := mem_range.mp hi
      rw [Nat.div_div_eq_div_mul, ← Nat.pow_succ',
        show (count - 1 - i).succ = count + 1 - 1 - i by omega]
    rw [range_succ, map_append, foldl_append, hfront, ih, Nat.pow_succ', Nat.mod_mul]
    simp [Nat.add_comm, Nat.mul_comm]

theorem length_segments : (segments a).length = 8 := by simp [segments]

theorem segments_lt : ∀ g ∈ segments a, g < 65536 := by
  intro g hg
  obtain ⟨i, -, rfl⟩ := mem_map.mp hg
  exact Nat.mod_lt _ (by decide)

/-- The address with these groups. -/
def ofGroups (gs : List Nat) : BitVec 128 :=
  BitVec.ofNat 128 (gs.foldl (fun n g => n * 65536 + g) 0)

theorem ofGroups_segments : ofGroups (segments a) = a := by
  apply BitVec.eq_of_toNat_eq
  have hfold : (segments a).foldl (fun n g => n * 65536 + g) 0 = a.toNat % 65536 ^ 8 :=
    foldl_groups 65536 8 a.toNat
  rw [ofGroups, BitVec.toNat_ofNat]
  omega

/-- Groups with two colons in the middle, read back. -/
theorem readIpv6Addr_colons {tail : List Nat} {v4 : Bool} {text : Text} (hgs : ∀ g ∈ gs, g < 65536)
    (hlen : gs.length < 8) (htail : readGroups (7 - gs.length) 0 text = ((tail, v4), [])) :
    readIpv6Addr (groupsText gs ++ ':' :: ':' :: text) =
      some (ofGroups (gs ++ List.replicate (8 - gs.length - tail.length) 0 ++ tail), []) := by
  unfold readIpv6Addr
  rw [readGroups_groupsText hgs (Nat.le_of_lt hlen) (.inr ⟨text, rfl⟩)]
  simp [Nat.ne_of_lt hlen, readGivenChar, htail, ofGroups]

/-- `read_ipv6_addr` takes back the text of an address. -/
theorem readIpv6Addr_ipv6Text : readIpv6Addr (ipv6Text a) = some (a, []) := by
  have hlen := length_segments a
  unfold ipv6Text
  by_cases hmapped : a.toNat / 2 ^ 32 = 0xffff
  · rw [if_pos hmapped]
    -- the tail is the group `ffff` and the IPv4 address
    have hv4 := readIpv4Addr_text (a.setWidth 32)
    have hends := endsGroup_colon (ipv4Text (a.setWidth 32))
    have htail : readGroups (7 - ([] : List Nat).length) 0
        (Nat.toDigits 16 0xffff ++ ':' :: ipv4Text (a.setWidth 32)) =
        (([0xffff, (a.setWidth 32).toNat / 65536, (a.setWidth 32).toNat % 65536], true), []) := by
      simp [readGroups, readSeparator, readIpv4Addr_group 0xffff hends,
        readNumber_group (show 0xffff < 65536 by decide) hends, readGivenChar, hv4]
    have hread : readIpv6Addr (groupsText [] ++ _) = _ :=
      readIpv6Addr_colons (fun _ hg => absurd hg not_mem_nil) (by decide) htail
    have hvalue : ofGroups [0, 0, 0, 0, 0, 0xffff, (a.setWidth 32).toNat / 65536,
        (a.setWidth 32).toNat % 65536] = a := by
      apply BitVec.eq_of_toNat_eq
      simp only [ofGroups, foldl_cons, foldl_nil, BitVec.toNat_ofNat, BitVec.toNat_setWidth]
      omega
    exact hread.trans (congrArg (fun b => some (b, [])) hvalue)
  · rw [if_neg hmapped]
    dsimp only
    split
    · next hzeros =>
      obtain ⟨hle, hzero⟩ := zeros_longestZeros (segments a)
      generalize longestZeros (segments a) = zeros at *
      have htail : ((segments a).drop (zeros.start + zeros.len)).length =
          8 - (zeros.start + zeros.len) := by rw [length_drop, hlen]
      have hhead : ((segments a).take zeros.start).length = zeros.start := by
        rw [length_take]
        omega
      rw [readIpv6Addr_colons (fun g hg => segments_lt a g (mem_of_mem_take hg)) (by omega)
        (readGroups_text (fun g hg => segments_lt a g (mem_of_mem_drop hg)) (by omega)),
        htail, hhead, show 8 - zeros.start - (8 - (zeros.start + zeros.len)) = zeros.len by omega,
        ← hzero, append_assoc, ← drop_drop, take_append_drop,
        take_append_drop, ofGroups_segments]
    · unfold readIpv6Addr
      rw [readGroups_text (segments_lt a) (Nat.le_of_eq hlen)]
      exact congrArg (fun b => some (b, [])) (ofGroups_segments a)

theorem readIpv4Addr_groupsText (gs : List Nat) (h : EndsGroups rest) :
    readIpv4Addr (groupsText gs ++ rest) = none := by
  cases gs with
  | nil => exact readIpv4Addr_of_ends [] (by simp) h.endsGroup
  | cons g gs =>
    rw [groupsText, append_assoc]
    exact readIpv4Addr_group g (endsGroup_tailText gs h.endsGroup)

/-- The text of an IPv6 address is not the beginning of an IPv4 one. -/
theorem readIpv4Addr_ipv6Text : readIpv4Addr (ipv6Text a) = none := by
  unfold ipv6Text
  dsimp only
  split
  · exact readIpv4Addr_groupsText [] (.inr ⟨_, rfl⟩)
  · split
    · exact readIpv4Addr_groupsText _ (.inr ⟨_, rfl⟩)
    · have hnone := readIpv4Addr_groupsText (segments a) (.inl rfl)
      rwa [append_nil] at hnone

/-- **The round trip**: parsing the text of an address gives the address. -/
theorem IpAddr.parse_toText (ip : IpAddr) : IpAddr.parse ip.toText = some ip := by
  cases ip with
  | v4 a => simp [IpAddr.parse, IpAddr.toText, readIpv4Addr_text]
  | v6 a =>
    simp [IpAddr.parse, IpAddr.toText, readIpv4Addr_ipv6Text, readIpv6Addr_ipv6Text]

/-! ## What the text looks like -/

/-- A digit, a letter up to `f`, a dot or a colon: no blank and no control character. -/
def Plain (c : Char) : Prop := 46 ≤ c.toNat ∧ c.toNat ≤ 102

theorem plain_toDigits {radix n : Nat} (hone : 1 < radix) (hradix : radix ≤ 16) :
    ∀ c ∈ Nat.toDigits radix n, Plain c := by
  intro c hc
  obtain ⟨d, hd, rfl⟩ := exists_of_mem_toDigits hone hc
  have h16 : d < 16 := by omega
  unfold Plain
  interval_cases d <;> decide

theorem plain_ipv4Text (a : BitVec 32) : ∀ c ∈ ipv4Text a, Plain c := by
  have hdot : Plain '.' := ⟨by decide, by decide⟩
  intro c hc
  simp only [ipv4Text, mem_append, mem_cons] at hc
  rcases hc with hc | rfl | hc | rfl | hc | rfl | hc
  all_goals first | exact hdot | exact plain_toDigits (by decide) (by decide) c hc

theorem plain_groupsText (gs : List Nat) : ∀ c ∈ groupsText gs, Plain c := by
  have hcolon : Plain ':' := ⟨by decide, by decide⟩
  intro c hc
  cases gs with
  | nil => cases hc
  | cons g gs =>
    simp only [groupsText, mem_append, mem_flatMap, mem_cons] at hc
    rcases hc with hc | ⟨g', -, rfl | hc⟩
    all_goals first | exact hcolon | exact plain_toDigits (by decide) (by decide) c hc

theorem IpAddr.toText_plain (ip : IpAddr) : ∀ c ∈ ip.toText, Plain c := by
  have hcolon : Plain ':' := ⟨by decide, by decide⟩
  cases ip with
  | v4 a => exact plain_ipv4Text a
  | v6 a =>
    intro c hc
    unfold IpAddr.toText ipv6Text at hc
    dsimp only at hc
    split at hc
    · rcases mem_append.mp hc with hc | hc
      · have hc : c = ':' ∨ c = 'f' ∨ c = ':' := by simpa using hc
        rcases hc with rfl | rfl | rfl <;> exact ⟨by decide, by decide⟩
      · exact plain_ipv4Text _ c hc
    · split at hc
      · simp only [mem_append, mem_cons] at hc
        rcases hc with hc | rfl | rfl | hc
        · exact plain_groupsText _ c hc
        · exact hcolon
        · exact hcolon
        · exact plain_groupsText _ c hc
      · exact plain_groupsText _ c hc

theorem length_tailText_le (hgs : ∀ g ∈ gs, g < 65536) : (tailText gs).length ≤ 5 * gs.length := by
  induction gs with
  | nil => exact Nat.le_refl _
  | cons g gs ih =>
    rw [forall_mem_cons] at hgs
    have hlen : (Nat.toDigits 16 g).length ≤ 4 :=
      (Nat.length_toDigits_le_iff (by decide) (by decide)).mpr hgs.1
    have hrest := ih hgs.2
    rw [tailText, flatMap_cons, length_append, length_cons, length_cons]
    change _ + (tailText gs).length ≤ _
    omega

theorem length_groupsText_le (hgs : ∀ g ∈ gs, g < 65536) :
    (groupsText gs).length ≤ 5 * gs.length := by
  cases gs with
  | nil => exact Nat.zero_le _
  | cons g gs => exact (Nat.le_succ _).trans (length_tailText_le hgs)

theorem length_ipv4Text_le (a : BitVec 32) : (ipv4Text a).length ≤ 15 := by
  have hdigits : ∀ n, n < 256 → (Nat.toDigits 10 n).length ≤ 3 := fun n hn =>
    (Nat.length_toDigits_le_iff (by decide) (by decide)).mpr (by omega)
  have h₁ := hdigits (a.toNat / 2 ^ 24) (by omega)
  have h₂ := hdigits (a.toNat / 2 ^ 16 % 256) (by omega)
  have h₃ := hdigits (a.toNat / 2 ^ 8 % 256) (by omega)
  have h₄ := hdigits (a.toNat % 256) (by omega)
  simp only [ipv4Text, length_append, length_cons]
  omega

theorem IpAddr.length_toText_le (ip : IpAddr) : ip.toText.length ≤ 45 := by
  cases ip with
  | v4 a => exact (length_ipv4Text_le a).trans (by decide)
  | v6 a =>
    have hlen := length_segments a
    have hlt := segments_lt a
    unfold IpAddr.toText ipv6Text
    dsimp only
    split
    · have hle := length_ipv4Text_le (a.setWidth 32)
      rw [length_append, show "::ffff:".toList.length = 7 from rfl]
      omega
    · split
      · next hzeros =>
        generalize longestZeros (segments a) = zeros at *
        have hhead : (groupsText ((segments a).take zeros.start)).length ≤ _ :=
          length_groupsText_le fun g hg => hlt g (mem_of_mem_take hg)
        have htail : (groupsText ((segments a).drop (zeros.start + zeros.len))).length ≤ _ :=
          length_groupsText_le fun g hg => hlt g (mem_of_mem_drop hg)
        rw [length_take] at hhead
        rw [length_drop] at htail
        rw [length_append, length_cons, length_cons]
        omega
      · have hle := length_groupsText_le hlt
        omega

end Clyntis.Net
