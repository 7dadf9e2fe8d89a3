import Mathlib.Algebra.Ring.Nat
import Mathlib.Data.List.DropRight
import Mathlib.Data.List.Infix
import Mathlib.Tactic.Common

/-!
# Texts

Rust strings as lists of characters. The operations below are the ones the
modelled code applies to names; all of them cut or compare at ASCII characters,
so they agree with the byte-level originals. `byteLen` and `bytes` give the
UTF-8 view where the code measures or walks bytes.

`SameSpelling` relates two spellings of one name: the same text up to the case
of ASCII letters and trailing dots. `normalize` picks the canonical spelling.
-/

namespace Clyntis.Lib

open List

/-- A Rust `str`. -/
abbrev Text : Type := List Char

/-- A Rust `[u8]`. -/
abbrev Bytes : Type := List UInt8

variable (c : Char)

/-- `char::is_whitespace`: the characters with Unicode's `White_Space` property. -/
def isWhiteSpace : Bool :=
  let n := c.toNat
  (9 ≤ n && n ≤ 13) || n == 0x20 || n == 0x85 || n == 0xa0 || n == 0x1680 ||
    (0x2000 ≤ n && n ≤ 0x200a) || n == 0x2028 || n == 0x2029 || n == 0x202f ||
    n == 0x205f || n == 0x3000

/-- `char::is_control`: Unicode's category `Cc`. -/
def isControl : Bool :=
  decide (c.toNat ≤ 0x1f) || (decide (0x7f ≤ c.toNat) && decide (c.toNat ≤ 0x9f))

namespace Text

variable (s : Text)

/-- `s.to_ascii_lowercase()`. -/
def toAsciiLowercase : Text := s.map Char.toLower

/-- `s.to_ascii_uppercase()`. -/
def toAsciiUppercase : Text := s.map Char.toUpper

/-- `s.eq_ignore_ascii_case(t)`. -/
def eqIgnoreAsciiCase (s t : Text) : Bool := s.toAsciiLowercase == t.toAsciiLowercase

/-- `s.trim_end_matches(c)`. -/
def trimEndMatches (s : Text) : Text := s.rdropWhile (· == c)

/-- `s.trim_start_matches(c)`. -/
def trimStartMatches (s : Text) : Text := s.dropWhile (· == c)

/-- `s.trim()`: Rust trims Unicode white space. -/
def trim : Text := (s.dropWhile isWhiteSpace).rdropWhile isWhiteSpace

/-- `s.trim_end()`. -/
def trimEnd : Text := s.rdropWhile isWhiteSpace

/-- `s.trim_matches(c)`. -/
def trimMatches (s : Text) : Text := (s.trimStartMatches c).trimEndMatches c

/-- `s.strip_prefix(t)`. -/
def stripStart (s t : Text) : Option Text :=
  if t.isPrefixOf s then some (s.drop t.length) else none

/-- `s.strip_suffix(t)`. -/
def stripSuffix (s t : Text) : Option Text :=
  if t.isSuffixOf s then some (s.take (s.length - t.length)) else none

/-- `s.ends_with(c)`. -/
def endsWith (c : Char) : Bool := s.getLast? == some c

/-- `s.contains(t)`. -/
def containsText (s t : Text) : Bool := decide (t <:+: s)

/-- `s.split_once(c)`. -/
def splitOnce (c : Char) : Option (Text × Text) :=
  match s.dropWhile (· != c) with
  | [] => none
  | _ :: rest => some (s.takeWhile (· != c), rest)

/-- The UTF-8 bytes of a text. -/
def bytes : Bytes := s.flatMap String.utf8EncodeChar

/-- `s.len()`. -/
def byteLen : Nat := (s.map Char.utf8Size).sum

/-- `std::str::from_utf8(bytes)`. -/
def fromUtf8 (bytes : Bytes) : Option Text := bytes.toByteArray.utf8Decode?.map Array.toList

theorem length_bytes : s.bytes.length = s.byteLen := by
  simp [bytes, byteLen]

theorem byteLen_append (s t : Text) : byteLen (s ++ t) = s.byteLen + t.byteLen := by
  simp [byteLen]

variable {s : Text} {c : Char} {α : Type}

theorem byteLen_of_ascii (h : ∀ c ∈ s, c.toNat ≤ 127) : s.byteLen = s.length := by
  induction s with
  | nil => rfl
  | cons c s ih =>
    have hc : c.val ≤ 127 := h c mem_cons_self
    have hsize : c.utf8Size = 1 := by simp [Char.utf8Size, hc]
    have hrec := ih fun c' hc' => h c' (mem_cons_of_mem _ hc')
    simp only [byteLen, map_cons, sum_cons, length_cons] at hrec ⊢
    omega

theorem fromUtf8_bytes (s : Text) : fromUtf8 s.bytes = some s := by
  show s.utf8Encode.utf8Decode?.map Array.toList = some s
  rw [utf8Decode?_utf8Encode]
  rfl

/-- What is left of a text in front of a suffix. -/
theorem stripSuffix_eq_some {t front : Text} : s.stripSuffix t = some front ↔ s = front ++ t := by
  unfold stripSuffix
  constructor
  · intro h
    split at h
    · next hsuffix =>
      obtain ⟨front', rfl⟩ := isSuffixOf_iff_suffix.mp hsuffix
      rw [← Option.some.inj h]
      simp
    · cases h
  · rintro rfl
    simp

theorem endsWith_iff : s.endsWith c = true ↔ ∃ front, s = front ++ [c] := by
  rw [endsWith, beq_iff_eq, getLast?_eq_some_iff]

/-- A split cuts at the first occurrence. -/
theorem splitOnce_eq_some {before after : Text} (h : s.splitOnce c = some (before, after)) :
    s = before ++ c :: after ∧ c ∉ before := by
  unfold splitOnce at h
  split at h
  · cases h
  · next d rest hd =>
    obtain ⟨rfl, rfl⟩ := Prod.mk.inj (Option.some.inj h)
    have hc : d = c := by
      have hhead := head?_dropWhile_not (· != c) s
      rw [hd] at hhead
      simpa using hhead
    refine ⟨?_, fun hmem => ?_⟩
    · rw [← hc, ← hd, hc, takeWhile_append_dropWhile]
    · have hne := mem_takeWhile_imp hmem
      simp at hne

theorem splitOn_cons_sep [DecidableEq α] (sep : α) (w : List α) :
    (sep :: w).splitOn sep = [] :: w.splitOn sep := by
  rw [splitOn_cons_eq_if_modifyHead, if_pos (beq_self_eq_true sep)]

/-- One more letter in front of the first part. -/
theorem splitOn_cons_ne [DecidableEq α] {a sep : α} (ha : a ≠ sep) (w : List α) :
    ∃ first rest, w.splitOn sep = first :: rest ∧ (a :: w).splitOn sep = (a :: first) :: rest := by
  obtain ⟨first, rest, hsplit⟩ := exists_cons_of_ne_nil (splitOn_ne_nil sep w)
  refine ⟨first, rest, hsplit, ?_⟩
  rw [splitOn_cons_eq_if_modifyHead, if_neg (by simpa using ha), hsplit]
  rfl

/-- The parts of a split do not hold the separator, only letters of the whole. -/
theorem mem_splitOn_letters [DecidableEq α] {s part : List α} {c : α} (h : part ∈ s.splitOn c) :
    ∀ d ∈ part, d ≠ c ∧ d ∈ s := by
  induction s generalizing part with
  | nil =>
    rw [splitOn_nil, mem_singleton] at h
    rw [h]
    nofun
  | cons d s ih =>
    have hrest {part : List α} (hpart : part ∈ s.splitOn c) : ∀ d' ∈ part, d' ≠ c ∧ d' ∈ d :: s :=
      fun d' hd' => ⟨(ih hpart d' hd').1, mem_cons_of_mem _ (ih hpart d' hd').2⟩
    by_cases hd : d = c
    · subst hd
      rw [splitOn_cons_sep] at h
      rcases mem_cons.mp h with rfl | hmem
      · nofun
      · exact hrest hmem
    · obtain ⟨first, rest, hsplit, hsplit'⟩ := splitOn_cons_ne hd s
      rw [hsplit'] at h
      rw [hsplit] at hrest
      rcases mem_cons.mp h with rfl | hmem
      · intro d' hd'
        rcases mem_cons.mp hd' with rfl | hd'
        · exact ⟨hd, mem_cons_self⟩
        · exact hrest mem_cons_self d' hd'
      · exact hrest (mem_cons_of_mem _ hmem)

theorem notMem_of_mem_splitOn [DecidableEq α] {s part : List α} {c : α} (h : part ∈ s.splitOn c) :
    c ∉ part :=
  fun hmem => (mem_splitOn_letters h c hmem).1 rfl

/-- The front before the first occurrence, in a longer text too. -/
theorem takeWhile_of_splitOnce {before after : Text} (h : s.splitOnce c = some (before, after))
    (tail : Text) : (s ++ tail).takeWhile (· != c) = before := by
  obtain ⟨rfl, hnot⟩ := splitOnce_eq_some h
  rw [append_assoc, cons_append, takeWhile_append_of_pos, takeWhile_cons_of_neg]
  · rw [append_nil]
  · simp
  · intro d hd
    exact bne_iff_ne.mpr fun heq => hnot (heq ▸ hd)

/-! ## Spellings of a name -/

/-- A host name as the code looks it up: without trailing dots, in lower case. -/
def normalize (s : Text) : Text := (s.trimEndMatches '.').toAsciiLowercase

/-- Two spellings of one name. -/
def SameSpelling (s t : Text) : Prop := s.normalize = t.normalize

instance (s t : Text) : Decidable (SameSpelling s t) :=
  inferInstanceAs (Decidable (s.normalize = t.normalize))

theorem Char.toLower_toLower (c : Char) : c.toLower.toLower = c.toLower := by
  unfold Char.toLower
  split
  · next h =>
    rw [dif_neg]
    intro hcon
    have h1 : c.val.toNat ≤ 90 := UInt32.le_iff_toNat_le.mp h.2
    have h2 : 65 ≤ c.val.toNat := UInt32.le_iff_toNat_le.mp h.1
    have h3 : (c.val + ('a'.val - 'A'.val)).toNat ≤ 90 :=
      UInt32.le_iff_toNat_le.mp hcon.2
    have hval : ('a'.val - 'A'.val).toNat = 32 := by decide
    rw [UInt32.toNat_add] at h3
    omega
  · rfl

theorem toAsciiLowercase_toAsciiLowercase (s : Text) :
    s.toAsciiLowercase.toAsciiLowercase = s.toAsciiLowercase := by
  rw [toAsciiLowercase, toAsciiLowercase, map_map]
  exact map_congr_left fun c _ => Char.toLower_toLower c

theorem lower_of_mem (h : s.toAsciiLowercase = s) (hc : c ∈ s) : c.toLower = c := by
  exact map_inj_left.mp (h.trans (map_id s).symm) c hc

/-- The parts of a text in lower case are in lower case. -/
theorem lower_of_mem_splitOn {part : Text} {sep : Char} (h : s.toAsciiLowercase = s)
    (hpart : part ∈ s.splitOn sep) : part.toAsciiLowercase = part := by
  refine (map_congr_left fun c hc => ?_).trans (map_id part)
  exact lower_of_mem h (mem_splitOn_letters hpart c hc).2

/-- Lower case makes no new dots. -/
theorem Char.toLower_eq_dot_iff (c : Char) : c.toLower = '.' ↔ c = '.' := by
  unfold Char.toLower
  split
  · next h =>
    have h1 : c.val.toNat ≤ 90 := UInt32.le_iff_toNat_le.mp h.2
    have h2 : 65 ≤ c.val.toNat := UInt32.le_iff_toNat_le.mp h.1
    constructor
    · intro hdot
      have hval : (c.val + ('a'.val - 'A'.val)).toNat = 46 := congrArg (fun d => d.val.toNat) hdot
      have h32 : ('a'.val - 'A'.val).toNat = 32 := by decide
      rw [UInt32.toNat_add] at hval
      omega
    · rintro rfl
      exact absurd h2 (by decide)
  · rfl

/-- Trimming dots and changing to lower case commute. -/
theorem trimEndMatches_toAsciiLowercase (s : Text) :
    s.toAsciiLowercase.trimEndMatches '.' = (s.trimEndMatches '.').toAsciiLowercase := by
  have hdot : (fun c : Char => c == '.') ∘ Char.toLower = fun c => c == '.' := by
    funext c
    rw [Function.comp_apply, Bool.eq_iff_iff, beq_iff_eq, beq_iff_eq]
    exact Char.toLower_eq_dot_iff c
  unfold trimEndMatches toAsciiLowercase List.rdropWhile
  rw [← map_reverse, dropWhile_map, hdot, map_reverse]

theorem trimEndMatches_trimEndMatches (c : Char) (s : Text) :
    (s.trimEndMatches c).trimEndMatches c = s.trimEndMatches c :=
  rdropWhile_idempotent _ _

@[simp] theorem normalize_trimEndMatches (s : Text) :
    (s.trimEndMatches '.').normalize = s.normalize := by
  rw [normalize, trimEndMatches_trimEndMatches, normalize]

@[simp] theorem trimEndMatches_normalize (s : Text) :
    s.normalize.trimEndMatches '.' = s.normalize := by
  rw [normalize, trimEndMatches_toAsciiLowercase, trimEndMatches_trimEndMatches]

/-- The canonical spelling is its own. -/
@[simp] theorem normalize_normalize (s : Text) : s.normalize.normalize = s.normalize := by
  rw [normalize, trimEndMatches_normalize, normalize, toAsciiLowercase_toAsciiLowercase]

end Text

end Clyntis.Lib
