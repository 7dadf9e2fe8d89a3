import Clyntis.Lib.Text
import Mathlib.Computability.Language

/-!
# Wildcard patterns

A pattern is a word with one letter, the star, that stands for a run of letters.

- `Wild`: the word fits the pattern;
- `wildLanguage`: the same as a regular language, `mem_wildLanguage`;
- `wild_iff_forall₂_splitOn`: a star that does not run over a separator matches part
  by part;
- `Code`, `wild_encode_iff`: in an encoding that shows where a letter starts (UTF-8
  does), matching letters and matching their units is the same.
-/

namespace Clyntis.Lib

open List

open scoped Computability

/-- The word fits the pattern: `star` stands for any run of letters in `free`, any other
letter for one that fits it. -/
inductive Wild {α β : Type} (star : α) (fits : α → β → Prop) (free : β → Prop) :
    List α → List β → Prop
  | nil : Wild star fits free [] []
  | letter {a b p w} :
    a ≠ star → fits a b → Wild star fits free p w → Wild star fits free (a :: p) (b :: w)
  | skip {p w} :
    Wild star fits free p w → Wild star fits free (star :: p) w
  | take {b p w} :
    free b → Wild star fits free (star :: p) w → Wild star fits free (star :: p) (b :: w)

variable {α β : Type} {fits : α → β → Prop}

section Inversion

variable {star : α} {free : β → Prop} {w : List β} {p : List α}

@[simp] theorem wild_nil_left : Wild star fits free [] w ↔ w = [] := by
  constructor
  · intro h
    cases h
    rfl
  · rintro rfl
    exact .nil

theorem wild_letter {a : α} (ha : a ≠ star) :
    Wild star fits free (a :: p) w ↔ ∃ b u, w = b :: u ∧ fits a b ∧ Wild star fits free p u := by
  constructor
  · intro h
    cases h with
    | letter _ hfits h => exact ⟨_, _, rfl, hfits, h⟩
    | skip | take => exact absurd rfl ha
  · rintro ⟨b, u, rfl, hfits, h⟩
    exact .letter ha hfits h

/-- A star takes any run. -/
theorem Wild.takes {run : List β} (hrun : ∀ b ∈ run, free b)
    (h : Wild star fits free (star :: p) w) : Wild star fits free (star :: p) (run ++ w) := by
  induction run with
  | nil => exact h
  | cons b run ih =>
    exact .take (hrun b mem_cons_self) (ih fun b' hb' => hrun b' (mem_cons_of_mem _ hb'))

theorem wild_star :
    Wild star fits free (star :: p) w ↔
      ∃ run rest, w = run ++ rest ∧ (∀ b ∈ run, free b) ∧ Wild star fits free p rest := by
  constructor
  · intro h
    generalize hq : star :: p = q at h
    induction h with
    | nil => cases hq
    | letter ha => exact absurd (List.cons.inj hq).1.symm ha
    | skip h =>
      obtain ⟨-, rfl⟩ := List.cons.inj hq
      exact ⟨[], _, rfl, nofun, h⟩
    | take hfree _ ih =>
      obtain ⟨run, rest, rfl, hrun, h⟩ := ih hq
      refine ⟨_ :: run, rest, rfl, fun b hb => ?_, h⟩
      rcases mem_cons.mp hb with rfl | hb
      · exact hfree
      · exact hrun b hb
  · rintro ⟨run, rest, rfl, hrun, h⟩
    exact .takes hrun (.skip h)

/-- Only stars stand for nothing. -/
theorem wild_nil_right : Wild star fits free p [] ↔ ∀ a ∈ p, a = star := by
  induction p with
  | nil => simp
  | cons a p ih =>
    rw [forall_mem_cons, ← ih]
    constructor
    · intro h
      cases h with
      | skip h => exact ⟨rfl, h⟩
    · rintro ⟨rfl, h⟩
      exact .skip h

/-- Letters take one letter each. -/
theorem Wild.of_letters_append {letters : List α} (hletters : star ∉ letters)
    (h : Wild star fits free (letters ++ p) w) : Wild star fits free p (w.drop letters.length) := by
  induction letters generalizing w with
  | nil => exact h
  | cons a letters ih =>
    have ha : a ≠ star := fun heq => hletters (heq ▸ mem_cons_self)
    obtain ⟨b, u, rfl, -, hrest⟩ := (wild_letter ha).mp h
    exact ih (fun hmem => hletters (mem_cons_of_mem _ hmem)) hrest

/-- Patterns in sequence. -/
theorem Wild.append {q : List α} {v : List β} (h : Wild star fits free p w)
    (h' : Wild star fits free q v) : Wild star fits free (p ++ q) (w ++ v) := by
  induction h with
  | nil => exact h'
  | letter ha hfits _ ih => exact .letter ha hfits ih
  | skip _ ih => exact .skip ih
  | take hfree _ ih => exact .take hfree ih

/-- Matching looks only at the letters of pattern and word. -/
theorem Wild.imp {fits' : α → β → Prop} {free' : β → Prop}
    (hfits : ∀ a ∈ p, ∀ b ∈ w, fits a b → fits' a b) (hfree : ∀ b ∈ w, free b → free' b)
    (h : Wild star fits free p w) : Wild star fits' free' p w := by
  induction h with
  | nil => exact .nil
  | letter ha hab _ ih =>
    refine .letter ha (hfits _ mem_cons_self _ mem_cons_self hab) (ih ?_ ?_)
    · exact fun a' ha' b' hb' =>
        hfits a' (mem_cons_of_mem _ ha') b' (mem_cons_of_mem _ hb')
    · exact fun b' hb' => hfree b' (mem_cons_of_mem _ hb')
  | skip _ ih => exact .skip (ih (fun a' ha' => hfits a' (mem_cons_of_mem _ ha')) hfree)
  | take hb _ ih =>
    refine .take (hfree _ mem_cons_self hb) (ih ?_ ?_)
    · exact fun a' ha' b' hb' => hfits a' ha' b' (mem_cons_of_mem _ hb')
    · exact fun b' hb' => hfree b' (mem_cons_of_mem _ hb')

end Inversion

/-! ## A star for anything -/

section

variable {star : α} {p : List α} {w : List β}

/-- A star takes what was cut off in front. -/
theorem Wild.of_drop {n : Nat} (h : Wild star fits (fun _ => True) (star :: p) (w.drop n)) :
    Wild star fits (fun _ => True) (star :: p) w := by
  rw [← take_append_drop n w]
  exact .takes (fun _ _ => trivial) h

/-- The star takes nothing, or the next letter. -/
theorem wild_star_drop :
    Wild star fits (fun _ => True) (star :: p) w ↔
      Wild star fits (fun _ => True) p w ∨
        Wild star fits (fun _ => True) (star :: p) (w.drop 1) := by
  constructor
  · intro h
    cases h with
    | letter ha => exact absurd rfl ha
    | skip h => exact .inl h
    | take _ h => exact .inr h
  · rintro (h | h)
    · exact .skip h
    · exact .of_drop h

end

/-! ## Letters that stand for themselves -/

section

variable {α : Type} {star : α} {free : α → Prop} {p w : List α}

theorem Wild.letters {letters : List α} (hletters : star ∉ letters)
    (h : Wild star Eq free p w) : Wild star Eq free (letters ++ p) (letters ++ w) := by
  induction letters with
  | nil => exact h
  | cons a letters ih =>
    refine .letter (fun heq => hletters (heq ▸ mem_cons_self)) rfl (ih ?_)
    exact fun hmem => hletters (mem_cons_of_mem _ hmem)

theorem wild_letters_append {letters : List α} (hletters : star ∉ letters) :
    Wild star Eq free (letters ++ p) w ↔ ∃ v, w = letters ++ v ∧ Wild star Eq free p v := by
  constructor
  · intro h
    induction letters generalizing w with
    | nil => exact ⟨w, rfl, h⟩
    | cons a letters ih =>
      have ha : a ≠ star := fun heq => hletters (heq ▸ mem_cons_self)
      obtain ⟨b, u, rfl, rfl, hrest⟩ := (wild_letter ha).mp h
      obtain ⟨v, rfl, hv⟩ := ih (fun hmem => hletters (mem_cons_of_mem _ hmem)) hrest
      exact ⟨v, rfl, hv⟩
  · rintro ⟨v, rfl, h⟩
    exact h.letters hletters

/-- The word ends in what follows the last star. -/
theorem Wild.suffix_of_letters {letters : List α} (hletters : star ∉ letters)
    (h : Wild star Eq free (p ++ letters) w) : letters <:+ w := by
  induction p generalizing w with
  | nil =>
    have hletters' : Wild star Eq free (letters ++ []) w := by
      rwa [append_nil]
    obtain ⟨v, rfl, hv⟩ := (wild_letters_append hletters).mp hletters'
    rw [wild_nil_left.mp hv, append_nil]
  | cons a p ih =>
    by_cases ha : a = star
    · subst ha
      obtain ⟨run, rest, rfl, -, hrest⟩ := wild_star.mp h
      exact (ih hrest).trans (suffix_append _ _)
    · obtain ⟨b, u, rfl, -, hrest⟩ := (wild_letter ha).mp h
      exact (ih hrest).trans (suffix_cons _ _)

end

/-! ## As a language -/

section

variable {α : Type} {star : α} {free : α → Prop}

/-- A class of letters. -/
def letterClass (free : α → Prop) : Language α := {w | ∃ b, free b ∧ w = [b]}

/-- Words over a class of letters. -/
theorem mem_kstar_letterClass {w : List α} :
    w ∈ (letterClass free)∗ ↔ ∀ b ∈ w, free b := by
  constructor
  · rintro ⟨words, rfl, hwords⟩ b hb
    obtain ⟨word, hword, hb⟩ := mem_flatten.mp hb
    obtain ⟨b', hfree, rfl⟩ := hwords word hword
    rw [mem_singleton.mp hb]
    exact hfree
  · intro h
    refine ⟨w.map fun b => [b], (flatMap_singleton' w).symm, fun word hword => ?_⟩
    obtain ⟨b, hb, rfl⟩ := mem_map.mp hword
    exact ⟨b, h b hb, rfl⟩

variable [DecidableEq α]

/-- The language of a pattern: one factor per letter, for the star the closure of the
class of free letters. -/
def wildLanguage (star : α) (free : α → Prop) (p : List α) : Language α :=
  (p.map fun a => if a = star then (letterClass free)∗ else {[a]}).prod

variable {p w : List α}

theorem mem_wildLanguage : w ∈ wildLanguage star free p ↔ Wild star Eq free p w := by
  induction p generalizing w with
  | nil =>
    rw [wild_nil_left]
    exact Language.mem_one w
  | cons a p ih =>
    have hcons : wildLanguage star free (a :: p)
        = (if a = star then (letterClass free)∗ else {[a]}) * wildLanguage star free p := by
      simp only [wildLanguage, map_cons, prod_cons]
    rw [hcons, Language.mem_mul]
    split
    · next ha =>
      subst ha
      simp only [mem_kstar_letterClass, wild_star, ih]
      constructor
      · rintro ⟨run, hrun, rest, hrest, rfl⟩
        exact ⟨run, rest, rfl, hrun, hrest⟩
      · rintro ⟨run, rest, rfl, hrun, hrest⟩
        exact ⟨run, hrun, rest, hrest, rfl⟩
    · next ha =>
      simp only [wild_letter ha, ih]
      constructor
      · rintro ⟨one, rfl, rest, hrest, rfl⟩
        exact ⟨a, rest, rfl, rfl, hrest⟩
      · rintro ⟨b, u, rfl, rfl, hu⟩
        exact ⟨[a], rfl, u, hu, rfl⟩

end

/-! ## Part by part -/

section

variable {α : Type} {star sep : α}

/-- Related member by member, where only the relation of members counts. -/
theorem forall₂_imp_mem {R S : List α → List α → Prop} {parts words : List (List α)}
    (himp : ∀ part ∈ parts, ∀ word ∈ words, R part word → S part word)
    (h : List.Forall₂ R parts words) : List.Forall₂ S parts words := by
  refine forall₂_iff_zip.mpr ⟨h.length_eq, fun {part word} hmem => ?_⟩
  obtain ⟨hpart, hword⟩ := of_mem_zip hmem
  exact himp part hpart word hword ((forall₂_iff_zip.mp h).2 hmem)

/-- The parts put together again. -/
theorem wild_intercalate {free : α → Prop} (hsep : star ≠ sep) {parts words : List (List α)}
    (h : List.Forall₂ (Wild star Eq free) parts words) :
    Wild star Eq free (List.intercalate [sep] parts) (List.intercalate [sep] words) := by
  induction h with
  | nil => exact .nil
  | @cons part word parts words hfirst hrest ih =>
    cases hrest with
    | nil => simpa [List.intercalate] using hfirst
    | cons hnext hrest =>
      rw [intercalate_cons_cons, intercalate_cons_cons]
      exact (hfirst.append (.letter hsep.symm rfl .nil)).append ih

variable [DecidableEq α] {p w : List α}

/-- **Part by part**: a star that stops at the separator matches each part on its own. -/
theorem wild_iff_forall₂_splitOn (hsep : star ≠ sep) :
    Wild star Eq (· ≠ sep) p w ↔
      List.Forall₂ (Wild star Eq fun _ => True) (p.splitOn sep) (w.splitOn sep) := by
  constructor
  · intro h
    induction h with
    | nil =>
      exact .cons .nil .nil
    | @letter a b p w ha hab _ ih =>
      subst hab
      by_cases hs : a = sep
      · subst hs
        rw [Text.splitOn_cons_sep, Text.splitOn_cons_sep]
        exact .cons .nil ih
      · obtain ⟨part, parts, hp, hp'⟩ := Text.splitOn_cons_ne hs p
        obtain ⟨word, words, hw, hw'⟩ := Text.splitOn_cons_ne hs w
        rw [hp, hw] at ih
        obtain ⟨hfirst, hrest⟩ := forall₂_cons.mp ih
        rw [hp', hw']
        exact .cons (.letter ha rfl hfirst) hrest
    | @skip p w _ ih =>
      obtain ⟨part, parts, hp, hp'⟩ := Text.splitOn_cons_ne hsep p
      obtain ⟨word, words, hw⟩ := exists_cons_of_ne_nil (splitOn_ne_nil sep w)
      rw [hp, hw] at ih
      obtain ⟨hfirst, hrest⟩ := forall₂_cons.mp ih
      rw [hp', hw]
      exact .cons (.skip hfirst) hrest
    | @take b p w hb _ ih =>
      obtain ⟨part, parts, -, hp'⟩ := Text.splitOn_cons_ne hsep p
      obtain ⟨word, words, hw, hw'⟩ := Text.splitOn_cons_ne hb w
      rw [hp', hw] at ih
      obtain ⟨hfirst, hrest⟩ := forall₂_cons.mp ih
      rw [hp', hw']
      exact .cons (.take trivial hfirst) hrest
  · intro h
    have hparts : List.Forall₂ (Wild star Eq (· ≠ sep)) (p.splitOn sep) (w.splitOn sep) := by
      refine forall₂_imp_mem (fun part _ word hword hfits => ?_) h
      refine hfits.imp (fun _ _ _ _ hab => hab) ?_
      rintro b hb - rfl
      exact Text.notMem_of_mem_splitOn hword hb
    have hjoin := wild_intercalate hsep hparts
    rwa [intercalate_splitOn, intercalate_splitOn] at hjoin

end

/-! ## Encodings -/

/-- An encoding of letters by units that shows where a letter starts. -/
structure Code (α β : Type) where
  encode : α → List β
  lead : β → Prop
  starts : ∀ a, ∃ b rest, encode a = b :: rest ∧ lead b ∧ ∀ c ∈ rest, ¬ lead c
  unique : ∀ a a' u v, encode a ++ u = encode a' ++ v → a = a'

section Encodings

variable (code : Code α β)

/-- A word cut anywhere: whole letters, and units that belong to the letter before. -/
theorem Code.align {w : List α} {front back : List β} (h : w.flatMap code.encode = front ++ back) :
    ∃ w₁ w₂ inner, w = w₁ ++ w₂ ∧ back = inner ++ w₂.flatMap code.encode ∧
      ∀ c ∈ inner, ¬ code.lead c := by
  induction w generalizing front with
  | nil =>
    obtain ⟨-, rfl⟩ := append_eq_nil_iff.mp h.symm
    exact ⟨[], [], [], rfl, rfl, nofun⟩
  | cons a w ih =>
    rw [flatMap_cons, append_eq_append_iff] at h
    rcases h with ⟨more, rfl, hback⟩ | ⟨inner, hencode, rfl⟩
    · -- the cut is behind the first letter
      obtain ⟨w₁, w₂, inner, rfl, hinner, hlead⟩ := ih hback
      exact ⟨a :: w₁, w₂, inner, rfl, hinner, hlead⟩
    · cases front with
      | nil =>
        exact ⟨[], a :: w, [], rfl, by rw [flatMap_cons, hencode]; rfl, nofun⟩
      | cons b front =>
        obtain ⟨lead, rest, hstarts, -, hrest⟩ := code.starts a
        rw [hstarts] at hencode
        obtain ⟨-, rfl⟩ := List.cons.inj hencode
        exact ⟨[a], w, inner, rfl, rfl, fun c hc => hrest c (mem_append_right _ hc)⟩

variable {code} {star : α} {starUnit : β} {p w : List α}

/-- No pattern begins inside a letter. -/
theorem Wild.of_inner (hstar : code.encode star = [starUnit])
    (hother : ∀ a, a ≠ star → starUnit ∉ code.encode a) {p : List α} {inner v : List β}
    (hinner : ∀ c ∈ inner, ¬ code.lead c)
    (h : Wild starUnit Eq (fun _ => True) (p.flatMap code.encode) (inner ++ v)) :
    Wild starUnit Eq (fun _ => True) (p.flatMap code.encode) v := by
  induction p generalizing inner with
  | nil =>
    rw [flatMap_nil, wild_nil_left] at h ⊢
    exact (append_eq_nil_iff.mp h).2
  | cons a p ih =>
    rw [flatMap_cons] at h ⊢
    by_cases ha : a = star
    · subst ha
      rw [hstar] at h ⊢
      obtain ⟨run, rest, hsplit, -, hrest⟩ := wild_star.mp h
      rcases append_eq_append_iff.mp hsplit with ⟨more, rfl, rfl⟩ | ⟨inner', rfl, rfl⟩
      · exact .takes (fun _ _ => trivial) (.skip hrest)
      · exact .skip (ih (fun c hc => hinner c (mem_append_right _ hc)) hrest)
    · obtain ⟨u, hu, -⟩ := (wild_letters_append (hother a ha)).mp h
      cases inner with
      | nil => exact h
      | cons c inner =>
        obtain ⟨lead, rest, hstarts, hlead, -⟩ := code.starts a
        rw [hstarts] at hu
        obtain ⟨rfl, -⟩ := List.cons.inj hu
        exact absurd hlead (hinner _ mem_cons_self)

/-- **Letters or units**: the encoded word fits the encoded pattern exactly if the word
fits the pattern. -/
theorem wild_encode_iff (hstar : code.encode star = [starUnit])
    (hother : ∀ a, a ≠ star → starUnit ∉ code.encode a) :
    Wild starUnit Eq (fun _ => True) (p.flatMap code.encode) (w.flatMap code.encode) ↔
      Wild star Eq (fun _ => True) p w := by
  constructor
  · intro h
    induction p generalizing w with
    | nil =>
      cases w with
      | nil => exact .nil
      | cons a w =>
        obtain ⟨lead, rest, hstarts, -⟩ := code.starts a
        rw [flatMap_cons, hstarts] at h
        cases h
    | cons a p ih =>
      rw [flatMap_cons] at h
      by_cases ha : a = star
      · subst ha
        rw [hstar] at h
        obtain ⟨run, rest, hsplit, -, hrest⟩ := wild_star.mp h
        obtain ⟨w₁, w₂, inner, rfl, rfl, hinner⟩ := code.align hsplit
        exact .takes (fun _ _ => trivial) (.skip (ih (.of_inner hstar hother hinner hrest)))
      · obtain ⟨u, hu, hrest⟩ := (wild_letters_append (hother a ha)).mp h
        cases w with
        | nil =>
          obtain ⟨lead, rest, hstarts, -⟩ := code.starts a
          rw [hstarts] at hu
          cases hu
        | cons b w =>
          obtain rfl := code.unique _ _ _ _ hu
          rw [← append_cancel_left hu] at hrest
          exact .letter ha rfl (ih hrest)
  · intro h
    induction h with
    | nil => exact .nil
    | letter ha hab _ ih =>
      subst hab
      exact ih.letters (hother _ ha)
    | skip _ ih =>
      rw [flatMap_cons, hstar]
      exact .skip ih
    | take _ _ ih =>
      rw [flatMap_cons, hstar] at ih ⊢
      exact .takes (fun _ _ => trivial) ih

end Encodings

/-! ## UTF-8 -/

/-- Only ASCII characters have ASCII bytes, and these are their codes. -/
theorem mem_utf8EncodeChar_ascii {c : Char} {b : UInt8} (hb : b < 128)
    (h : b ∈ String.utf8EncodeChar c) : c.toNat = b.toNat := by
  have hval : b.toNat < 128 := UInt8.lt_iff_toNat_lt.mp hb
  have htoNat (n : Nat) (hn : n < 256) : (UInt8.ofNat n).toNat = n := by
    rw [UInt8.toNat_ofNat', Nat.mod_eq_of_lt hn]
  rw [String.utf8EncodeChar.eq_1] at h
  split at h
  · next hsmall =>
    rw [mem_singleton] at h
    subst h
    exact (htoNat c.toNat (Nat.lt_of_le_of_lt hsmall (by decide))).symm
  · exfalso
    split at h
    · simp only [mem_cons, not_mem_nil, or_false] at h
      rcases h with rfl | rfl <;> (rw [htoNat _ (by omega)] at hval; omega)
    · split at h
      · simp only [mem_cons, not_mem_nil, or_false] at h
        rcases h with rfl | rfl | rfl <;> (rw [htoNat _ (by omega)] at hval; omega)
      · simp only [mem_cons, not_mem_nil, or_false] at h
        rcases h with rfl | rfl | rfl | rfl <;> (rw [htoNat _ (by omega)] at hval; omega)

/-- UTF-8 shows where a character starts. -/
def utf8 : Code Char UInt8 where
  encode := String.utf8EncodeChar
  lead := UInt8.IsUTF8FirstByte
  starts c := by
    obtain ⟨b, rest, hencode⟩ := exists_cons_of_ne_nil (String.utf8EncodeChar_ne_nil (c := c))
    have hlead (i : Nat) (hi : i < (String.utf8EncodeChar c).length) :
        ((String.utf8EncodeChar c)[i]).IsUTF8FirstByte ↔ i = 0 :=
      UInt8.isUTF8FirstByte_getElem_utf8EncodeChar
    refine ⟨b, rest, hencode, ?_, fun d hd => ?_⟩
    · have hfirst := (hlead 0 (by rw [hencode]; exact Nat.succ_pos _)).mpr rfl
      simpa only [hencode, getElem_cons_zero] using hfirst
    · obtain ⟨i, hi, rfl⟩ := mem_iff_getElem.mp hd
      intro hfirst
      have hi' : i + 1 < (String.utf8EncodeChar c).length := by
        rw [hencode]
        exact Nat.succ_lt_succ hi
      refine Nat.succ_ne_zero i ((hlead (i + 1) hi').mp ?_)
      simpa only [hencode, getElem_cons_succ] using hfirst
  unique a a' u v h := by
    have hdecode (c : Char) (rest : Bytes) :
        (String.utf8EncodeChar c ++ rest).toByteArray.utf8DecodeChar? 0 = some c := by
      rw [toByteArray_append]
      exact ByteArray.utf8DecodeChar?_utf8EncodeChar_append
    have ha := hdecode a u
    rw [h, hdecode a' v] at ha
    exact (Option.some.inj ha).symm

/-- For texts: characters or bytes. -/
theorem wild_bytes_iff {p w : Text} :
    Wild 42 Eq (fun _ => True) p.bytes w.bytes ↔ Wild '*' Eq (fun _ => True) p w := by
  have hstar : utf8.encode '*' = [42] := by decide +kernel
  refine wild_encode_iff hstar fun c hc hmem => hc ?_
  have hcode := mem_utf8EncodeChar_ascii (by decide) hmem
  exact Char.ext (UInt32.toNat.inj hcode)

end Clyntis.Lib
