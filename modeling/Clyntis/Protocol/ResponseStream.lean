import Clyntis.Lib.Poll
import Mathlib.Data.List.Basic

/-!
# The VLESS response (`vless.rs`)

A VLESS server answers with a version byte, a length and as many bytes of addons, and then the
payload. `ResponseStream` reads the answer when it is first read from.

- `ResponseStream.pollRead`: `poll_read`, over the reads of any stream;
- `response`: the answer decoded in one go;
- `ResponseStream.readable`: whatever the reads of the stream below find, what is read is the
  payload.

The field `header` holds the bytes `header[..header_read]`.
-/

namespace Clyntis.Protocol.Vless

open Lib List

/-- `ResponseStream`. -/
structure ResponseStream (σ : Type) where
  inner : σ
  header : Bytes := []
  discard : Nat := 0
  ready : Bool := false
  failed : Bool := false
  deriving DecidableEq, Repr

variable {σ : Type} {s : ResponseStream σ}

namespace ResponseStream

variable (read : Nat → σ → Poll Bytes × σ)

/-- The first loop of `poll_read`: the version and the length. -/
def readHeader (s : ResponseStream σ) :
    Poll Unit × ResponseStream σ :=
  if 2 ≤ s.header.length then (.ready (), s)
  else
    let out := collect read 2 (2 - s.header.length) s.inner
    let s := { s with inner := out.2.2, header := s.header ++ out.2.1 }
    match out.1 with
    | .pending => (.pending, s)
    | .failed e => (.failed e, s)
    | .eof => (.failed .unexpectedEof, s)
    | .done =>
      if s.header.getD 0 0 ≠ 0 then
        (.failed (.other "unsupported VLESS response version"), { s with failed := true })
      else (.ready (), { s with discard := (s.header.getD 1 0).toNat })

/-- The second loop of `poll_read`: the addons. -/
def skipAddons (s : ResponseStream σ) :
    Poll Unit × ResponseStream σ :=
  if s.ready then (.ready (), s)
  else
    let out := collect read 255 s.discard s.inner
    let s := { s with inner := out.2.2, discard := s.discard - out.2.1.length }
    match out.1 with
    | .pending => (.pending, s)
    | .failed e => (.failed e, s)
    | .eof => (.failed .unexpectedEof, s)
    | .done => (.ready (), s)

/-- `poll_read`. -/
def pollRead (n : Nat) (s : ResponseStream σ) :
    Poll Bytes × ResponseStream σ :=
  if n = 0 then (.ready [], s)
  else if s.failed then (.failed (.other "invalid VLESS response"), s)
  else
    Poll.andThen (s.readHeader read) fun _ s =>
      Poll.andThen (s.skipAddons read) fun _ s =>
        let out := read n s.inner
        (out.1, { s with inner := out.2, ready := true })

end ResponseStream

/-! ## The answer in one go -/

/-- The error of a stream that ended too early. -/
def early (ending : Option StreamError) : Content := ⟨[], some (ending.getD .unexpectedEof)⟩

/-- The content behind `n` bytes. -/
def skipped (n : Nat) (c : Content) : Content :=
  if c.bytes.length < n then early c.ending else ⟨c.bytes.drop n, c.ending⟩

/-- The payload of an answer. -/
def response (c : Content) : Content :=
  match c.bytes with
  | version :: length :: rest =>
    if version ≠ 0 then ⟨[], some (.other "unsupported VLESS response version")⟩
    else skipped length.toNat ⟨rest, c.ending⟩
  | _ => early c.ending

/-- What there is to read from the stream, if `c` is what there is to read below. -/
def ResponseStream.payload (s : ResponseStream σ) (c : Content) : Content :=
  if s.failed then ⟨[], some (.other "invalid VLESS response")⟩
  else if s.header.length < 2 then response (c.prepend s.header)
  else skipped s.discard c

theorem ResponseStream.payload_of_header (hok : s.failed = false)
    (hshort : s.header.length < 2) (c : Content) : s.payload c = response (c.prepend s.header) := by
  rw [ResponseStream.payload, hok, if_neg (by decide), if_pos hshort]

theorem ResponseStream.payload_of_addons (hok : s.failed = false)
    (hheader : 2 ≤ s.header.length) (c : Content) : s.payload c = skipped s.discard c := by
  rw [ResponseStream.payload, hok, if_neg (by decide), if_neg (Nat.not_lt.mpr hheader)]

@[simp] theorem skipped_zero (c : Content) : skipped 0 c = c := rfl

variable {bs : Bytes} {read : Nat → σ → Poll Bytes × σ}

theorem skipped_prepend {n : Nat} (h : bs.length ≤ n) (c : Content) :
    skipped n (c.prepend bs) = skipped (n - bs.length) c := by
  unfold skipped
  rw [Content.prepend, length_append]
  by_cases hlt : bs.length + c.bytes.length < n
  · rw [if_pos hlt, if_pos (by omega)]
  · rw [if_neg hlt, if_neg (by omega), drop_append, drop_of_length_le h, nil_append]

theorem skipped_of_short {n : Nat} (h : bs.length < n) (ending : Option StreamError) :
    skipped n ⟨bs, ending⟩ = early ending := if_pos h

theorem response_of_short (h : bs.length < 2) (ending : Option StreamError) :
    response ⟨bs, ending⟩ = early ending := by
  match bs, h with
  | [], _ => rfl
  | [_], _ => rfl

/-! ## Reading is decoding -/

section

variable {V : View σ}

namespace ResponseStream

/-- The stream below is one that can be read, and the fields fit together. -/
structure WellFormed (V : View σ) (s : ResponseStream σ) : Prop where
  inner : V.inv s.inner
  header_le : s.header.length ≤ 2
  ready : s.ready = true → 2 ≤ s.header.length ∧ s.discard = 0 ∧ s.failed = false

/-- The stream as its reader sees it. -/
def view (V : View σ) : View (ResponseStream σ) where
  inv := WellFormed V
  den s := s.payload (V.den s.inner)
  left s := V.left s.inner
  fin _ := True

theorem readHeader_spec (hread : Readable V read) (hs : s.WellFormed V) (hok : s.failed = false) :
    Phase (view V) (fun _ s => s.failed = false ∧ 2 ≤ s.header.length) s (s.readHeader read).1
      (s.readHeader read).2 := by
  unfold readHeader
  by_cases hdone : 2 ≤ s.header.length
  · rw [if_pos hdone]
    exact .ready hs ⟨hok, hdone⟩ rfl le_rfl
  · rw [if_neg hdone]
    have hstep := collect_spec hread (show 0 < 2 by decide) (2 - s.header.length) hs.inner
    generalize collect read 2 (2 - s.header.length) s.inner = out at hstep
    obtain ⟨result, got, inner⟩ := out
    dsimp only at hstep ⊢
    have hready : s.ready = false := by
      cases hr : s.ready with
      | false => rfl
      | true => exact absurd (hs.ready hr).1 hdone
    have hcontent : (view V).den s = response ((V.den s.inner).prepend s.header) :=
      payload_of_header hok (Nat.not_le.mp hdone) _
    -- a stream with more of the header, still not all of it
    have hpart : s.header.length + got.length < 2 → V.den s.inner = (V.den inner).prepend got →
        (view V).den { s with inner := inner, header := s.header ++ got } = (view V).den s := by
      intro hshort hsplit
      rw [hcontent, hsplit, Content.prepend_prepend]
      refine payload_of_header ?_ ?_ _
      · exact hok
      · rwa [length_append]
    have hwf : V.inv inner → s.header.length + got.length ≤ 2 →
        WellFormed V { s with inner := inner, header := s.header ++ got } := fun hinv hle =>
      ⟨hinv, by simpa using hle, fun hr => by rw [hready] at hr; cases hr⟩
    cases hstep with
    | done ok full split less =>
      obtain ⟨version, length, hheader⟩ : ∃ version length, s.header ++ got = [version, length] :=
        length_eq_two.mp (by rw [length_append]; omega)
      have hresponse : (view V).den s = if version ≠ 0 then
          ⟨[], some (.other "unsupported VLESS response version")⟩
          else skipped length.toNat (V.den inner) := by
        rw [hcontent, split, Content.prepend_prepend, hheader]
        rfl
      have hleft : V.left inner ≤ V.left s.inner := by omega
      simp only [hheader]
      by_cases hversion : version = 0
      · rw [if_neg (not_not.mpr hversion)] at hresponse
        rw [if_neg (by simpa using hversion)]
        refine .ready ⟨ok, le_rfl, fun hr => absurd hr (by simp [hready])⟩ ⟨hok, le_rfl⟩ ?_ hleft
        rw [hresponse]
        refine payload_of_addons ?_ ?_ _
        · exact hok
        · exact le_rfl
      · rw [if_pos hversion] at hresponse
        rw [if_pos (by simpa using hversion)]
        exact .error trivial rfl hresponse
    | pending ok short split less =>
      exact .pending (hwf ok (by omega)) (hpart (by omega) split) (Nat.lt_of_add_right_lt less)
    | eof ok short content empty le =>
      refine .error trivial rfl ?_
      rw [hcontent, content]
      exact response_of_short (by rw [length_append]; dsimp only; omega) none
    | error own short content =>
      refine .error trivial own ?_
      rw [hcontent, content]
      exact response_of_short (by rw [length_append]; dsimp only; omega) _
    | aside ok sending short split le =>
      exact .aside (hwf ok (by omega)) sending (hpart (by omega) split) (Nat.le_of_add_right_le le)

theorem skipAddons_spec (hread : Readable V read) (hs : s.WellFormed V) (hok : s.failed = false)
    (hheader : 2 ≤ s.header.length) :
    Phase (view V) (fun _ s => s.failed = false ∧ 2 ≤ s.header.length ∧ s.discard = 0) s
      (s.skipAddons read).1 (s.skipAddons read).2 := by
  unfold skipAddons
  by_cases hready : s.ready = true
  · rw [if_pos hready]
    exact .ready hs ⟨hok, hheader, (hs.ready hready).2.1⟩ rfl le_rfl
  · rw [if_neg hready]
    have hstep := collect_spec hread (show 0 < 255 by decide) s.discard hs.inner
    generalize collect read 255 s.discard s.inner = out at hstep
    obtain ⟨result, got, inner⟩ := out
    dsimp only at hstep ⊢
    have hcontent : (view V).den s = skipped s.discard (V.den s.inner) :=
      payload_of_addons hok hheader _
    have hpart : got.length ≤ s.discard → V.den s.inner = (V.den inner).prepend got →
        (view V).den { s with inner := inner, discard := s.discard - got.length } =
          (view V).den s := by
      intro hle hsplit
      rw [hcontent, hsplit, skipped_prepend hle]
      refine payload_of_addons ?_ ?_ _
      · exact hok
      · exact hheader
    have hwf : V.inv inner →
        WellFormed V { s with inner := inner, discard := s.discard - got.length } := fun hinv =>
      ⟨hinv, hs.header_le, fun hr => absurd hr hready⟩
    cases hstep with
    | done ok full split less =>
      refine .ready (hwf ok) ⟨hok, hheader, ?_⟩ (hpart (by omega) split)
        (Nat.le_of_add_right_le less)
      dsimp only
      omega
    | pending ok short split less =>
      exact .pending (hwf ok) (hpart (by omega) split) (Nat.lt_of_add_right_lt less)
    | eof ok short content empty le =>
      refine .error trivial rfl ?_
      rw [hcontent, content]
      exact skipped_of_short short none
    | error own short content =>
      refine .error trivial own ?_
      rw [hcontent, content]
      exact skipped_of_short short _
    | aside ok sending short split le =>
      exact .aside (hwf ok) sending (hpart (by omega) split) (Nat.le_of_add_right_le le)

/-- **`ResponseStream` reads the payload of the answer**, whatever the reads below find. -/
theorem readable (hread : Readable V read) : Readable (view V) (pollRead read) := by
  intro s n hs hn
  unfold pollRead
  rw [if_neg (by omega)]
  cases hok : s.failed with
  | true =>
    refine .error trivial rfl ?_
    simp [view, payload, hok]
  | false =>
    refine (readHeader_spec hread hs hok).andThen fun _ s₁ hwf₁ hpost₁ _ => ?_
    refine (skipAddons_spec hread hwf₁ hpost₁.1 hpost₁.2).andThen fun _ s₂ hwf₂ hpost₂ _ => ?_
    obtain ⟨hok₂, hheader₂, hdiscard⟩ := hpost₂
    have hstep := hread hwf₂.inner hn
    generalize read n s₂.inner = out at hstep
    obtain ⟨r, inner⟩ := out
    -- behind the addons the content is the one below
    have hcontent : ∀ (inner : σ) (ready : Bool),
        (view V).den { s₂ with inner := inner, ready := ready } = V.den inner := by
      intro inner ready
      refine (payload_of_addons hok₂ hheader₂ _).trans ?_
      rw [hdiscard, skipped_zero]
    have hwf : V.inv inner → WellFormed V { s₂ with inner := inner, ready := true } := fun hinv =>
      ⟨hinv, hwf₂.header_le, fun _ => ⟨hheader₂, hdiscard, hok₂⟩⟩
    exact hstep.lift (hcontent s₂.inner s₂.ready) (hcontent inner true) (Nat.add_comm _ _).le hwf
      fun _ => trivial

/-- Behind the answer, the content is the one below. -/
theorem WellFormed.payload_eq (hs : s.WellFormed V) (hready : s.ready = true) (c : Content) :
    s.payload c = c := by
  obtain ⟨hheader, hdiscard, hok⟩ := hs.ready hready
  rw [payload_of_addons hok hheader, hdiscard, skipped_zero]

end ResponseStream

end

/-! ## What reading leaves alone -/

section

namespace ResponseStream

variable {γ : Type} {f : σ → γ} (hread : ∀ n s, f (read n s).2 = f s)
include hread

theorem readHeader_keeps (s : ResponseStream σ) :
    f (s.readHeader read).2.inner = f s.inner ∧ (s.readHeader read).2.ready = s.ready := by
  unfold readHeader
  split
  · exact ⟨rfl, rfl⟩
  · have hkeeps := collect_keeps hread 2 (2 - s.header.length) s.inner
    generalize collect read 2 (2 - s.header.length) s.inner = out at hkeeps
    obtain ⟨result, got, inner⟩ := out
    cases result with
    | done =>
      dsimp only
      split
      · exact ⟨hkeeps, rfl⟩
      · exact ⟨hkeeps, rfl⟩
    | pending | eof | failed => exact ⟨hkeeps, rfl⟩

theorem skipAddons_keeps (s : ResponseStream σ) :
    f (s.skipAddons read).2.inner = f s.inner ∧ (s.skipAddons read).2.ready = s.ready := by
  unfold skipAddons
  split
  · exact ⟨rfl, rfl⟩
  · have hkeeps := collect_keeps hread 255 s.discard s.inner
    generalize collect read 255 s.discard s.inner = out at hkeeps
    obtain ⟨result, got, inner⟩ := out
    cases result with
    | done | pending | eof | failed => exact ⟨hkeeps, rfl⟩

/-- What the reads below keep, reading keeps; and data only comes when the answer is complete. -/
theorem pollRead_keeps (n : Nat) (s : ResponseStream σ) :
    f (s.pollRead read n).2.inner = f s.inner ∧
      (s.ready = true → (s.pollRead read n).2.ready = true) ∧
      ∀ bs, (s.pollRead read n).1 = .ready bs → bs ≠ [] → (s.pollRead read n).2.ready = true := by
  unfold pollRead
  split
  · refine ⟨rfl, fun h => h, fun bs h hne => ?_⟩
    cases h
    exact absurd rfl hne
  split
  · exact ⟨rfl, fun h => h, nofun⟩
  obtain ⟨hinner₁, hready₁⟩ := readHeader_keeps hread s
  generalize s.readHeader read = call₁ at hinner₁ hready₁
  rcases call₁ with ⟨_ | _ | e, s₁⟩
  · exact ⟨hinner₁, hready₁.trans, nofun⟩
  · obtain ⟨hinner₂, hready₂⟩ := skipAddons_keeps hread s₁
    rw [Poll.andThen_ready]
    generalize s₁.skipAddons read = call₂ at hinner₂ hready₂
    have hinner := hinner₂.trans hinner₁
    have hready := hready₂.trans hready₁
    rcases call₂ with ⟨_ | _ | e, s₂⟩
    · exact ⟨hinner, hready.trans, nofun⟩
    · exact ⟨(hread n s₂.inner).trans hinner, fun _ => rfl, fun _ _ _ => rfl⟩
    · exact ⟨hinner, hready.trans, nofun⟩
  · exact ⟨hinner₁, hready₁.trans, nofun⟩

end ResponseStream

end

end Clyntis.Protocol.Vless
