import Clyntis.Protocol.Vision

/-!
# Reading with Vision is decoding

- `decoded`: what a stream in the middle of its work still has to read;
- `readPassed_spec`, `readContent_spec`, `skipPadding_spec`, `fillHeader_spec`, `parse_spec`: what
  each part of `poll_read` does to it;
- `readLoop_spec`: what a whole read does;
- `vision_reads`: whatever the inner reads find and whatever is called in between, the results of
  the reads are those of `decode`, and so is the place where direct reading starts.
-/

namespace Clyntis.Protocol.Vision

open Lib Net Protocol.Vless

/-! ## The decoder in the middle of a frame -/

/-- What follows the header of a frame. -/
def body (content padding : Nat) (command : UInt8) (c : Content) : Decoded :=
  if c.bytes.length < content + padding then cutShort (c.bytes.take content) c.ending
  else
    let rest := c.bytes.drop (content + padding)
    if command = 0 then (frames ⟨rest, c.ending⟩).prepend (c.bytes.take content)
    else ⟨⟨c.bytes.take content ++ rest, c.ending⟩, if command = 2 then some rest else none⟩

theorem Decoded.prepend_prepend (as bs : Bytes) (d : Decoded) :
    (d.prepend bs).prepend as = d.prepend (as ++ bs) := by
  simp [Decoded.prepend]

theorem frames_nil (ending : Option StreamError) : frames ⟨[], ending⟩ = ⟨⟨[], ending⟩, none⟩ := by
  rw [frames, if_pos rfl]

/-- A header with an end in it. -/
theorem frames_of_short {c : Content} (h : c.bytes.length < 5) (hne : c.bytes ≠ []) :
    frames c = cutShort [] c.ending := by
  rw [frames, if_neg hne, dif_pos h]

/-- A frame with its whole header. -/
theorem frames_prepend {h : Bytes} (hlen : h.length = 5) (c : Content) :
    frames (c.prepend h) =
      if 2 < h.getD 0 0 then ⟨⟨[], some (.other "invalid Vision command")⟩, none⟩
      else body (be16 h 1) (be16 h 3) (h.getD 0 0) c := by
  match h, hlen with
  | [a, b₁, b₂, b₃, b₄], _ =>
    rw [frames]
    rfl

variable {bs : Bytes}

/-- Some of a frame's contents. -/
theorem body_prepend {content : Nat} (hlen : bs.length ≤ content) (padding : Nat) (command : UInt8)
    (c : Content) :
    body content padding command (c.prepend bs) =
      (body (content - bs.length) padding command c).prepend bs := by
  have htake : (bs ++ c.bytes).take content = bs ++ c.bytes.take (content - bs.length) := by
    rw [List.take_append, List.take_of_length_le hlen]
  have hdrop : (bs ++ c.bytes).drop (content + padding) =
      c.bytes.drop (content - bs.length + padding) := by
    rw [List.drop_append, List.drop_of_length_le (by omega), List.nil_append]
    congr 1
    omega
  have hlt : bs.length + c.bytes.length < content + padding ↔
      c.bytes.length < content - bs.length + padding := by omega
  unfold body
  simp only [Content.prepend, List.length_append, htake, hdrop, hlt]
  by_cases hshort : c.bytes.length < content - bs.length + padding
  · rw [if_pos hshort, if_pos hshort]
    simp [cutShort, Decoded.prepend]
  · rw [if_neg hshort, if_neg hshort]
    by_cases hcommand : command = 0
    · rw [if_pos hcommand, if_pos hcommand, Decoded.prepend_prepend]
    · rw [if_neg hcommand, if_neg hcommand]
      simp [Decoded.prepend, Content.prepend]

/-- Some of a frame's padding. -/
theorem body_skip {padding : Nat} (hlen : bs.length ≤ padding) (command : UInt8) (c : Content) :
    body 0 padding command (c.prepend bs) = body 0 (padding - bs.length) command c := by
  have hdrop : (bs ++ c.bytes).drop padding = c.bytes.drop (padding - bs.length) := by
    rw [List.drop_append, List.drop_of_length_le hlen, List.nil_append]
  have hlt : bs.length + c.bytes.length < padding ↔ c.bytes.length < padding - bs.length := by
    omega
  unfold body
  simp only [Content.prepend, List.length_append, List.take_zero, Nat.zero_add, hdrop, hlt]

/-- An end inside a frame. -/
theorem body_of_short {content padding : Nat} (h : bs.length < content + padding) (command : UInt8)
    (ending : Option StreamError) :
    body content padding command ⟨bs, ending⟩ = cutShort (bs.take content) ending := if_pos h

/-- Behind a frame without a command. -/
theorem body_zero (c : Content) : body 0 0 0 c = frames c := rfl

/-- Behind a frame with a command. -/
theorem body_of_command {command : UInt8} (h : command ≠ 0) (c : Content) :
    body 0 0 command c = ⟨c, if command = 2 then some c.bytes else none⟩ := by
  unfold body
  rw [if_neg h]
  rfl

/-! ## The view of a reader -/

/-- The stream below as its reader sees it. -/
def innerView : View (ResponseStream RecordStream) :=
  ResponseStream.view (Wire.view.comap RecordStream.wire)

theorem readInner_readable : Readable innerView VisionStream.readInner :=
  ResponseStream.readable fun _ hn =>
    ReadStep.comap (f := RecordStream.wire) (Wire.readable trivial hn)

namespace VisionStream

/-- A stream where a header is due. -/
def opening (s : VisionStream) (c : Content) : Decoded :=
  if s.readFirst then decode s.id.toList c else frames c

/-- What there is to read from the stream. -/
def decoded (s : VisionStream) : Decoded :=
  let c := (innerView.den s.inner).prepend s.readHeader
  if s.readPlain then ⟨c, s.inner.inner.readDirect⟩
  else if s.content = 0 ∧ s.padding = 0 ∧ s.command = 0 then s.opening c
  else body s.content s.padding s.command c

/-- The fields fit together. -/
structure WellFormed (s : VisionStream) : Prop where
  inner : innerView.inv s.inner
  ok : s.failed = false
  started : s.readHeader ≠ [] ∨ s.readFirst = false → s.inner.ready = true
  header_le : s.readPlain = false → s.readHeader.length ≤ s.headerLen
  idle : s.readPlain = false → s.readHeader ≠ [] ∨ s.readFirst = true →
    s.content = 0 ∧ s.padding = 0 ∧ s.command = 0
  direct : s.readPlain = false → s.inner.inner.readDirect = none

/-- The stream as its reader sees it; direct reading starts at `direct`. -/
def view (direct : Option Bytes) : View VisionStream where
  inv s := s.WellFormed ∧ s.decoded.direct = direct
  den s := s.decoded.content
  left s := innerView.left s.inner + s.readHeader.length
  fin s := s.inner.inner.readDirect = direct

variable {direct : Option Bytes}

section Parts

variable {s : VisionStream} {n : Nat}

/-- A header with an end in it. -/
theorem opening_of_short {bytes : Bytes} (h : bytes.length < s.headerLen)
    (ending : Option StreamError) :
    s.opening ⟨bytes, ending⟩ =
      if bytes = [] then ⟨⟨[], ending⟩, none⟩ else cutShort [] ending := by
  by_cases hempty : bytes = []
  · rw [if_pos hempty, hempty, opening, decode, if_pos rfl, frames_nil, ite_self]
  · rw [if_neg hempty]
    unfold opening headerLen at *
    cases hfirst : s.readFirst with
    | true =>
      rw [hfirst, if_pos rfl] at h
      rw [if_pos rfl, decode, if_neg hempty, if_pos h]
    | false =>
      rw [hfirst] at h
      rw [if_neg (by decide), frames_of_short h hempty]

theorem decoded_of_plain (h : s.readPlain = true) :
    s.decoded = ⟨(innerView.den s.inner).prepend s.readHeader, s.inner.inner.readDirect⟩ := if_pos h

theorem decoded_of_idle (h : s.readPlain = false)
    (hidle : s.content = 0 ∧ s.padding = 0 ∧ s.command = 0) :
    s.decoded = s.opening ((innerView.den s.inner).prepend s.readHeader) := by
  unfold decoded
  rw [if_neg (by simp [h]), if_pos hidle]

/-- In a frame, or behind one. -/
theorem decoded_of_body (h : s.readPlain = false) (hheader : s.readHeader = [])
    (hfirst : s.readFirst = false) :
    s.decoded = body s.content s.padding s.command (innerView.den s.inner) := by
  unfold decoded
  rw [if_neg (by simp [h]), hheader, Content.prepend_nil]
  by_cases hidle : s.content = 0 ∧ s.padding = 0 ∧ s.command = 0
  · obtain ⟨hcontent, hpadding, hcommand⟩ := hidle
    rw [if_pos ⟨hcontent, hpadding, hcommand⟩, hcontent, hpadding, hcommand, body_zero, opening,
      if_neg (by simp [hfirst])]
  · rw [if_neg hidle]

/-- In a frame, no header is due. -/
theorem WellFormed.of_busy (hs : s.WellFormed) (hplain : s.readPlain = false)
    (hbusy : ¬ (s.content = 0 ∧ s.padding = 0 ∧ s.command = 0)) :
    s.readHeader = [] ∧ s.readFirst = false := by
  constructor
  · by_contra hne
    exact hbusy (hs.idle hplain (.inl hne))
  · cases hfirst : s.readFirst with
    | false => rfl
    | true => exact absurd (hs.idle hplain (.inr hfirst)) hbusy

/-- A stream in a frame. -/
theorem WellFormed.of_body (hinner : innerView.inv s.inner) (hok : s.failed = false)
    (hready : s.inner.ready = true) (hheader : s.readHeader = []) (hfirst : s.readFirst = false)
    (hdirect : s.inner.inner.readDirect = none) : s.WellFormed := by
  refine ⟨hinner, hok, fun _ => hready, fun _ => ?_, fun _ h => ?_, fun _ => hdirect⟩
  · rw [hheader]
    exact Nat.zero_le _
  · rcases h with h | h
    · exact absurd hheader h
    · exact absurd h (by simp [hfirst])

/-- An end in a header or in a frame. -/
theorem end_of_cut {ending : Option StreamError} (hs : (view direct).inv s)
    (hcut : s.decoded = cutShort [] ending) {read : Option Bytes} (hnone : read = none) :
    read = direct ∧ (view direct).den s = ⟨[], some (ending.getD .unexpectedEof)⟩ := by
  refine ⟨hnone.trans ?_, congrArg Decoded.content hcut⟩
  rw [← hs.2, hcut]
  rfl

/-- What reads from the stream below keep. -/
theorem readInner_keeps (n : Nat) (r : ResponseStream RecordStream) :
    (readInner n r).2.inner.readDirect = r.inner.readDirect ∧
      (r.ready = true → (readInner n r).2.ready = true) ∧
      ∀ bs, (readInner n r).1 = .ready bs → bs ≠ [] → (readInner n r).2.ready = true :=
  ResponseStream.pollRead_keeps (f := RecordStream.readDirect) (fun _ _ => rfl) n r

theorem collectInner_keeps (cap need : Nat) (r : ResponseStream RecordStream) :
    (collect readInner cap need r).2.2.inner.readDirect = r.inner.readDirect ∧
      (r.ready = true ∨ (collect readInner cap need r).2.1 ≠ [] →
        (collect readInner cap need r).2.2.ready = true) :=
  ⟨collect_keeps (f := fun r => r.inner.readDirect) (fun n r => (readInner_keeps n r).1) cap need r,
    collect_started (fun n r => (readInner_keeps n r).2.1) (fun n r => (readInner_keeps n r).2.2)
      cap need r⟩

variable (hs : (view direct).inv s)
include hs

/-- Reading behind the frames. -/
theorem readPassed_spec (hplain : s.readPlain = true) (hn : 0 < n) :
    ReadStep (view direct) n s (s.readPassed n).1 (s.readPassed n).2 := by
  obtain ⟨hwf, hdirect⟩ := hs
  rw [decoded_of_plain hplain] at hdirect
  unfold readPassed
  by_cases hheader : s.readHeader = []
  · rw [if_neg (not_not.mpr hheader)]
    have hstep := readInner_readable hwf.inner hn
    obtain ⟨hkeep, hready, -⟩ := readInner_keeps n s.inner
    generalize readInner n s.inner = out at hstep hkeep hready
    obtain ⟨r, inner⟩ := out
    -- the content is the one below, now and then
    have hden : ∀ inner, (view direct).den { s with inner := inner } = innerView.den inner := by
      simp [view, decoded, hplain, hheader]
    refine hstep.lift (hden s.inner) (hden inner) ?_ (fun hok => ?_) fun _ => hkeep.trans hdirect
    · simp only [view]
      omega
    refine ⟨⟨hok, hwf.ok, fun h => hready (hwf.started h), hwf.header_le, hwf.idle, fun h =>
      hkeep.trans (hwf.direct h)⟩, ?_⟩
    simpa [decoded, hplain] using hkeep.trans hdirect
  · rw [if_pos hheader]
    refine .data ⟨⟨hwf.inner, hwf.ok, fun _ => hwf.started (.inl hheader), ?_, ?_, hwf.direct⟩, ?_⟩
      ?_ (List.length_take_le _ _) ?_ ?_
    · intro h
      rw [hplain] at h
      cases h
    · intro h
      rw [hplain] at h
      cases h
    · simpa [decoded, hplain] using hdirect
    · rw [ne_eq, List.take_eq_nil_iff]
      exact not_or.mpr ⟨by omega, hheader⟩
    · simp [view, decoded, hplain]
    · simp only [view, List.length_drop, List.length_take]
      omega

variable (hplain : s.readPlain = false)
include hplain

/-- Reading the contents of a frame. -/
theorem readContent_spec (hcontent : 0 < s.content) (hn : 0 < n) :
    ReadStep (view direct) n s (s.readContent n).1 (s.readContent n).2 := by
  obtain ⟨hheader, hfirst⟩ := hs.1.of_busy hplain (by omega)
  have hdecoded := decoded_of_body hplain hheader hfirst
  unfold readContent
  have hstep := readInner_readable hs.1.inner (show 0 < min n s.content by omega)
  obtain ⟨hkeep, hready, -⟩ := readInner_keeps (min n s.content) s.inner
  replace hkeep := hkeep.trans (hs.1.direct hplain)
  replace hready := hready (hs.1.started (.inr hfirst))
  generalize readInner (min n s.content) s.inner = out at hstep hkeep hready
  obtain ⟨r, inner⟩ := out
  dsimp only at hstep hkeep hready ⊢
  -- with some bytes of the content read
  have hread : ∀ (bs : Bytes) (sniff : InnerTls), innerView.inv inner → bs.length ≤ s.content →
      innerView.den s.inner = (innerView.den inner).prepend bs →
      let s' := { s with inner := inner, content := s.content - bs.length, sniff := sniff }
      (view direct).inv s' ∧ (view direct).den s = ((view direct).den s').prepend bs := by
    intro bs sniff hok hlen hsplit s'
    have hthen : s'.decoded =
        body (s.content - bs.length) s.padding s.command (innerView.den inner) :=
      decoded_of_body hplain hheader hfirst
    have hsame : s.decoded = s'.decoded.prepend bs := by
      rw [hdecoded, hsplit, body_prepend hlen, hthen]
    refine ⟨⟨.of_body hok hs.1.ok hready hheader hfirst hkeep, ?_⟩, congrArg Decoded.content hsame⟩
    rw [← hs.2, hsame]
    rfl
  -- an end or an error in it
  have hcut : ∀ ending, innerView.den s.inner = ⟨[], ending⟩ → s.decoded = cutShort [] ending := by
    intro ending h
    rw [hdecoded, h, body_of_short (by simp; omega), List.take_nil]
  cases hstep with
  | pending ok same less =>
    obtain ⟨hinv, hsame⟩ := hread [] s.sniff ok (Nat.zero_le _) same.symm
    exact .pending hinv hsame.symm (Nat.add_lt_add_right less _)
  | @data _ bs ok some room split less =>
    rw [Poll.andThen_ready, if_neg some]
    obtain ⟨hinv, hsame⟩ := hread bs _ ok (by omega) split
    refine .data hinv some (by omega) hsame ?_
    simp only [view]
    omega
  | eof ok done empty same le =>
    obtain ⟨hfin, hden⟩ := end_of_cut hs (hcut none empty) hkeep
    exact .error hfin rfl hden
  | error done own empty =>
    obtain ⟨hfin, hden⟩ := end_of_cut hs (hcut _ empty) hkeep
    exact .error hfin own hden
  | aside ok sending same le =>
    obtain ⟨hinv, hsame⟩ := hread [] s.sniff ok (Nat.zero_le _) same.symm
    exact .aside hinv sending hsame.symm (Nat.add_le_add_right le _)

/-- Skipping the padding of a frame. -/
theorem skipPadding_spec (hcontent : s.content = 0) :
    Phase (view direct) (fun _ s => s.readPlain = false ∧ s.content = 0 ∧ s.padding = 0) s
      s.skipPadding.1 s.skipPadding.2 := by
  by_cases hpadding : s.padding = 0
  · have heq : s.skipPadding = (.ready (), s) := by
      have hnothing : collect readInner 2048 s.padding s.inner = (.done, [], s.inner) := by
        rw [hpadding]
        rfl
      unfold skipPadding
      rw [hnothing]
      rfl
    rw [heq]
    exact .ready hs ⟨hplain, hcontent, hpadding⟩ rfl le_rfl
  obtain ⟨hheader, hfirst⟩ := hs.1.of_busy hplain (by omega)
  have hdecoded := decoded_of_body hplain hheader hfirst
  rw [hcontent] at hdecoded
  unfold skipPadding
  have hstep := collect_spec readInner_readable (show 0 < 2048 by decide) s.padding hs.1.inner
  obtain ⟨hkeep, hready⟩ := collectInner_keeps 2048 s.padding s.inner
  replace hkeep := hkeep.trans (hs.1.direct hplain)
  replace hready := hready (.inl (hs.1.started (.inr hfirst)))
  generalize collect readInner 2048 s.padding s.inner = out at hstep hkeep hready
  obtain ⟨result, got, inner⟩ := out
  dsimp only at hstep hkeep hready ⊢
  have hskip : innerView.inv inner → got.length ≤ s.padding →
      innerView.den s.inner = (innerView.den inner).prepend got →
      let s' := { s with inner := inner, padding := s.padding - got.length }
      (view direct).inv s' ∧ (view direct).den s' = (view direct).den s := by
    intro hok hlen hsplit s'
    have hsame : s'.decoded = s.decoded := by
      rw [hdecoded, hsplit, body_skip hlen, ← hcontent]
      exact decoded_of_body hplain hheader hfirst
    refine ⟨⟨.of_body hok hs.1.ok hready hheader hfirst hkeep, ?_⟩, congrArg Decoded.content hsame⟩
    rw [hsame]
    exact hs.2
  -- an end or an error in the padding
  have hcut : ∀ ending, got.length < s.padding → innerView.den s.inner = ⟨got, ending⟩ →
      s.decoded = cutShort [] ending := by
    intro ending hlen h
    rw [hdecoded, h, body_of_short (by omega), List.take_zero]
  cases hstep with
  | done ok full split less =>
    obtain ⟨hinv, hsame⟩ := hskip ok full.le split
    refine .ready hinv ⟨hplain, hcontent, ?_⟩ hsame (Nat.add_le_add_right ?_ _)
    · dsimp only
      omega
    · dsimp only
      omega
  | pending ok short split less =>
    obtain ⟨hinv, hsame⟩ := hskip ok short.le split
    refine .pending hinv hsame (Nat.add_lt_add_right ?_ _)
    dsimp only
    omega
  | eof ok short content empty le =>
    obtain ⟨hfin, hden⟩ := end_of_cut hs (hcut none short content) hkeep
    exact .error hfin rfl hden
  | error own short content =>
    obtain ⟨hfin, hden⟩ := end_of_cut hs (hcut _ short content) hkeep
    exact .error hfin own hden
  | aside ok sending short split le =>
    obtain ⟨hinv, hsame⟩ := hskip ok short.le split
    refine .aside hinv sending hsame (Nat.add_le_add_right ?_ _)
    dsimp only
    omega

/-- Behind a frame with a command the rest passes through, directly if the command says so. -/
theorem startPassing_spec
    (hcontent : s.content = 0) (hpadding : s.padding = 0) (hcommand : s.command ≠ 0) :
    (view direct).inv s.startPassing ∧ s.startPassing.readPlain = true ∧
      (view direct).den s.startPassing = (view direct).den s ∧
      (view direct).left s.startPassing = (view direct).left s := by
  obtain ⟨hwf, hdirect⟩ := hs
  obtain ⟨hheader, hfirst⟩ := hwf.of_busy hplain fun h => hcommand h.2.2
  have hdecoded := decoded_of_body hplain hheader hfirst
  rw [hcontent, hpadding, body_of_command hcommand] at hdecoded
  have hstarted := hwf.started (.inr hfirst)
  -- the answer is complete, so what is left of the payload is what is left on the wire
  have hden : innerView.den s.inner = ⟨s.inner.inner.wire.input, none⟩ :=
    hwf.inner.payload_eq hstarted _
  rw [hden] at hdecoded
  have hbytes : s.decoded.content = ⟨s.inner.inner.wire.input, none⟩ := by rw [hdecoded]
  rw [hdecoded] at hdirect
  have hnone := hwf.direct hplain
  unfold startPassing
  by_cases htwo : s.command = 2
  · rw [if_pos htwo] at hdirect ⊢
    refine ⟨⟨⟨⟨trivial, hwf.inner.header_le, hwf.inner.ready⟩, hwf.ok, fun _ => hstarted, nofun,
      nofun, nofun⟩, ?_⟩, rfl, ?_, rfl⟩
    · exact hdirect
    · show (decoded _).content = s.decoded.content
      rw [hbytes, hheader]
      exact hden
  · rw [if_neg htwo] at hdirect ⊢
    refine ⟨⟨⟨hwf.inner, hwf.ok, fun _ => hstarted, nofun, nofun, nofun⟩, ?_⟩, rfl, ?_, rfl⟩
    · exact hnone.trans hdirect
    · show (decoded _).content = s.decoded.content
      rw [hbytes, hheader]
      exact hden

/-- Filling the header. -/
theorem fillHeader_spec (hidle : s.content = 0 ∧ s.padding = 0 ∧ s.command = 0) :
    Phase (view direct) (fun more s => s.readPlain = false ∧
      (s.content = 0 ∧ s.padding = 0 ∧ s.command = 0) ∧
      if more then s.readHeader.length = s.headerLen else s.decoded = ⟨⟨[], none⟩, none⟩) s
      s.fillHeader.1 s.fillHeader.2 := by
  have hdecoded := decoded_of_idle hplain hidle
  have hle := hs.1.header_le hplain
  have hlen : 0 < s.headerLen := by
    unfold headerLen
    split
    · decide
    · decide
  unfold fillHeader
  have hstep := collect_spec readInner_readable hlen (s.headerLen - s.readHeader.length) hs.1.inner
  obtain ⟨hkeep, hready⟩ :=
    collectInner_keeps s.headerLen (s.headerLen - s.readHeader.length) s.inner
  replace hkeep := hkeep.trans (hs.1.direct hplain)
  generalize collect readInner s.headerLen (s.headerLen - s.readHeader.length) s.inner = out
    at hstep hkeep hready
  obtain ⟨result, got, inner⟩ := out
  dsimp only at hstep hkeep hready ⊢
  have hlength : (s.readHeader ++ got).length = s.readHeader.length + got.length :=
    List.length_append
  have hfill : innerView.inv inner → got.length ≤ s.headerLen - s.readHeader.length →
      innerView.den s.inner = (innerView.den inner).prepend got →
      let s' := { s with inner := inner, readHeader := s.readHeader ++ got }
      (view direct).inv s' ∧ s'.decoded = s.decoded := by
    intro hok hgot hsplit s'
    have hsame : s'.decoded = s.decoded := by
      rw [hdecoded, hsplit, Content.prepend_prepend]
      exact decoded_of_idle hplain hidle
    refine ⟨⟨⟨hok, hs.1.ok, fun h => hready ?_, fun _ => hlength.trans_le ?_, fun _ _ => hidle,
      fun _ => hkeep⟩, by rw [hsame]; exact hs.2⟩, hsame⟩
    · rcases h with h | h
      · by_cases hheader : s.readHeader = []
        · exact .inr (by simpa [s', hheader] using h)
        · exact .inl (hs.1.started (.inl hheader))
      · exact .inl (hs.1.started (.inr h))
    · show _ ≤ s.headerLen
      omega
  -- an end or an error in the header
  have hcut : ∀ ending, got.length < s.headerLen - s.readHeader.length →
      innerView.den s.inner = ⟨got, ending⟩ → s.decoded =
        if s.readHeader ++ got = [] then ⟨⟨[], ending⟩, none⟩ else cutShort [] ending := by
    intro ending hshort h
    rw [hdecoded, h]
    exact opening_of_short (by dsimp only; omega) ending
  cases hstep with
  | done ok full split less =>
    obtain ⟨hinv, hsame⟩ := hfill ok full.le split
    refine .ready hinv ⟨hplain, hidle, ?_⟩ (congrArg Decoded.content hsame) ?_
    · rw [hlength]
      show _ = s.headerLen
      omega
    · simp only [view]
      omega
  | pending ok short split less =>
    obtain ⟨hinv, hsame⟩ := hfill ok short.le split
    refine .pending hinv (congrArg Decoded.content hsame) ?_
    simp only [view]
    omega
  | eof ok short content empty le =>
    have hcut := hcut none short content
    by_cases hempty : s.readHeader ++ got = []
    · rw [if_pos hempty] at hcut ⊢
      obtain ⟨hinv, hsame⟩ := hfill ok short.le
        (by rw [content, empty, Content.prepend, List.append_nil])
      refine .ready hinv ⟨hplain, hidle, ?_⟩ (congrArg Decoded.content hsame) ?_
      · rw [if_neg (by decide), hsame, hcut]
      · simp only [view]
        omega
    · rw [if_neg hempty] at hcut ⊢
      obtain ⟨hfin, hden⟩ := end_of_cut hs hcut hkeep
      exact .error hfin rfl hden
  | @error _ _ e own short content =>
    have hend : s.decoded = cutShort [] (some e) := by
      rw [hcut (some e) short content]
      exact ite_self _
    obtain ⟨hfin, hden⟩ := end_of_cut hs hend hkeep
    exact .error hfin own hden
  | aside ok sending short split le =>
    obtain ⟨hinv, hsame⟩ := hfill ok short.le split
    refine .aside hinv sending (congrArg Decoded.content hsame) ?_
    simp only [view]
    omega

omit hplain

omit hs

/-- What follows a whole first header. -/
theorem decode_prepend {id header : Bytes} (hlen : header.length = 21) (c : Content) :
    decode id (c.prepend header) = if header.take 16 ≠ id then ⟨c.prepend header, none⟩
      else frames (c.prepend (header.drop 16)) := by
  have hlong : 21 ≤ (c.prepend header).bytes.length := by
    rw [Content.prepend, List.length_append]
    omega
  rw [decode, if_neg (List.ne_nil_of_length_pos (by omega)), if_neg (by omega), Content.prepend,
    List.take_append_of_le_length (by omega), List.drop_append_of_le_length (by omega)]
  rfl

/-- A first header without the user's id. -/
theorem opening_of_foreign (h : s.foreign) (hlen : s.readHeader.length = s.headerLen)
    (c : Content) :
    s.opening (c.prepend s.readHeader) = ⟨c.prepend s.readHeader, none⟩ := by
  rw [headerLen, if_pos h.1] at hlen
  rw [opening, if_pos h.1, decode_prepend hlen, if_pos h.2]

/-- A header of a frame. -/
theorem opening_of_own (h : ¬ s.foreign) (hlen : s.readHeader.length = s.headerLen) (c : Content) :
    s.frameHeader.length = 5 ∧
      s.opening (c.prepend s.readHeader) = frames (c.prepend s.frameHeader) := by
  unfold opening frameHeader
  cases hfirst : s.readFirst with
  | true =>
    rw [headerLen, if_pos hfirst] at hlen
    have hid : s.readHeader.take 16 = s.id.toList := by
      by_contra hne
      exact h ⟨hfirst, hne⟩
    rw [if_pos rfl, if_pos rfl]
    refine ⟨by rw [List.length_drop]; omega, ?_⟩
    rw [decode_prepend hlen, if_neg (not_not.mpr hid)]
  | false =>
    rw [headerLen, if_neg (by simp [hfirst])] at hlen
    exact ⟨hlen, rfl⟩

variable (hs : (view direct).inv s)
include hs

/-- Without the user's id all passes through. -/
theorem passForeign_spec (hplain : s.readPlain = false)
    (hidle : s.content = 0 ∧ s.padding = 0 ∧ s.command = 0)
    (hlen : s.readHeader.length = s.headerLen) (h : s.foreign) :
    (view direct).inv { s with readFirst := false, readPlain := true } ∧
      (view direct).den { s with readFirst := false, readPlain := true } = (view direct).den s := by
  obtain ⟨hwf, hdirect⟩ := hs
  have hpos : 0 < s.readHeader.length := by
    rw [hlen, headerLen, if_pos h.1]
    decide
  have hstarted := hwf.started (.inl (List.ne_nil_of_length_pos hpos))
  have hsame : decoded { s with readFirst := false, readPlain := true } = s.decoded := by
    rw [decoded_of_idle hplain hidle, opening_of_foreign h hlen, ← hwf.direct hplain]
    rfl
  refine ⟨⟨⟨hwf.inner, hwf.ok, fun _ => hstarted, nofun, nofun, nofun⟩, ?_⟩,
    congrArg Decoded.content hsame⟩
  rw [hsame]
  exact hdirect

/-- Starting on a frame. -/
theorem startFrame_spec (hplain : s.readPlain = false)
    (hidle : s.content = 0 ∧ s.padding = 0 ∧ s.command = 0)
    (hlen : s.readHeader.length = s.headerLen) (hown : ¬ s.foreign)
    (hcommand : ¬ 2 < s.frameHeader.getD 0 0) :
    (view direct).inv s.startFrame ∧ (view direct).den s.startFrame = (view direct).den s ∧
      (view direct).left s.startFrame < (view direct).left s := by
  obtain ⟨hwf, hdirect⟩ := hs
  obtain ⟨hlen₅, hopening⟩ := opening_of_own hown hlen (innerView.den s.inner)
  have hpos : 0 < s.readHeader.length := by
    have hle : s.frameHeader.length ≤ s.readHeader.length := by
      rw [frameHeader, List.length_drop]
      omega
    omega
  have hstarted := hwf.started (.inl (List.ne_nil_of_length_pos hpos))
  have hsame : s.startFrame.decoded = s.decoded := by
    have hthen : s.startFrame.decoded = body (be16 s.frameHeader 1) (be16 s.frameHeader 3)
        (s.frameHeader.getD 0 0) (innerView.den s.inner) := decoded_of_body hplain rfl rfl
    rw [hthen, decoded_of_idle hplain hidle, hopening, frames_prepend hlen₅, if_neg hcommand]
  refine ⟨⟨.of_body hwf.inner hwf.ok hstarted rfl rfl (hwf.direct hplain),
    by rw [hsame]; exact hdirect⟩, congrArg Decoded.content hsame, Nat.add_lt_add_left hpos _⟩

/-- A turn of the loop ends the read, or goes on with one frame less. -/
theorem turn_spec (hn : 0 < n) (frames : Nat)
    (hnext : ∀ s₀ s₁, (view direct).inv s₁ → (view direct).den s₁ = (view direct).den s₀ →
      (view direct).left s₁ < (view direct).left s₀ →
      ReadStep (view direct) n s₀ (readLoop n frames s₁).1 (readLoop n frames s₁).2) :
    ReadStep (view direct) n s (readLoop n (frames + 1) s).1 (readLoop n (frames + 1) s).2 := by
  unfold readLoop
  cases hplain : s.readPlain with
  | true =>
    exact readPassed_spec hs hplain hn
  | false =>
    by_cases hcontent : 0 < s.content
    · rw [if_pos hcontent]
      exact readContent_spec hs hplain hcontent hn
    rw [if_neg hcontent]
    refine (skipPadding_spec hs hplain (by omega)).andThen fun _ s₁ hs₁ hpost₁ _ => ?_
    obtain ⟨hplain₁, hcontent₁, hpadding₁⟩ := hpost₁
    by_cases hcommand : s₁.command = 0
    · rw [if_neg (not_not.mpr hcommand)]
      refine (fillHeader_spec hs₁ hplain₁ ⟨hcontent₁, hpadding₁, hcommand⟩).andThen
        fun more s₂ hs₂ hpost₂ _ => ?_
      obtain ⟨hplain₂, hidle₂, hmore⟩ := hpost₂
      have hnone := hs₂.1.direct hplain₂
      cases more with
      | false =>
        have hend : s₂.decoded.direct = none := by rw [hmore]
        refine .eof hs₂ (hnone.trans (hend.symm.trans hs₂.2)) ?_ rfl le_rfl
        exact congrArg Decoded.content hmore
      | true =>
        by_cases hforeign : s₂.foreign
        · rw [if_pos hforeign]
          obtain ⟨hs₃, hsame₃⟩ := passForeign_spec hs₂ hplain₂ hidle₂ hmore hforeign
          exact (readPassed_spec hs₃ rfl hn).of_same hsame₃ le_rfl
        rw [if_neg hforeign]
        by_cases hinvalid : 2 < s₂.frameHeader.getD 0 0
        · rw [if_pos hinvalid]
          obtain ⟨hlen₅, hopening⟩ := opening_of_own hforeign hmore (innerView.den s₂.inner)
          have hend : s₂.decoded =
              ⟨⟨[], some (.other "invalid Vision command")⟩, none⟩ := by
            rw [decoded_of_idle hplain₂ hidle₂, hopening, frames_prepend hlen₅, if_pos hinvalid]
          refine .error (hnone.trans ?_) rfl (congrArg Decoded.content hend)
          rw [← hs₂.2, hend]
        · rw [if_neg hinvalid]
          obtain ⟨hs₃, hsame₃, hless₃⟩ :=
            startFrame_spec hs₂ hplain₂ hidle₂ hmore hforeign hinvalid
          exact hnext s₂ _ hs₃ hsame₃ hless₃
    · rw [if_pos hcommand]
      obtain ⟨hs₂, hplain₂, hsame₂, hleft₂⟩ :=
        startPassing_spec hs₁ hplain₁ hcontent₁ hpadding₁ hcommand
      exact (readPassed_spec hs₂ hplain₂ hn).of_same hsame₂ hleft₂.le

/-- **A read.** It returns when it has data, when the stream ends and when it has to wait; and it
waits after so many frames, having used them up. -/
theorem readLoop_spec (hn : 0 < n) (frames : Nat) :
    ReadStep (view direct) n s (readLoop n (frames + 1) s).1 (readLoop n (frames + 1) s).2 := by
  induction frames generalizing s with
  | zero => exact turn_spec hs hn 0 fun s₀ s₁ hinv hsame hless => .pending hinv hsame hless
  | succ frames ih =>
    exact turn_spec hs hn (frames + 1) fun s₀ s₁ hinv hsame hless =>
      (ih hinv).of_same hsame hless.le

end Parts

/-! ## Calls in between -/

/-- The stream below without what was sent on it. -/
def received (r : ResponseStream RecordStream) : ResponseStream RecordStream :=
  { r with inner := { r.inner with wire := { r.inner.wire with writes := [], log := [] } } }

theorem received_pass {α : Type} (all : Nat) (entry : Nat → Sent) (value : Nat → α)
    (r : ResponseStream RecordStream) :
    received (pass (Wire.send all entry value) r).2 = received r := by
  obtain ⟨hinput, hreads⟩ := Wire.send_reading all entry value r.inner.wire
  simp only [received, pass, RecordStream.call, hinput, hreads]

/-- The stream without what concerns sending. -/
def forReader (s : VisionStream) : VisionStream :=
  { s with
    inner := received s.inner, writeFirst := true, writePlain := false, pending := [], written := 0,
    switchWrite := false, sniff := {} }

variable {s : VisionStream}

theorem forReader_inner {inner : ResponseStream RecordStream}
    (h : received inner = received s.inner) :
    forReader { s with inner := inner } = forReader s := by
  simp only [forReader, h]

theorem flushFrame_forReader (s : VisionStream) : s.flushFrame.2.forReader = s.forReader := by
  refine Poll.andThen_keeps (f := forReader) ?_ fun _ s₁ hs₁ => ?_
  · exact forReader_inner
      (drain_keeps (fun bs r => received_pass _ _ _ r) s.pending s.written s.inner)
  · refine Poll.andThen_keeps (f := forReader) ?_ fun _ s₂ hs₂ => ?_
    · exact (forReader_inner (received_pass _ _ _ _)).trans hs₁
    · rw [← hs₂]
      unfold frameSent
      split
      · rfl
      · rfl

theorem pollWrite_forReader (bytes : Bytes) (random : Nat) (s : VisionStream) :
    (s.pollWrite bytes random).2.forReader = s.forReader := by
  refine Poll.andThen_keeps (f := forReader) (flushFrame_forReader s) fun _ s₁ hs₁ => ?_
  rw [← hs₁]
  split
  · exact forReader_inner (received_pass _ _ _ _)
  · split
    · rfl
    · rfl

theorem pollShutdown_forReader (s : VisionStream) : s.pollShutdown.2.forReader = s.forReader := by
  refine Poll.andThen_keeps (f := forReader) (flushFrame_forReader s) fun _ s₁ hs₁ => ?_
  rw [← hs₁]
  exact forReader_inner (received_pass _ _ _ _)

theorem inv_forReader : (view direct).inv s.forReader ↔ (view direct).inv s := by
  constructor <;>
  · rintro ⟨⟨⟨h₁, h₂, h₃⟩, h₄, h₅, h₆, h₇, h₈⟩, h₉⟩
    exact ⟨⟨⟨h₁, h₂, h₃⟩, h₄, h₅, h₆, h₇, h₈⟩, h₉⟩

/-- What only concerns sending leaves what there is to read alone. -/
theorem keepsReading {s' : VisionStream} (hs : (view direct).inv s)
    (h : s'.forReader = s.forReader) : KeepsReading (view direct) s s' := by
  have hinv : (view direct).inv s'.forReader := h ▸ inv_forReader.mpr hs
  have hden : (view direct).den s'.forReader = (view direct).den s.forReader := by rw [h]
  have hleft : (view direct).left s'.forReader = (view direct).left s.forReader := by rw [h]
  exact ⟨inv_forReader.mp hinv, hden, hleft.le⟩

/-- A read, with what it sends first. -/
theorem pollRead_spec {n : Nat} (hs : (view direct).inv s) (hn : 0 < n) :
    ReadStep (view direct) n s (s.pollRead n).1 (s.pollRead n).2 := by
  unfold pollRead
  rw [if_neg (by omega), if_neg (by simp [hs.1.ok])]
  obtain ⟨hinv, hsame, hle⟩ := keepsReading hs (flushFrame_forReader s)
  have hfailed : ∀ e, s.flushFrame.1 = .failed e → e.sending = true := fun e h =>
    flushFrame_failed h
  generalize s.flushFrame = out at hinv hsame hle hfailed
  rcases out with ⟨_ | _ | e, s₁⟩
  · exact (readLoop_spec hinv hn 63).of_same hsame hle
  · exact (readLoop_spec hinv hn 63).of_same hsame hle
  · exact .aside hinv (hfailed e rfl) hsame hle

end VisionStream

open VisionStream

/-- A call that reads. -/
def Op.reads : Op → Bool
  | .read n => decide (0 < n)
  | _ => false

/-- The result of a call, if it reads. -/
def readStep (s : VisionStream) (op : Op) : Option (Poll Bytes) × VisionStream :=
  match (step s op).1 with
  | .read r => (if op.reads then some r else none, (step s op).2)
  | _ => (none, (step s op).2)

theorem inv_framed (wire : Wire) (id : Vector UInt8 16) :
    (view (framed { wire := wire } id).decoded.direct).inv (framed { wire := wire } id) := by
  refine ⟨⟨⟨trivial, Nat.zero_le _, nofun⟩, rfl, fun h => ?_, fun _ => Nat.zero_le _,
    fun _ _ => ⟨rfl, rfl, rfl⟩, fun _ => rfl⟩, rfl⟩
  rcases h with h | h
  · exact absurd rfl h
  · cases h

theorem readStep_spec {direct : Option Bytes} (s : VisionStream) (op : Op)
    (hs : (view direct).inv s) : CallStep (view direct) op.reads s (readStep s op) := by
  cases op with
  | read n =>
    by_cases hn : 0 < n
    · have hreads : Op.reads (.read n) = true := decide_eq_true hn
      simp only [readStep, hreads]
      exact ⟨rfl, n, pollRead_spec hs hn⟩
    · obtain rfl : n = 0 := by omega
      exact ⟨rfl, hs, rfl, le_rfl⟩
  | write bytes random => exact ⟨rfl, keepsReading hs (pollWrite_forReader bytes random s)⟩
  | flush => exact ⟨rfl, keepsReading hs (flushFrame_forReader s)⟩
  | shutdown => exact ⟨rfl, keepsReading hs (pollShutdown_forReader s)⟩

end Clyntis.Protocol.Vision
