import Clyntis.Protocol.VisionRead

/-!
# Writing with Vision and decoding it

- `Emission`: what a stream has been given to send, as frames and what follows them;
- `Emission.decode_bytes`: the decoder takes it back;
- `Sending`: a stream sends an emission. It may not have written all of it yet;
- `flushFrame_sending`, `pollWrite_sending`, `pollRead_sending`, `pollShutdown_sending`: what each
  call does to it;
- `vision_writes`: whatever the inner writes do and whatever is called in between, the bytes written
  and those still waiting decode to the bytes that were accepted, and direct writing starts behind
  the frame that says so.
-/

namespace Clyntis.Protocol.Vision

open Lib Net Protocol.Vless Option

/-! ## Frames and their bytes -/

variable (f : Frame)

/-- The lengths fit into 16 bits. -/
def Frame.Fits : Prop := f.content.length < 65536 ∧ f.padding < 65536

/-- The first five bytes of a frame. -/
def Frame.header : Bytes :=
  f.command :: (beBytes 2 f.content.length ++ beBytes 2 f.padding)

theorem Frame.bytes_eq :
    f.bytes = f.header ++ (f.content ++ List.replicate f.padding 0) := by
  simp [Frame.bytes, Frame.header]

theorem Frame.header_length : f.header.length = 5 := by
  simp [Frame.header]

variable {f : Frame} {id : Bytes} {before : List Sent}

/-- What the header says. -/
theorem Frame.header_fields (h : f.Fits) :
    f.header.getD 0 0 = f.command ∧ be16 f.header 1 = f.content.length ∧
      be16 f.header 3 = f.padding := by
  have htake₁ : (f.header.drop 1).take 2 = beBytes 2 f.content.length := by simp [Frame.header]
  have htake₃ : (f.header.drop 3).take 2 = beBytes 2 f.padding := by simp [Frame.header]
  refine ⟨rfl, ?_, ?_⟩
  · rw [be16, htake₁, beNat_beBytes]
    exact Nat.mod_eq_of_lt h.1
  · rw [be16, htake₃, beNat_beBytes]
    exact Nat.mod_eq_of_lt h.2

/-- The decoder takes a frame. -/
theorem frames_append (h : f.Fits) (hcommand : ¬ 2 < f.command) (rest : Bytes) :
    frames ⟨f.bytes ++ rest, none⟩ = (body 0 0 f.command ⟨rest, none⟩).prepend f.content := by
  obtain ⟨hget, hcontent, hpadding⟩ := f.header_fields h
  have hsplit : (⟨f.bytes ++ rest, none⟩ : Content) =
      (((Content.mk rest none).prepend (List.replicate f.padding 0)).prepend f.content).prepend
        f.header := by
    simp [Content.prepend, f.bytes_eq]
  rw [hsplit, frames_prepend f.header_length, hget, if_neg hcommand, hcontent, hpadding,
    body_prepend le_rfl, Nat.sub_self, body_skip (by simp), List.length_replicate, Nat.sub_self]

/-! ## What a stream sends -/

/-- What a stream has been given to send: frames without a command, then one with a command, then
bytes as they are. -/
structure Emission where
  padded : List Frame := []
  last : Option Frame := none
  plain : Bytes := []

variable {e : Emission}

namespace Emission

def frames (e : Emission) : List Frame := e.padded ++ e.last.toList

/-- The frames, with the user's id in front. -/
def framed (id : Bytes) (e : Emission) : Bytes :=
  if e.frames = [] then [] else id ++ e.frames.flatMap Frame.bytes

def bytes (id : Bytes) (e : Emission) : Bytes := e.framed id ++ e.plain

def contents (e : Emission) : Bytes := e.frames.flatMap Frame.content ++ e.plain

structure WellFormed (e : Emission) : Prop where
  fits : ∀ f ∈ e.frames, f.Fits
  padded : ∀ f ∈ e.padded, f.command = 0
  last : ∀ f ∈ e.last, f.command ≠ 0 ∧ ¬ 2 < f.command
  plain : e.last = none → e.plain = []

theorem WellFormed.plain_eq_nil (h : e.WellFormed) (hframes : e.frames = []) : e.plain = [] := by
  have hnil := (List.append_eq_nil_iff.mp hframes).2
  exact h.plain (toList_eq_nil_iff.mp hnil)

/-- The decoder takes frames without a command. -/
theorem frames_padded {fs : List Frame} (hfits : ∀ f ∈ fs, f.Fits)
    (hzero : ∀ f ∈ fs, f.command = 0) (rest : Bytes) :
    Vision.frames ⟨fs.flatMap Frame.bytes ++ rest, none⟩ =
      (Vision.frames ⟨rest, none⟩).prepend (fs.flatMap Frame.content) := by
  induction fs with
  | nil => rfl
  | cons f fs ih =>
    obtain ⟨hf, hfs⟩ := List.forall_mem_cons.mp hfits
    obtain ⟨hcommand, hcommands⟩ := List.forall_mem_cons.mp hzero
    rw [List.flatMap_cons, List.append_assoc, frames_append hf (by rw [hcommand]; decide), hcommand,
      body_zero, ih hfs hcommands, Decoded.prepend_prepend, List.flatMap_cons]

/-- The decoder takes the frames and what follows them. -/
theorem frames_flatMap (h : e.WellFormed) :
    Vision.frames ⟨e.frames.flatMap Frame.bytes ++ e.plain, none⟩ =
      ⟨⟨e.contents, none⟩, if ∃ f ∈ e.last, f.command = 2 then some e.plain else none⟩ := by
  have hpadded : ∀ f ∈ e.padded, f.Fits := fun f hf =>
    h.fits f (List.mem_append_left _ hf)
  cases hlast : e.last with
  | none =>
    have hframes : e.frames = e.padded := by rw [frames, hlast]; simp
    rw [contents, hframes, frames_padded hpadded h.padded, h.plain hlast, frames_nil]
    rfl
  | some f =>
    have hframes : e.frames = e.padded ++ [f] := by rw [frames, hlast]; rfl
    have hfits : f.Fits := h.fits f (by rw [hframes]; simp)
    obtain ⟨hne, hle⟩ := h.last f hlast
    rw [contents, hframes, List.flatMap_append, List.append_assoc, frames_padded hpadded h.padded,
      List.flatMap_singleton, frames_append hfits hle, body_of_command hne]
    simp [Decoded.prepend, Content.prepend]

/-- **The decoder takes an emission back.** -/
theorem decode_bytes (hid : id.length = 16) (h : e.WellFormed) :
    decode id ⟨e.bytes id, none⟩ =
      ⟨⟨e.contents, none⟩, if ∃ f ∈ e.last, f.command = 2 then some e.plain else none⟩ := by
  rw [← frames_flatMap h, bytes, framed]
  by_cases hframes : e.frames = []
  · have hplain := h.plain_eq_nil hframes
    rw [hframes, hplain]
    exact (frames_nil none).symm
  · rw [if_neg hframes]
    have hlong : 5 ≤ (e.frames.flatMap Frame.bytes).length := by
      obtain ⟨f, fs, hcons⟩ := List.exists_cons_of_ne_nil hframes
      rw [hcons, List.flatMap_cons, f.bytes_eq, List.append_assoc, List.length_append,
        f.header_length]
      omega
    have hlength : 21 ≤ (id ++ e.frames.flatMap Frame.bytes ++ e.plain).length := by
      simp only [List.length_append]
      omega
    rw [decode, if_neg (List.ne_nil_of_length_pos (by dsimp only; omega)),
      if_neg (by dsimp only; omega), List.append_assoc, if_neg (by simp [← hid]),
      ← hid, List.drop_left]

end Emission

/-! ## The stream that sends it -/

/-- Direct writing starts in the log behind the bytes `front`, which have been flushed. -/
def DirectBehind (front : Bytes) (log : List Sent) : Prop :=
  ∃ before after, log = before ++ [.flush, .direct] ++ after ∧ .direct ∉ before ∧ .direct ∉ after ∧
    Sent.all before = front

/-- More in the log. -/
theorem DirectBehind.append {front : Bytes} {log more : List Sent} (h : DirectBehind front log)
    (hmore : .direct ∉ more) : DirectBehind front (log ++ more) := by
  obtain ⟨before, after, rfl, hbefore, hafter, hfront⟩ := h
  refine ⟨before, after ++ more, by simp, hbefore, ?_, hfront⟩
  rw [List.mem_append]
  exact not_or.mpr ⟨hafter, hmore⟩

/-- The part of a stream that sends. -/
structure Writer where
  id : Bytes
  pending : Bytes
  written : Nat
  first : Bool
  plain : Bool
  switch : Bool
  log : List Sent

/-- It sends an emission for the user `id`, of which it has the end of `pending` left to write. -/
structure Sending (id : Bytes) (w : Writer) (e : Emission) : Prop where
  own : w.id = id
  wf : e.WellFormed
  position : w.written ≤ w.pending.length
  stream : Sent.all w.log ++ w.pending.drop w.written = e.bytes id
  first : w.first = e.frames.isEmpty
  plain : w.plain = e.last.isSome
  waiting : w.pending ≠ [] → e.plain = []
  switching : w.switch = true → e.plain = [] ∧ ∃ f ∈ e.last, f.command = 2
  undirected : w.switch = true ∨ (∀ f ∈ e.last, f.command ≠ 2) → .direct ∉ w.log
  directed : w.switch = false → (∃ f ∈ e.last, f.command = 2) → DirectBehind (e.framed id) w.log

namespace Sending

variable {w : Writer}

/-- Some of the waiting bytes are written, or something else is logged that is not the mark. -/
theorem advance (h : Sending id w e) {more : List Sent} {stop : Nat} (hmore : .direct ∉ more)
    (hstop : stop ≤ w.pending.length)
    (hsplit : w.pending.drop w.written = Sent.all more ++ w.pending.drop stop) :
    Sending id { w with log := w.log ++ more, written := stop } e := by
  refine ⟨h.own, h.wf, hstop, ?_, h.first, h.plain, h.waiting, h.switching, fun hnone => ?_,
    fun hswitch hlast => (h.directed hswitch hlast).append hmore⟩
  · rw [Sent.all_append, List.append_assoc, ← hsplit]
    exact h.stream
  · rw [List.mem_append]
    exact not_or.mpr ⟨h.undirected hnone, hmore⟩

/-- All is written and flushed: then the switch to direct writing follows. -/
theorem frameSent (h : Sending id w e) (hlog : w.log = before ++ [.flush])
    (hdone : w.written = w.pending.length) : Sending id { w with
      pending := [], written := 0, switch := false
      log := if w.switch then w.log ++ [.direct] else w.log } e := by
  have hstream : Sent.all w.log = e.bytes id := by
    rw [← h.stream, hdone, List.drop_length, List.append_nil]
  cases hswitch : w.switch with
  | false =>
    refine ⟨h.own, h.wf, le_rfl, by simpa using hstream, h.first, h.plain, fun h => absurd rfl h,
      nofun, fun hnone => h.undirected (.inr ?_), fun _ hlast => h.directed hswitch hlast⟩
    exact hnone.resolve_left Bool.false_ne_true
  | true =>
    rw [if_pos rfl]
    obtain ⟨hplain, hlast⟩ := h.switching hswitch
    have hbefore : .direct ∉ before := fun hmem =>
      h.undirected (.inl hswitch) (by rw [hlog]; exact List.mem_append_left _ hmem)
    have hfront : Sent.all before = e.framed id := by
      have hall : Sent.all w.log = Sent.all before := by
        rw [hlog, Sent.all_append]
        exact List.append_nil _
      rw [← hall, hstream, Emission.bytes, hplain, List.append_nil]
    refine ⟨h.own, h.wf, le_rfl, ?_, h.first, h.plain, fun h => absurd rfl h, nofun,
      fun hnone => ?_, fun _ _ => ⟨before, [], by rw [hlog]; simp, hbefore, by simp, hfront⟩⟩
    · rw [Sent.all_append, hstream]
      simp [Sent.all]
    · obtain ⟨f, hf, hcommand⟩ := hlast
      exact absurd hcommand (hnone.resolve_left Bool.false_ne_true f hf)

/-- Bytes behind the frames. -/
theorem passed (h : Sending id w e) (hpending : w.pending = []) (hswitch : w.switch = false)
    (hplain : w.plain = true) (bs : Bytes) :
    Sending id { w with log := w.log ++ [.bytes bs] } { e with plain := e.plain ++ bs } := by
  have hlast : e.last ≠ none := by
    have hsome := h.plain
    rw [hplain] at hsome
    exact isSome_iff_ne_none.mp hsome.symm
  refine ⟨h.own, ⟨h.wf.fits, h.wf.padded, h.wf.last, fun hnone => absurd hnone hlast⟩, h.position,
    ?_, h.first, h.plain, fun hne => absurd hpending hne, ?_, fun hnone => ?_,
    fun hswitch hlast => (h.directed hswitch hlast).append (by simp)⟩
  · have hstream := h.stream
    rw [hpending, List.drop_nil, List.append_nil] at hstream
    rw [hpending, Sent.all_append, hstream]
    simp [Emission.bytes, Sent.all]
    rfl
  · intro htrue
    rw [hswitch] at htrue
    cases htrue
  · rw [List.mem_append]
    exact not_or.mpr ⟨h.undirected hnone, by simp⟩

end Sending

/-- One more frame. -/
def Emission.add (f : Frame) (e : Emission) : Emission :=
  if f.command = 0 then { e with padded := e.padded ++ [f] } else { e with last := some f }

variable {s : VisionStream}

theorem Emission.frames_add (h : e.last = none) (f : Frame) :
    (e.add f).frames = e.frames ++ [f] := by
  unfold Emission.add Emission.frames
  split
  · simp [h]
  · simp [h]

theorem Emission.plain_add (f : Frame) (e : Emission) : (e.add f).plain = e.plain := by
  unfold Emission.add
  split
  · rfl
  · rfl

theorem Emission.last_add (h : e.last = none) (f : Frame) :
    (e.add f).last = if f.command = 0 then none else some f := by
  unfold Emission.add
  split
  · exact h
  · rfl

theorem Emission.WellFormed.add (h : e.WellFormed) (hlast : e.last = none) (hfits : f.Fits)
    (hcommand : ¬ 2 < f.command) : (e.add f).WellFormed := by
  refine ⟨fun f' hf' => ?_, fun f' hf' => ?_, fun f' hf' => ?_, fun _ => ?_⟩
  · rw [Emission.frames_add hlast, List.mem_append, List.mem_singleton] at hf'
    rcases hf' with hf' | rfl
    · exact h.fits f' hf'
    · exact hfits
  · unfold Emission.add at hf'
    split at hf'
    · next hzero =>
      rcases List.mem_append.mp hf' with hf' | hf'
      · exact h.padded f' hf'
      · rw [List.mem_singleton.mp hf', hzero]
    · exact h.padded f' hf'
  · rw [Emission.last_add hlast] at hf'
    split at hf'
    · cases hf'
    · next hne =>
      cases hf'
      exact ⟨hne, hcommand⟩
  · rw [Emission.plain_add, h.plain hlast]

theorem Emission.contents_add (h : e.WellFormed) (hlast : e.last = none) (f : Frame) :
    (e.add f).contents = e.contents ++ f.content := by
  rw [contents, contents, frames_add hlast, plain_add, h.plain hlast]
  simp

theorem Emission.bytes_add (h : e.WellFormed) (hlast : e.last = none) (id : Bytes) (f : Frame) :
    (e.add f).bytes id = e.bytes id ++ ((if e.frames.isEmpty then id else []) ++ f.bytes) := by
  rw [bytes, bytes, framed, framed, frames_add hlast, plain_add, h.plain hlast]
  by_cases hempty : e.frames = []
  · simp [hempty]
  · simp [hempty]

/-- A new frame. -/
theorem Sending.framed {w : Writer} (h : Sending id w e)
    (hpending : w.pending = []) (hlast : e.last = none) (hfits : f.Fits)
    (hcommand : ¬ 2 < f.command) : Sending id { w with
      pending := (if w.first then w.id else []) ++ f.bytes, written := 0
      first := false, plain := f.command != 0, switch := f.command == 2 } (e.add f) := by
  have hnone : e.plain = [] := h.wf.plain hlast
  refine ⟨h.own, h.wf.add hlast hfits hcommand, Nat.zero_le _, ?_, ?_, ?_, ?_, fun hswitch => ?_,
    ?_, fun hswitch hlast' => ?_⟩
  · have hstream := h.stream
    rw [hpending, List.drop_nil, List.append_nil] at hstream
    rw [Emission.bytes_add h.wf hlast, ← hstream, ← h.first, ← h.own]
    rfl
  · rw [Emission.frames_add hlast]
    simp
  · rw [Emission.last_add hlast]
    by_cases hzero : f.command = 0
    · simp [hzero]
    · simp [hzero]
  · intro _
    rw [Emission.plain_add, hnone]
  · have htwo : f.command = 2 := beq_iff_eq.mp hswitch
    refine ⟨by rw [Emission.plain_add, hnone], f, ?_, htwo⟩
    rw [Emission.last_add hlast, if_neg (by rw [htwo]; decide)]
    rfl
  · intro _
    exact h.undirected (.inr (by simp [hlast]))
  · obtain ⟨f', hf', htwo⟩ := hlast'
    rw [Emission.last_add hlast] at hf'
    split at hf'
    · cases hf'
    · cases hf'
      exact absurd htwo (beq_eq_false_iff_ne.mp hswitch)

/-! ## The calls -/

/-- The bytes that a write took. -/
def taken (bytes : Bytes) : Poll Nat → Bytes
  | .ready n => bytes.take n
  | _ => []

/-- The next frame fits, and its command is a valid one. -/
theorem nextPadding_lt (sniff : InnerTls) (bytes : Bytes) (random : Nat) :
    nextPadding sniff bytes random < 65536 := by
  unfold nextPadding
  split
  · decide
  · split
    · omega
    · omega

theorem nextCommand_le (sniff : InnerTls) (bytes : Bytes) :
    ¬ 2 < nextCommand sniff bytes := by
  unfold nextCommand
  split
  · split
    · decide
    · decide
  · split
    · decide
    · decide

namespace VisionStream

/-- The part of the stream that sends. -/
def writer (s : VisionStream) : Writer where
  id := s.id.toList
  pending := s.pending
  written := s.written
  first := s.writeFirst
  plain := s.writePlain
  switch := s.switchWrite
  log := sentBelow s.inner

theorem writer_inner (s : VisionStream) {inner : ResponseStream RecordStream}
    (h : sentBelow inner = sentBelow s.inner) : writer { s with inner := inner } = s.writer := by
  simp only [writer, h]

section Steps

variable (h : Sending id s.writer e)
include h

theorem frameSent_sending
    (hlog : sentBelow s.inner = before ++ [.flush]) (hdone : s.written = s.pending.length) :
    Sending id s.frameSent.writer e := by
  have hsent := h.frameSent hlog hdone
  have hwriter : s.frameSent.writer = { s.writer with
      pending := [], written := 0, switch := false
      log := if s.writer.switch then s.writer.log ++ [.direct] else s.writer.log } := by
    unfold frameSent writer
    cases hswitch : s.switchWrite with
    | true => rfl
    | false => rfl
  rw [hwriter]
  exact hsent

/-- Flushing. If it is done, nothing is waiting. -/
theorem flushFrame_sending :
    Sending id s.flushFrame.2.writer e ∧ (s.flushFrame.1 = .ready () →
      s.flushFrame.2.pending = [] ∧ s.flushFrame.2.switchWrite = false) := by
  unfold flushFrame
  have hposition : s.written ≤ s.pending.length := h.position
  obtain ⟨⟨pieces, hsent, hsplit⟩, -, hstop, hfinished, -⟩ :=
    drain_spec writeInner_writable hposition s.inner
  generalize drain writeInner s.pending s.written s.inner = out at hsent hsplit hstop hfinished
  obtain ⟨r, stop, inner⟩ := out
  have hdrained : Sending id (writer { s with inner := inner, written := stop }) e := by
    have hadvance : Sending id
        { s.writer with log := s.writer.log ++ pieces.map .bytes, written := stop } e :=
      h.advance (by simp) hstop (by rw [Sent.all_map_bytes]; exact hsplit)
    rw [writer, hsent]
    exact hadvance
  rcases r with _ | _ | e'
  · exact ⟨hdrained, nofun⟩
  · rw [Poll.andThen_ready]
    have hflush := pass_flush_step inner
    generalize pass Wire.pollFlush inner = out at hflush
    obtain ⟨r, inner'⟩ := out
    cases hflush with
    | pending same =>
      refine ⟨?_, nofun⟩
      rw [Poll.andThen_pending, writer, same]
      exact hdrained
    | failed sending same =>
      refine ⟨?_, nofun⟩
      rw [Poll.andThen_failed, writer, same]
      exact hdrained
    | ready more =>
      rw [Poll.andThen_ready]
      have hflushed : Sending id
          (writer { s with inner := inner', written := stop }) e := by
        rw [writer, more]
        exact hdrained.advance (by simp) hstop rfl
      refine ⟨frameSent_sending hflushed more (hfinished rfl), fun _ => ?_⟩
      unfold frameSent
      split
      · exact ⟨rfl, rfl⟩
      · next hswitch => exact ⟨rfl, by simpa using hswitch⟩
  · exact ⟨hdrained, nofun⟩

/-- A call behind a flush that only logs something. -/
theorem pollShutdown_sending : Sending id s.pollShutdown.2.writer e := by
  unfold pollShutdown
  obtain ⟨hsending, -⟩ := flushFrame_sending h
  generalize s.flushFrame = call at hsending
  rcases call with ⟨_ | _ | _, s₁⟩
  · exact hsending
  · rw [Poll.andThen_ready]
    have hstep := pass_shutdown_step s₁.inner
    generalize pass Wire.pollShutdown s₁.inner = out at hstep
    obtain ⟨r, inner⟩ := out
    cases hstep with
    | pending same | failed _ same => rwa [writer_inner s₁ same]
    | ready more =>
      rw [writer, more]
      exact hsending.advance (by simp) hsending.position rfl
  · exact hsending

/-- The end of a write: a new frame. -/
theorem frameBytes_sending (hpending : s.pending = [])
    (hplain : s.writePlain = false) {bytes : Bytes} (hlen : bytes.length < 65536)
    (random : Nat) :
    ∃ e', Sending id (s.frameBytes bytes random).writer e' ∧ e'.contents = e.contents ++ bytes := by
  have hlast : e.last = none := by
    have hsome : s.writePlain = e.last.isSome := h.plain
    rw [hplain] at hsome
    exact isNone_iff_eq_none.mp (isSome_eq_false_iff.mp hsome.symm)
  let sniff := s.sniff.observe bytes false
  let f : Frame := ⟨nextCommand sniff bytes, bytes, nextPadding sniff bytes random⟩
  have hfits : f.Fits := ⟨hlen, nextPadding_lt sniff bytes random⟩
  refine ⟨e.add f, ?_, e.contents_add h.wf hlast f⟩
  have hframed := h.framed hpending hlast hfits (nextCommand_le sniff bytes)
  have hwritten : s.written = 0 := by
    have hposition : s.written ≤ s.pending.length := h.position
    rw [hpending] at hposition
    exact Nat.le_zero.mp hposition
  have hwriter : (s.frameBytes bytes random).writer = { s.writer with
      pending := (if s.writer.first then s.writer.id else []) ++ f.bytes, written := 0
      first := false, plain := f.command != 0, switch := f.command == 2 } := by
    simp only [frameBytes, hpending, hplain, hwritten]
    rfl
  rw [hwriter]
  exact hframed

/-- Writing: what was accepted is added to what is sent. -/
theorem pollWrite_sending (bytes : Bytes) (random : Nat) :
    ∃ e', Sending id (s.pollWrite bytes random).2.writer e' ∧
      e'.contents = e.contents ++ taken bytes (s.pollWrite bytes random).1 := by
  have hnothing : e.contents = e.contents ++ [] := (List.append_nil _).symm
  unfold pollWrite
  obtain ⟨hsending, hdone⟩ := flushFrame_sending h
  generalize s.flushFrame = call at hsending hdone
  rcases call with ⟨_ | _ | _, s₁⟩
  · exact ⟨e, hsending, hnothing⟩
  · rw [Poll.andThen_ready]
    obtain ⟨hpending, hswitch⟩ := hdone rfl
    by_cases hplain : s₁.writePlain = true
    · rw [if_pos hplain]
      obtain ⟨hstep, -⟩ := writeInner_writable bytes s₁.inner
      generalize writeInner bytes s₁.inner = out at hstep
      obtain ⟨r, inner⟩ := out
      cases hstep with
      | pending same | failed _ same => exact ⟨e, by rwa [writer_inner s₁ same], hnothing⟩
      | @ready _ n more =>
        refine ⟨{ e with plain := e.plain ++ bytes.take n }, ?_, ?_⟩
        · rw [writer, more]
          exact hsending.passed hpending hswitch hplain (bytes.take n)
        · simp [Emission.contents, Emission.frames, taken]
    · rw [if_neg hplain]
      by_cases hempty : bytes = []
      · rw [if_pos hempty]
        exact ⟨e, hsending, hnothing⟩
      · rw [if_neg hempty]
        have hlen : (bytes.take (8192 - 21)).length < 65536 := by
          rw [List.length_take]
          omega
        have htaken : taken bytes (.ready (bytes.take (8192 - 21)).length) =
            bytes.take (8192 - 21) := by
          rw [taken, List.length_take, ← List.take_eq_take_min]
        rw [htaken]
        exact frameBytes_sending hsending hpending (Bool.not_eq_true _ ▸ hplain) hlen random
  · exact ⟨e, hsending, hnothing⟩

end Steps

/-! ## Reading does not write -/

theorem readInner_log (n : Nat) (r : ResponseStream RecordStream) :
    sentBelow (readInner n r).2 = sentBelow r :=
  (ResponseStream.pollRead_keeps (f := fun r => r.wire.log) (fun n r => Wire.pollRead_log n r.wire)
    n r).1

theorem readPassed_writer (n : Nat) (s : VisionStream) : (s.readPassed n).2.writer = s.writer := by
  unfold readPassed
  split
  · rfl
  · exact writer_inner s (readInner_log n s.inner)

theorem readContent_writer (n : Nat) (s : VisionStream) :
    (s.readContent n).2.writer = s.writer := by
  refine Poll.andThen_keeps (f := writer) (writer_inner s (readInner_log _ s.inner))
    fun bytes s₁ hs₁ => ?_
  split
  · exact hs₁
  · exact hs₁

theorem skipPadding_writer (s : VisionStream) : s.skipPadding.2.writer = s.writer := by
  have hlog := collect_keeps (f := sentBelow) readInner_log 2048 s.padding s.inner
  unfold skipPadding
  generalize collect readInner 2048 s.padding s.inner = out at hlog
  obtain ⟨result, got, inner⟩ := out
  cases result with
  | done | pending | eof | failed => exact writer_inner s hlog

theorem fillHeader_writer (s : VisionStream) : s.fillHeader.2.writer = s.writer := by
  have hlog := collect_keeps (f := sentBelow) readInner_log s.headerLen
    (s.headerLen - s.readHeader.length) s.inner
  unfold fillHeader
  generalize collect readInner s.headerLen (s.headerLen - s.readHeader.length) s.inner = out
    at hlog
  obtain ⟨result, got, inner⟩ := out
  cases result with
  | done | pending | failed => exact writer_inner s hlog
  | eof =>
    dsimp only
    split
    · exact writer_inner s hlog
    · exact writer_inner s hlog

theorem startPassing_writer (s : VisionStream) : s.startPassing.writer = s.writer := by
  unfold startPassing
  split
  · rfl
  · rfl

theorem readLoop_writer (n frames : Nat) (s : VisionStream) :
    (readLoop n frames s).2.writer = s.writer := by
  induction frames generalizing s with
  | zero => rfl
  | succ frames ih =>
    unfold readLoop
    split
    · exact readPassed_writer n s
    split
    · exact readContent_writer n s
    refine Poll.andThen_keeps (f := writer) (skipPadding_writer s) fun _ s₁ hs₁ => ?_
    rw [← hs₁]
    split
    · exact (readPassed_writer n _).trans (startPassing_writer s₁)
    refine Poll.andThen_keeps (f := writer) (fillHeader_writer s₁) fun more s₂ hs₂ => ?_
    rw [← hs₂]
    split
    · rfl
    split
    · exact readPassed_writer n _
    split
    · rfl
    · exact ih s₂.startFrame

theorem pollRead_sending {e : Emission}
    (h : Sending id s.writer e) (n : Nat) : Sending id (s.pollRead n).2.writer e := by
  unfold pollRead
  obtain ⟨hsending, -⟩ := flushFrame_sending h
  split
  · exact h
  split
  · exact h
  split
  · next hflush =>
    rw [hflush] at hsending
    exact hsending
  · next hflush =>
    rw [hflush] at hsending
    rw [readLoop_writer]
    exact hsending

end VisionStream

open VisionStream

/-! ## Runs -/

/-- The bytes that a call accepted. -/
def accepted : Op → Result → Bytes
  | .write bytes _, .write r => taken bytes r
  | _, _ => []

/-- Some calls: the bytes they accepted, and the stream then. -/
def run : VisionStream → List Op → Bytes × VisionStream
  | s, [] => ([], s)
  | s, op :: ops =>
    let out := step s op
    (accepted op out.1 ++ (run out.2 ops).1, (run out.2 ops).2)

theorem step_sending (h : Sending id s.writer e) (op : Op) :
    ∃ e', Sending id (step s op).2.writer e' ∧
      e'.contents = e.contents ++ accepted op (step s op).1 := by
  have hnothing : e.contents = e.contents ++ [] := (List.append_nil _).symm
  cases op with
  | read n => exact ⟨e, pollRead_sending h n, hnothing⟩
  | write bytes random => exact pollWrite_sending h bytes random
  | flush => exact ⟨e, (flushFrame_sending h).1, hnothing⟩
  | shutdown => exact ⟨e, pollShutdown_sending h, hnothing⟩

theorem run_sending (h : Sending id s.writer e) (ops : List Op) :
    ∃ e', Sending id (run s ops).2.writer e' ∧ e'.contents = e.contents ++ (run s ops).1 := by
  induction ops generalizing s e with
  | nil => exact ⟨e, h, (List.append_nil _).symm⟩
  | cons op ops ih =>
    obtain ⟨e₁, h₁, hcontents₁⟩ := step_sending h op
    obtain ⟨e₂, h₂, hcontents₂⟩ := ih h₁
    refine ⟨e₂, h₂, ?_⟩
    rw [hcontents₂, hcontents₁, List.append_assoc]
    rfl

/-- At the beginning nothing is sent. -/
theorem sending_framed (wire : Wire) (hlog : wire.log = []) (id : Vector UInt8 16) :
    Sending id.toList (framed { wire := wire } id).writer {} := by
  have hnone : (framed { wire := wire } id).writer.log = [] := hlog
  refine ⟨rfl, ⟨by simp [Emission.frames], nofun, nofun, fun _ => rfl⟩, le_rfl, ?_, rfl, rfl,
    fun h => absurd rfl h, nofun, fun _ => by simp [hnone], fun _ h => ?_⟩
  · rw [hnone]
    rfl
  · obtain ⟨f, hf, -⟩ := h
    cases hf

/-- At most one frame has a command. -/
theorem Emission.WellFormed.commands (h : e.WellFormed) :
    (e.frames.filter fun f => f.command != 0).length ≤ 1 := by
  have hpadded : e.padded.filter (fun f => f.command != 0) = [] :=
    List.filter_eq_nil_iff.mpr fun f hf => by simp [h.padded f hf]
  rw [Emission.frames, List.filter_append, hpadded]
  refine (List.length_filter_le _ _).trans ?_
  cases e.last with
  | none => exact Nat.zero_le 1
  | some f => exact le_rfl

/-- **What Vision writes decodes to what it accepted.** Take any calls, with any random numbers, on
a transport that takes any part of a write, lets wait and fails as it likes. The bytes written and
those that still wait decode to the bytes that writes reported as accepted, and a flush that is done
has written them all. They are frames whose lengths fit their fields, at most one of which has a
command, and bytes behind them. Direct writing starts only behind a frame with command 2, when all
frames have been written and flushed, and no byte behind that frame is written before. -/
theorem vision_writes (id : Vector UInt8 16) (input : Bytes) (reads : List (Option Nat))
    (writes : List Grant) (ops : List Op) :
    let out := run (framed { wire := ⟨input, reads, writes, []⟩ } id) ops
    let wire := out.2.inner.inner.wire
    let stream := wire.output ++ out.2.pending.drop out.2.written
    (decode id.toList ⟨stream, none⟩).content = ⟨out.1, none⟩ ∧
      (out.2.pollFlush.1 = .ready () → out.2.pollFlush.2.inner.inner.wire.output = stream) ∧
      ∃ e : Emission, stream = e.bytes id.toList ∧
        (∀ f ∈ e.frames, f.content.length < 65536 ∧ f.padding < 65536) ∧
        (e.frames.filter fun f => f.command != 0).length ≤ 1 ∧
        (.direct ∈ wire.log →
          (∃ f ∈ e.last, f.command = 2) ∧ DirectBehind (e.framed id.toList) wire.log) ∧
        ((∃ f ∈ e.frames, f.command = 2) → .direct ∈ wire.log ∨ e.plain = []) := by
  intro out wire stream
  obtain ⟨e, hsending, hcontents⟩ :=
    run_sending (sending_framed ⟨input, reads, writes, []⟩ rfl id) ops
  have hstream : stream = e.bytes id.toList := hsending.stream
  refine ⟨?_, fun hready => ?_, e, hstream, hsending.wf.fits, hsending.wf.commands,
    fun hdirect => ?_, fun htwo => ?_⟩
  · rw [hstream, Emission.decode_bytes (by simp) hsending.wf, hcontents]
    rfl
  · obtain ⟨hflushed, hdone⟩ := flushFrame_sending hsending
    have hall : Sent.all out.2.flushFrame.2.inner.inner.wire.log ++
        out.2.flushFrame.2.pending.drop out.2.flushFrame.2.written = e.bytes id.toList :=
      hflushed.stream
    rw [(hdone hready).1, List.drop_nil, List.append_nil] at hall
    exact hall.trans hstream.symm
  · have hlast : ∃ f ∈ e.last, f.command = 2 := by
      by_contra hno
      exact hsending.undirected (.inr fun f hf hcommand => hno ⟨f, hf, hcommand⟩) hdirect
    refine ⟨hlast, hsending.directed (Bool.eq_false_iff.mpr fun hswitch => ?_) hlast⟩
    exact hsending.undirected (.inl hswitch) hdirect
  · obtain ⟨f, hf, hcommand⟩ := htwo
    have hlast : f ∈ e.last := by
      rcases List.mem_append.mp hf with hf | hf
      · rw [hsending.wf.padded f hf] at hcommand
        cases hcommand
      · exact mem_toList.mp hf
    cases hswitch : out.2.writer.switch with
    | false =>
      obtain ⟨before, after, hlog, -⟩ := hsending.directed hswitch ⟨f, hlast, hcommand⟩
      exact .inl (show .direct ∈ out.2.writer.log by rw [hlog]; simp)
    | true => exact .inr (hsending.switching hswitch).1

end Clyntis.Protocol.Vision
