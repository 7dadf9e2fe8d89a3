import Clyntis.Protocol.WsWrite

/-!
# Reading a WebSocket is decoding

- `payloads`: the data in a sequence of frames, decoded in one go; `behindHead`: the same behind a
  response head;
- `Socket.decoded`: what a socket in the middle of its work still has to read;
- `receive_keeps`, `readRaw_spec`, `deliver_spec`, `parsed_keeps`, `turn_spec`: what each part of
  `poll_read` does to it; `readLoop_spec`: a whole read;
- `Served`: well-formed streams of a server, also cut off, and what they hold;
- `ws_reads`: whatever the inner reads find and whatever is called in between, the results of the
  reads are those of such a stream.
-/

namespace Clyntis.Protocol.WebSocket

open Lib

variable {bytes : Bytes} {f : InFrame} {part rest : Bytes} {s' : Socket}
  {fs : List InFrame} {e : StreamError} {header : Header}

/-- What is asked of the head fails with errors of its own. -/
theorem checkHead_error {expected : Option Text} {head : Bytes}
    (h : checkHead expected head = .error e) : e.sending = false := by
  unfold checkHead at h
  split at h
  · cases h
    rfl
  · dsimp only at h
    split at h
    · cases h
      rfl
    · split at h
      · cases h
      · split at h
        · cases h
          rfl
        · cases h

/-! ## The data in frames -/

theorem takeHeader_bytes (header : Header) (rest : Bytes) :
    takeHeader (header.bytes ++ rest) = some (header, rest) := by
  have hext := header.ext_length
  have hmask := header.mask_length
  have hthere : extLength header.second + maskLength header.second ≤
      (header.ext ++ header.mask ++ rest).length := by
    rw [List.length_append, List.length_append]
    omega
  have hsome : ∃ out, takeHeader (header.bytes ++ rest) = some out := by
    simp only [Header.bytes, List.cons_append, takeHeader, dif_pos hthere]
    exact ⟨_, rfl⟩
  obtain ⟨⟨header', rest'⟩, hout⟩ := hsome
  obtain ⟨rfl, rfl⟩ := Header.bytes_inj (takeHeader_eq_some hout)
  exact hout

theorem takeHeader_shorter {bytes rest : Bytes}
    (h : takeHeader bytes = some (header, rest)) : rest.length < bytes.length := by
  rw [takeHeader_eq_some h, List.length_append, header.length_bytes]
  omega

/-- What a frame adds to what follows it. -/
def frameContent (opcode : UInt8) (data : Bytes) (rest : Content) : Content :=
  if opcode = 0 ∨ opcode = 2 then rest.prepend data
  else if opcode = 8 then ⟨[], none⟩
  else if opcode = 9 ∨ opcode = 10 then rest
  else ⟨[], some (.other "unsupported WebSocket frame")⟩

/-- No whole frame comes any more. -/
def noFrame (bytes : Bytes) : Content :=
  if bytes = [] then ⟨[], none⟩ else ⟨[], some .unexpectedEof⟩

/-- The data in the frames of a server. -/
def payloads (bytes : Bytes) : Content :=
  match _h : takeHeader bytes with
  | none => noFrame bytes
  | some (header, rest) =>
    if header.len ≤ rest.length then
      frameContent header.opcode (header.unmask (rest.take header.len))
        (payloads (rest.drop header.len))
    else noFrame bytes
  termination_by bytes.length
  decreasing_by
    have := takeHeader_shorter _h
    rw [List.length_drop]
    omega

theorem payloads_frame (f : InFrame) (rest : Bytes) :
    payloads (f.bytes ++ rest) = frameContent f.opcode f.data (payloads rest) := by
  have htake : takeHeader (f.bytes ++ rest) = some (f.header, f.payload ++ rest) := by
    rw [InFrame.bytes, List.append_assoc]
    exact takeHeader_bytes f.header _
  have hthere : f.header.len ≤ (f.payload ++ rest).length := by
    rw [List.length_append, f.full]
    omega
  rw [payloads, htake]
  dsimp only
  rw [if_pos hthere, ← f.full, List.take_left, List.drop_left]
  rfl

theorem payloads_incomplete (h : Incomplete bytes) : payloads bytes = noFrame bytes := by
  rw [payloads]
  split
  · rfl
  · next header rest htake =>
    have := h header rest (takeHeader_eq_some htake)
    rw [if_neg (by omega)]

/-! ## What a socket has to read -/

/-- What follows the response head. -/
def behindHead (raw : Bool) (bytes : Bytes) : Content :=
  if raw then ⟨bytes, none⟩ else payloads bytes

/-- What the bytes of a server hold, from the response head on. -/
def served (raw : Bool) (expected : Option Text) (bytes : Bytes) : Content :=
  match headEnd bytes with
  | none => ⟨[], some .unexpectedEof⟩
  | some stop =>
    match checkHead expected (bytes.take stop) with
    | .error e => ⟨[], some e⟩
    | .ok () => behindHead raw (bytes.drop stop)

namespace Socket

/-- The bytes that come next. -/
def ahead (s : Socket) : Bytes := s.core.incoming ++ s.inner.input

/-- What the frames behind the payload in hand hold. -/
def behindPayload (s : Socket) : Content :=
  if s.core.closed then ⟨[], none⟩ else payloads s.ahead

/-- What there is to read. -/
def decoded (s : Socket) : Content :=
  if s.upgraded then
    if s.raw then ⟨s.ahead, none⟩
    else s.behindPayload.prepend (s.core.payload.drop s.core.payloadAt)
  else served s.raw s.expectedAccept s.ahead

/-- While a socket is read: the head is short enough and no header overflows. -/
structure WellFormed (s : Socket) : Prop where
  ok : s.panicked = false
  fresh : s.upgraded = false → s.core.payload.length ≤ s.core.payloadAt ∧ s.core.closed = false
  short : s.upgraded = false → headEnd s.ahead = none → s.ahead.length < maxHeaders
  head : s.upgraded = false → ∀ stop, headEnd s.ahead = some stop →
    stop ≤ maxHeaders ∧ (s.raw = false → ¬ Overlong (s.ahead.drop stop))
  frames : s.upgraded = true → s.raw = false → s.core.closed = false → ¬ Overlong s.ahead

/-- `left` counts the bytes and the answers of the transport. -/
def view : View Socket where
  inv := WellFormed
  den := decoded
  left s := s.ahead.length + s.inner.reads.length + s.inner.writes.length +
    (s.core.payload.length - s.core.payloadAt)
  fin _ := True

section Parts

variable {s : Socket} {n : Nat}

/-- What reading depends on, apart from the answers of the transport. -/
def reader (s : Socket) : Socket :=
  { s with
    inner := { input := s.ahead }
    core := { s.core with incoming := [], outgoing := [], outgoingAt := 0, received := [] } }

theorem keepsReading_of_reader (hs : WellFormed s) (h : s'.reader = s.reader)
    (hreads : s'.inner.reads.length ≤ s.inner.reads.length)
    (hwrites : s'.inner.writes.length ≤ s.inner.writes.length) : KeepsReading view s s' := by
  have hahead : s'.ahead = s.ahead := congrArg (fun s => s.inner.input) h
  have hpayload : s'.core.payload.length - s'.core.payloadAt =
      s.core.payload.length - s.core.payloadAt :=
    congrArg (fun s => s.core.payload.length - s.core.payloadAt) h
  have hwf : WellFormed s.reader := ⟨hs.ok, hs.fresh, hs.short, hs.head, hs.frames⟩
  have hden : s'.reader.decoded = s.reader.decoded := by rw [h]
  rw [← h] at hwf
  refine ⟨⟨hwf.ok, hwf.fresh, hwf.short, hwf.head, hwf.frames⟩, hden, ?_⟩
  simp only [view, hahead]
  omega

/-- What changed only concerns sending. -/
def SendsOnly (s s' : Socket) : Prop :=
  s'.forReader = s.forReader ∧ s'.inner.writes.length ≤ s.inner.writes.length

theorem SendsOnly.send {α : Type} (h : SendsOnly s s') (all : Nat)
    (entry : Nat → Sent) (value : Nat → α) :
    SendsOnly s { s' with inner := (Wire.send all entry value s'.inner).2 } :=
  ⟨(forReader_send _ _ _ s').trans h.1, (Wire.send_writes _ _ _ s'.inner).1.trans h.2⟩

theorem flushOutgoing_sendsOnly (s : Socket) : SendsOnly s s.flushOutgoing.2 :=
  ⟨s.flushOutgoing_forReader, s.flushOutgoing_writes.1⟩

/-- It leaves what there is to read alone. -/
theorem SendsOnly.keepsReading (h : SendsOnly s s') (hs : WellFormed s) :
    KeepsReading view s s' := by
  have hreads : s'.inner.reads = s.inner.reads := congrArg (fun s => s.inner.reads) h.1
  have hreader : s'.forReader.reader = s.forReader.reader := congrArg reader h.1
  exact keepsReading_of_reader hs hreader (by rw [hreads]) h.2

/-- A read from the transport: it finds nothing yet, or bytes that go into the buffer. -/
theorem pollInner_spec (hs : WellFormed s) {size : Nat} (hsize : 0 < size)
    {r : Poll Bytes} {inner : Wire} (h : Wire.pollRead size s.inner = (r, inner)) :
    (r = .pending ∧ KeepsReading view s { s with inner := inner } ∧
      view.left { s with inner := inner } < view.left s) ∨
    ∃ bytes, r = .ready bytes ∧ KeepsReading view s (receive bytes { s with inner := inner }) ∧
      s.inner.input = bytes ++ inner.input ∧ (bytes = [] → s.inner.input = []) := by
  have hcases := Wire.pollRead_cases hsize s.inner
  have hwrites := Wire.pollRead_writes size s.inner
  rw [h] at hcases hwrites
  dsimp only at hcases hwrites
  rcases hcases with ⟨rfl, hinput, hreads⟩ | ⟨bytes, rfl, -, hinput, hnil, hreads⟩
  · refine .inl ⟨rfl, keepsReading_of_reader hs ?_ hreads.le (by rw [hwrites]), ?_⟩
    · simp only [reader, ahead, hinput]
    · simp only [view, ahead, hinput, hwrites]
      omega
  · refine .inr ⟨bytes, rfl, keepsReading_of_reader hs ?_ hreads ?_, hinput, hnil⟩
    · simp only [reader, ahead, receive, hinput, List.append_assoc]
    · simp [receive, hwrites]

/-- An upgraded stream, but for its frames. -/
theorem WellFormed.of_upgraded (hok : s.panicked = false) (hup : s.upgraded = true)
    (hframes : s.raw = false → s.core.closed = false → ¬ Overlong s.ahead) : WellFormed s := by
  have hnot : s.upgraded ≠ false := by rw [hup]; exact nofun
  exact ⟨hok, fun h => absurd h hnot, fun h => absurd h hnot, fun h => absurd h hnot,
    fun _ => hframes⟩

theorem decoded_raw (hup : s.upgraded = true) (hraw : s.raw = true) :
    s.decoded = ⟨s.ahead, none⟩ := by
  rw [decoded, if_pos hup, if_pos hraw]

theorem decoded_framed (hup : s.upgraded = true) (hraw : s.raw = false) :
    s.decoded = s.behindPayload.prepend (s.core.payload.drop s.core.payloadAt) := by
  rw [decoded, if_pos hup, if_neg (by simp [hraw])]

/-- The case `raw`. -/
theorem readRaw_spec (hs : WellFormed s) (hup : s.upgraded = true) (hraw : s.raw = true)
    (hn : 0 < n) : ReadStep view n s (s.readRaw n).1 (s.readRaw n).2 := by
  have hden := decoded_raw hup hraw
  have hmode : s.raw ≠ false := by simp [hraw]
  unfold readRaw
  by_cases hbuffer : s.core.incoming = []
  · rw [if_neg (by simp [hbuffer])]
    have hwrites := Wire.pollRead_writes n s.inner
    have hstep := Wire.readable trivial hn (s := s.inner)
    generalize Wire.pollRead n s.inner = call at hstep hwrites
    obtain ⟨r, inner⟩ := call
    dsimp only at hwrites
    have hden : ∀ inner, view.den { s with inner := inner } = Wire.view.den inner := by
      intro inner
      have hraw' := decoded_raw (s := { s with inner := inner }) hup hraw
      rwa [ahead, hbuffer] at hraw'
    refine hstep.lift (hden s.inner) (hden inner) ?_ (fun _ => ?_) fun _ => trivial
    · simp only [view, Wire.view, ahead, hbuffer, hwrites, List.nil_append]
      omega
    · exact .of_upgraded hs.ok hup fun h => absurd h hmode
  · rw [if_pos hbuffer]
    refine .data (.of_upgraded hs.ok hup fun h => absurd h hmode) ?_ (List.length_take_le _ _) ?_ ?_
    · rw [ne_eq, List.take_eq_nil_iff]
      exact not_or.mpr ⟨by omega, hbuffer⟩
    · have hden' := decoded_raw (s := { s with core := { s.core with
        incoming := s.core.incoming.drop n } }) hup hraw
      simp only [view, hden, hden', ahead, Content.prepend, ← List.append_assoc,
        List.take_append_drop]
    · simp only [view, ahead, List.length_append, List.length_take, List.length_drop]
      omega

/-- The case `payload_at < payload.len()`. -/
theorem deliver_spec (hs : WellFormed s) (hup : s.upgraded = true) (hraw : s.raw = false)
    (hleft : s.core.payloadAt < s.core.payload.length) (hn : 0 < n) :
    ReadStep view n s (s.deliver n).1 (s.deliver n).2 := by
  unfold deliver
  refine .data (.of_upgraded hs.ok hup (hs.frames hup)) ?_ (List.length_take_le _ _) ?_ ?_
  · rw [ne_eq, List.take_eq_nil_iff, List.drop_eq_nil_iff]
    omega
  · have hden' := decoded_framed (s := { s with core := { s.core with
      payloadAt := s.core.payloadAt + min n (s.core.payload.drop s.core.payloadAt).length } })
      hup hraw
    simp only [view, hden', decoded_framed hup hraw, Content.prepend_prepend]
    rw [← List.drop_drop, List.take_eq_take_min, List.take_append_drop]
    rfl
  · simp only [view, ahead, List.length_take, List.length_drop]
    omega

/-! ## Taking a frame -/

theorem length_unmask (header : Header) (payload : Bytes) :
    (header.unmask payload).length = payload.length := by
  unfold Header.unmask
  split
  · simp [applyMask]
  · rfl

/-- What dispatching a frame does to what there is to read. -/
theorem dispatch_spec (hs : WellFormed s) (hup : s.upgraded = true) (hraw : s.raw = false)
    (hturn : s.core.Parses)
    (hbuf : s.core.incoming = f.bytes ++ rest) (mask : Bytes) {r : Except IoError Bool}
    {core : WsStream}
    (hout : dispatch mask f.opcode f.data { s.core with incoming := rest } = (r, core)) :
    (r = .ok true ∧ WellFormed { s with core := core } ∧
      decoded { s with core := core } = s.decoded ∧
      view.left { s with core := core } < view.left s) ∨
    ∃ e, r = .error e ∧ s.decoded = ⟨[], some (.other e.message)⟩ := by
  obtain ⟨hdone, hopen⟩ := hturn
  have hlen : f.bytes.length + rest.length = s.core.incoming.length := by
    rw [hbuf, List.length_append]
  have hheader : f.bytes.length = 2 + f.header.ext.length + f.header.mask.length +
      f.data.length := by
    rw [InFrame.bytes, List.length_append, f.header.length_bytes, InFrame.data, length_unmask]
  have hdrop : s.core.payload.drop s.core.payloadAt = [] := List.drop_eq_nil_iff.mpr hdone
  have hden : s.decoded = frameContent f.opcode f.data (payloads (rest ++ s.inner.input)) := by
    rw [decoded_framed hup hraw, hdrop, Content.prepend_nil, behindPayload,
      if_neg (by simp [hopen]), ahead, hbuf, List.append_assoc, payloads_frame]
  have hover : f.opcode ≠ 8 → ¬ Overlong (rest ++ s.inner.input) := by
    intro h8 hover
    refine hs.frames hup hraw hopen ?_
    rw [ahead, hbuf, InFrame.bytes, List.append_assoc, List.append_assoc]
    by_cases hfits : f.header.Fits
    · exact .next f.header hfits h8 f.payload f.full hover
    · exact .here f.header hfits _
  -- each kind of frame leaves the rest of the buffer, and no more payload than its own
  have htaken : ∀ core : WsStream, core.incoming = rest →
      core.payload.length - core.payloadAt ≤ f.data.length →
      (core.closed = false → f.opcode ≠ 8) →
      (behindPayload { s with core := core }).prepend (core.payload.drop core.payloadAt) =
        s.decoded →
      WellFormed { s with core := core } ∧ decoded { s with core := core } = s.decoded ∧
        view.left { s with core := core } < view.left s := by
    intro core hincoming hpayload hclosed hsame
    refine ⟨.of_upgraded hs.ok hup fun _ h => ?_,
      (decoded_framed (s := { s with core := core }) hup hraw).trans hsame, ?_⟩
    · rw [ahead, hincoming]
      exact hover (hclosed h)
    · simp only [view, ahead, hincoming, List.length_append]
      omega
  unfold dispatch at hout
  unfold frameContent at hden
  by_cases h02 : f.opcode = 0 ∨ f.opcode = 2
  · rw [if_pos h02] at hout hden
    obtain ⟨rfl, rfl⟩ := Prod.mk.inj hout
    refine .inl ⟨rfl, htaken _ rfl le_rfl (fun _ h8 => ?_) ?_⟩
    · rw [h8] at h02
      exact absurd h02 (by decide)
    · rw [hden]
      simp [behindPayload, ahead, hopen]
  · rw [if_neg h02] at hout hden
    by_cases h8 : f.opcode = 8
    · rw [if_pos h8] at hout hden
      obtain ⟨rfl, rfl⟩ := Prod.mk.inj hout
      refine .inl ⟨rfl, htaken _ rfl (by dsimp only; omega) (fun hopen => by cases hopen) ?_⟩
      rw [hden]
      simp [behindPayload, hdrop]
    · rw [if_neg h8] at hout hden
      -- a ping or a pong: the payload stays as it is
      have hquiet (outgoing : Bytes) (h : f.opcode = 9 ∨ f.opcode = 10) :=
        htaken { s.core with incoming := rest, outgoing := outgoing } rfl
          (by dsimp only; omega) (fun _ => h8)
          (by rw [hden, if_pos h]; simp [behindPayload, ahead, hopen, hdrop])
      by_cases h9 : f.opcode = 9
      · rw [if_pos h9] at hout
        obtain ⟨rfl, rfl⟩ := Prod.mk.inj hout
        exact .inl ⟨rfl, hquiet _ (.inl h9)⟩
      · rw [if_neg h9] at hout
        by_cases h10 : f.opcode = 10
        · rw [if_pos h10] at hout
          obtain ⟨rfl, rfl⟩ := Prod.mk.inj hout
          exact .inl ⟨rfl, hquiet _ (.inr h10)⟩
        · rw [if_neg h10] at hout
          obtain ⟨rfl, rfl⟩ := Prod.mk.inj hout
          rw [if_neg (not_or.mpr ⟨h9, h10⟩)] at hden
          exact .inr ⟨_, rfl, hden⟩

/-- A call of the parser: the frame is incomplete, or it is taken, or it is of no known kind. -/
theorem parseFrame_spec (hs : WellFormed s) (hup : s.upgraded = true) (hraw : s.raw = false)
    (hturn : s.core.Parses) (mask : Bytes) :
    (parseFrame mask s.core = .ok (.ok false, s.core) ∧ Incomplete s.core.incoming) ∨
    (∃ core, parseFrame mask s.core = .ok (.ok true, core) ∧ WellFormed { s with core := core } ∧
      decoded { s with core := core } = s.decoded ∧
      view.left { s with core := core } < view.left s) ∨
    ∃ e core, parseFrame mask s.core = .ok (.error e, core) ∧
      s.decoded = ⟨[], some (.other e.message)⟩ := by
  rcases parseFrame_cases mask s.core with hcut | ⟨f, rest, hbuf, -, hparse⟩ |
    ⟨header, rest, hbuf, hwraps, -⟩
  · exact .inl hcut
  · rcases hout : dispatch mask f.opcode f.data { s.core with incoming := rest } with ⟨r, core⟩
    rw [hout] at hparse
    rcases dispatch_spec hs hup hraw hturn hbuf mask hout with ⟨rfl, hkeeps⟩ | ⟨e, rfl, hden⟩
    · exact .inr (.inl ⟨core, hparse, hkeeps⟩)
    · exact .inr (.inr ⟨e, core, hparse, hden⟩)
  · refine absurd ?_ (hs.frames hup hraw hturn.2)
    rw [ahead, hbuf, List.append_assoc]
    exact .here header hwraps _

/-! ## A turn -/

section

variable {masks : Masks} {frames : Nat} {next : Nat → Socket → Poll Bytes × Socket}

/-- `next` reads on with fewer bytes to come or frames to take than `bound`. -/
def ReadsOn (n : Nat) (next : Nat → Socket → Poll Bytes × Socket) (bound : Nat) : Prop :=
  ∀ frames s, WellFormed s → s.inner.input.length + frames < bound →
    ReadStep view n s (next frames s).1 (next frames s).2

/-- More bytes are read; `next` goes on with them. -/
theorem readMore_spec (hs : WellFormed s) {size : Nat} (hsize : 0 < size)
    {atEnd : Poll Bytes} {next : Socket → Poll Bytes × Socket}
    (hend : s.inner.input = [] → ∀ s', KeepsReading view s s' → ReadStep view n s atEnd s')
    (hnext : ∀ s', WellFormed s' → s'.inner.input.length < s.inner.input.length →
      ReadStep view n s' (next s').1 (next s').2) :
    ReadStep view n s (s.readMore size atEnd next).1 (s.readMore size atEnd next).2 := by
  unfold readMore
  rcases hcall : Wire.pollRead size s.inner with ⟨r, inner⟩
  rcases pollInner_spec hs hsize hcall with
    ⟨rfl, hkeeps, hless⟩ | ⟨bytes, rfl, hkeeps, hinput, hnil⟩
  · exact .pending hkeeps.inv hkeeps.same hless
  · rw [Poll.andThen_ready]
    by_cases hempty : bytes = []
    · rw [if_pos hempty]
      rw [hempty, receive_nil] at hkeeps
      exact hend (hnil hempty) _ hkeeps
    · rw [if_neg hempty]
      have hpos := List.length_pos_iff.mpr hempty
      refine (hnext _ hkeeps.inv ?_).of_same hkeeps.same hkeeps.le
      rw [hinput, List.length_append]
      simp only [receive]
      omega

/-- A turn that gets to the parser. -/
theorem readFrame_spec (hs : WellFormed s) (hup : s.upgraded = true) (hraw : s.raw = false)
    (hturn : s.core.Parses) (hnext : ReadsOn n next (s.inner.input.length + frames)) :
    ReadStep view n s (s.readFrame masks next frames).1 (s.readFrame masks next frames).2 := by
  unfold readFrame
  rcases parseFrame_spec hs hup hraw hturn (masks (64 - frames)).toList with
    ⟨hparse, hcut⟩ | ⟨core, hparse, hwf, hsame, hless⟩ | ⟨e, core, hparse, hden⟩
  · rw [hparse]
    refine readMore_spec hs (by decide) (fun hinput s' hkeeps => ?_) fun s' hs' hless =>
      hnext frames s' hs' (by omega)
    -- the stream is over
    have hden : s.decoded = noFrame s.core.incoming := by
      rw [decoded_framed hup hraw, List.drop_eq_nil_iff.mpr hturn.1, Content.prepend_nil,
        behindPayload, if_neg (by simp [hturn.2]), ahead, hinput, List.append_nil,
        payloads_incomplete hcut]
    unfold noFrame at hden
    split
    · next hempty =>
      rw [if_pos hempty] at hden
      exact .eof hkeeps.inv trivial hden hkeeps.same hkeeps.le
    · next hempty =>
      rw [if_neg hempty] at hden
      exact .error trivial rfl hden
  · rw [hparse]
    dsimp only
    by_cases hlast : frames ≤ 1
    · rw [if_pos hlast]
      exact .pending hwf hsame hless
    · rw [if_neg hlast]
      refine (hnext (frames - 1) _ hwf ?_).of_same hsame hless.le
      dsimp only
      omega
  · rw [hparse]
    exact .error trivial rfl hden

/-- A turn on an upgraded stream. If the flush before it has to wait, then so may the end of the
stream, and the wait has used up something. -/
theorem readUpgraded_spec (hs : WellFormed s) (hup : s.upgraded = true) (hn : 0 < n)
    {flushed : Poll Unit} {s₀ : Socket} (hsame : s.decoded = s₀.decoded)
    (hle : view.left s ≤ view.left s₀) (hpending : flushed = .pending → view.left s < view.left s₀)
    (hfailed : ∀ e, flushed ≠ .failed e)
    (hnext : ReadsOn n next (s.inner.input.length + frames)) :
    ReadStep view n s₀ (s.readUpgraded masks n next frames flushed).1
      (s.readUpgraded masks n next frames flushed).2 := by
  unfold readUpgraded
  by_cases hraw : s.raw = true
  · rw [if_pos hraw]
    exact (readRaw_spec hs hup hraw hn).of_same hsame hle
  · rw [if_neg hraw]
    rw [Bool.not_eq_true] at hraw
    by_cases hleft : s.core.payloadAt < s.core.payload.length
    · rw [if_pos hleft]
      exact (deliver_spec hs hup hraw hleft hn).of_same hsame hle
    · rw [if_neg hleft]
      by_cases hclosed : s.core.closed = true
      · rw [if_pos hclosed]
        rcases flushed with _ | _ | e
        · exact .pending hs hsame (hpending rfl)
        · have hden : s.decoded = ⟨[], none⟩ := by
            rw [decoded_framed hup hraw, List.drop_eq_nil_iff.mpr (by omega), behindPayload,
              if_pos hclosed]
            rfl
          exact .eof hs trivial (hsame.symm.trans hden) hsame hle
        · exact absurd rfl (hfailed e)
      · rw [if_neg hclosed]
        rw [Bool.not_eq_true] at hclosed
        exact (readFrame_spec hs hup hraw ⟨by omega, hclosed⟩ hnext).of_same hsame hle

theorem flushOutgoing_failed (h : s.flushOutgoing.1 = .failed e) : e.sending = true := by
  unfold flushOutgoing at h
  have hdrain : ∀ e', (drain Wire.pollWrite s.core.outgoing s.core.outgoingAt s.inner).1 =
      .failed e' → e'.sending = true := fun e' h => drain_failed Wire.writable _ _ _ h
  generalize drain Wire.pollWrite s.core.outgoing s.core.outgoingAt s.inner = call at h hdrain
  rcases call with ⟨_ | _ | e', stop, inner⟩
  · cases h
  · rw [Poll.andThen_ready] at h
    have hflush := Wire.flush_step inner
    rw [h] at hflush
    cases hflush with
    | failed sending same => exact sending
  · cases h
    exact hdrain e rfl

theorem left_forReader (s : Socket) :
    view.left s = view.left s.forReader + s.inner.writes.length := by
  simp only [view, forReader, ahead, List.length_nil]
  omega

/-- A flush that has to wait has used up something. -/
theorem flushOutgoing_less (h : s.flushOutgoing.1 = .pending) :
    view.left s.flushOutgoing.2 < view.left s := by
  have hless := s.flushOutgoing_writes.2 h
  rw [left_forReader, left_forReader s, s.flushOutgoing_forReader]
  omega

/-- The head is complete: the stream goes on behind it. -/
theorem parseUpgrade_spec (hs : WellFormed s) (hno : s.upgraded = false) :
    (∃ e, s.parseUpgrade = .error e ∧ e.sending = false ∧ s.decoded = ⟨[], some e⟩) ∨
    (s.parseUpgrade = .ok (false, s) ∧ headEnd s.core.incoming = none) ∨
    ∃ s', s.parseUpgrade = .ok (true, s') ∧ s'.upgraded = true ∧ s'.inner = s.inner ∧
      KeepsReading view s s' := by
  unfold parseUpgrade
  rcases hend : headEnd s.core.incoming with _ | stop
  · exact .inr (.inl ⟨rfl, rfl⟩)
  · have hle := (headEnd_le hend).2
    have hahead : headEnd s.ahead = some stop := (headEnd_append_iff hle _).mpr hend
    have htake : s.ahead.take stop = s.core.incoming.take stop := List.take_append_of_le_length hle
    have hdrop : s.ahead.drop stop = s.core.incoming.drop stop ++ s.inner.input :=
      List.drop_append_of_le_length hle
    have hden : s.decoded = served s.raw s.expectedAccept s.ahead := by
      rw [decoded, if_neg (by simp [hno])]
    unfold served at hden
    rw [hahead] at hden
    dsimp only at hden ⊢
    rw [htake] at hden
    rcases hcheck : checkHead s.expectedAccept (s.core.incoming.take stop) with e | _
    · rw [hcheck] at hden
      exact .inl ⟨e, rfl, checkHead_error hcheck, hden⟩
    · rw [hcheck] at hden
      refine .inr (.inr ⟨_, rfl, rfl, rfl, ?_, ?_, ?_⟩)
      · refine ⟨hs.ok, nofun, nofun, nofun, fun _ hraw _ => ?_⟩
        have hsafe := (hs.head hno stop hahead).2 hraw
        rwa [hdrop] at hsafe
      · obtain ⟨hdone, hopen⟩ := hs.fresh hno
        refine Eq.trans ?_ hden.symm
        rw [hdrop]
        simp only [view, decoded, behindHead, behindPayload, ahead, if_true, hopen,
          List.drop_eq_nil_iff.mpr hdone, Content.prepend_nil, Bool.false_eq_true, if_false]
      · simp only [view, ahead, List.length_append, List.length_drop]
        omega

/-- A turn. -/
theorem turn_spec (hs : WellFormed s) (hn : 0 < n)
    (hnext : ReadsOn n next (s.inner.input.length + frames)) :
    ReadStep view n s (s.turn masks n next frames).1 (s.turn masks n next frames).2 := by
  have hkeeps := s.flushOutgoing_sendsOnly.keepsReading hs
  have hinput : s.flushOutgoing.2.inner.input = s.inner.input :=
    congrArg (fun s => s.inner.input) s.flushOutgoing_forReader
  have hpending : s.flushOutgoing.1 = .pending → _ := flushOutgoing_less
  have hfailed : ∀ e, s.flushOutgoing.1 = .failed e → e.sending = true := fun e h =>
    flushOutgoing_failed h
  unfold turn
  generalize s.flushOutgoing = call at hkeeps hinput hpending hfailed
  obtain ⟨flushed, s₁⟩ := call
  obtain ⟨hwf, hsame, hle⟩ := hkeeps
  dsimp only at hwf hsame hle hinput hpending hfailed
  rw [← hinput] at hnext
  split
  · next e s₂ heq =>
    obtain ⟨rfl, rfl⟩ := Prod.mk.inj heq
    exact .aside hwf (hfailed e rfl) hsame hle
  · next flushed₂ s₂ hne heq =>
    obtain ⟨rfl, rfl⟩ := Prod.mk.inj heq
    have hfine : ∀ e, flushed ≠ .failed e := fun e h => hne e h
    by_cases hup : s₁.upgraded = true
    · rw [if_pos hup]
      exact readUpgraded_spec hwf hup hn hsame hle hpending hfine hnext
    · rw [if_neg hup]
      rw [Bool.not_eq_true] at hup
      rcases parseUpgrade_spec hwf hup with ⟨e, hparse, hown, hden⟩ | ⟨hparse, hnone⟩ |
        ⟨s₂, hparse, hup₂, hinner, hkeeps⟩
      · rw [hparse]
        exact .error trivial hown (hsame.symm.trans hden)
      · rw [hparse]
        dsimp only
        have hshort : s₁.core.incoming.length < maxHeaders := by
          rcases hend : headEnd s₁.ahead with _ | stop
          · have := hwf.short hup hend
            rw [ahead, List.length_append] at this
            omega
          · have hlate : s₁.core.incoming.length < stop := by
              by_contra hle
              rw [ahead, headEnd_append_iff (by omega), hnone] at hend
              cases hend
            have := (hwf.head hup stop hend).1
            omega
        rw [if_neg (by omega)]
        refine (readMore_spec hwf (by decide) (fun hempty s' hkeeps => ?_) fun s' hs' hless =>
          hnext frames s' hs' (by omega)).of_same hsame hle
        refine .error trivial rfl ?_
        change s₁.decoded = _
        rw [decoded, if_neg (by simp [hup]), served, ahead, hempty, List.append_nil, hnone]
      · rw [hparse]
        refine readUpgraded_spec hkeeps.inv hup₂ hn (hkeeps.same.trans hsame) (hkeeps.le.trans hle)
          (fun h => hkeeps.le.trans_lt (hpending h)) hfine ?_
        rwa [hinner]

/-- A whole read. A turn that goes on has taken a frame or read some bytes. -/
theorem readLoop_spec (hs : WellFormed s) (hn : 0 < n) {turns : Nat}
    (hturns : s.inner.input.length + frames < turns) :
    ReadStep view n s (readLoop masks n turns frames s).1 (readLoop masks n turns frames s).2 := by
  induction turns generalizing s frames with
  | zero => omega
  | succ turns ih => exact turn_spec hs hn fun frames' s' hs' hless => ih hs' (by omega)

theorem pollRead_spec (hs : WellFormed s) (hn : 0 < n) :
    ReadStep view n s (s.pollRead masks n).1 (s.pollRead masks n).2 := by
  unfold pollRead
  rw [if_neg (by simp [hs.ok]), if_neg (by omega)]
  exact readLoop_spec hs hn (by omega)

end

/-! ## The other calls -/

variable (hs : WellFormed s)
include hs

theorem pollWrite_keeps (bytes : Bytes) (mask : Vector UInt8 4) :
    KeepsReading view s (s.pollWrite bytes mask).2 := by
  refine SendsOnly.keepsReading ?_ hs
  unfold pollWrite
  rw [if_neg (by simp [hs.ok])]
  refine Poll.andThen_holds (P := SendsOnly s) s.flushOutgoing_sendsOnly fun _ s₁ hs₁ => ?_
  split
  · exact hs₁
  split
  · exact hs₁
  split
  · exact hs₁.send _ _ _
  · exact hs₁

theorem pollFlush_keeps : KeepsReading view s s.pollFlush.2 := by
  unfold pollFlush
  rw [if_neg (by simp [hs.ok])]
  exact s.flushOutgoing_sendsOnly.keepsReading hs

theorem pollShutdown_keeps : KeepsReading view s s.pollShutdown.2 := by
  refine SendsOnly.keepsReading ?_ hs
  unfold pollShutdown
  rw [if_neg (by simp [hs.ok])]
  exact Poll.andThen_holds (P := SendsOnly s) s.flushOutgoing_sendsOnly fun _ s₁ hs₁ =>
    hs₁.send _ _ _

/-- Waiting for the response head leaves alone what is behind it. -/
theorem upgradeLoop_keeps (turns : Nat) : KeepsReading view s (upgradeLoop turns s).2 := by
  induction turns generalizing s with
  | zero => exact ⟨hs, rfl, le_rfl⟩
  | succ turns ih =>
    unfold upgradeLoop readMore
    by_cases hup : s.upgraded = true
    · rw [if_pos hup]
      exact ⟨hs, rfl, le_rfl⟩
    · rw [if_neg hup]
      rw [Bool.not_eq_true] at hup
      split
      · exact ⟨hs, rfl, le_rfl⟩
      · rcases hcall : Wire.pollRead 2048 s.inner with ⟨r, inner⟩
        rcases pollInner_spec hs (by decide) hcall with ⟨rfl, hkeeps, -⟩ | ⟨bytes, rfl, hkeeps, -⟩
        · exact hkeeps
        · rw [Poll.andThen_ready]
          by_cases hempty : bytes = []
          · rw [if_pos hempty]
            rwa [hempty, receive_nil] at hkeeps
          · rw [if_neg hempty]
            dsimp only
            have hno : (receive bytes { s with inner := inner }).upgraded = false := hup
            rcases parseUpgrade_spec hkeeps.inv hno with ⟨e, hparse, -⟩ | ⟨hparse, -⟩ |
              ⟨s₂, hparse, -, -, hkeeps₂⟩
            · rw [hparse]
              exact hkeeps
            · rw [hparse]
              exact hkeeps.trans (ih hkeeps.inv)
            · rw [hparse]
              exact hkeeps.trans (hkeeps₂.trans (ih hkeeps₂.inv))

theorem readUpgrade_keeps : KeepsReading view s s.readUpgrade.2 := by
  unfold readUpgrade
  rw [if_neg (by simp [hs.ok])]
  exact upgradeLoop_keeps hs _

end Parts

end Socket

open Socket

/-! ## Runs -/

/-- A call that reads. -/
def Op.reads : Op → Bool
  | .read _ n => decide (0 < n)
  | _ => false

/-- The result of a call, if it reads. -/
def readStep (s : Socket) (op : Op) : Option (Poll Bytes) × Socket :=
  match (step s op).1 with
  | .read r => (if op.reads then some r else none, (step s op).2)
  | _ => (none, (step s op).2)

theorem readStep_spec (s : Socket) (op : Op) (hs : WellFormed s) :
    CallStep view op.reads s (readStep s op) := by
  cases op with
  | read masks n =>
    by_cases hn : 0 < n
    · have hreads : Op.reads (.read masks n) = true := decide_eq_true hn
      simp only [readStep, hreads]
      exact ⟨rfl, n, pollRead_spec hs hn⟩
    · obtain rfl : n = 0 := by omega
      have hnothing : s.pollRead masks 0 = (.ready [], s) := by
        rw [pollRead, if_neg (by simp [hs.ok]), if_pos rfl]
      simp only [readStep, step, hnothing]
      exact ⟨rfl, hs, rfl, le_rfl⟩
  | write bytes mask => exact ⟨rfl, pollWrite_keeps hs bytes mask⟩
  | flush => exact ⟨rfl, pollFlush_keeps hs⟩
  | shutdown => exact ⟨rfl, pollShutdown_keeps hs⟩
  | upgrade => exact ⟨rfl, readUpgrade_keeps hs⟩

/-! ## Well-formed streams -/

/-- A response head that upgrades the connection. -/
structure Upgrades (expected : Option Text) (head : Bytes) : Prop where
  ends : headEnd head = some head.length
  short : head.length < maxHeaders
  accepted : checkHead expected head = .ok ()

/-- A frame of one of the kinds that the reader knows, of a length below 2^63. -/
structure InFrame.Known (f : InFrame) : Prop where
  kind : f.opcode = 0 ∨ f.opcode = 2 ∨ f.opcode = 8 ∨ f.opcode = 9 ∨ f.opcode = 10
  size : f.header.len < 2 ^ 63

/-- The frames before the first close. -/
def beforeClose (fs : List InFrame) : List InFrame := fs.takeWhile fun f => f.opcode != 8

/-- The payloads of the binary and continuation frames. -/
def dataOf (fs : List InFrame) : Bytes :=
  (fs.filter fun f => f.opcode == 0 || f.opcode == 2).flatMap InFrame.data

/-- What a server sends that keeps to the protocol, and what there is to read in it. -/
inductive Served (raw : Bool) (expected : Option Text) : Bytes → Content → Prop
  /-- the stream ends inside the head -/
  | inHead {head part} (upgrades : Upgrades expected head) (cut : part <+: head)
      (short : part ≠ head) : Served raw expected part ⟨[], some .unexpectedEof⟩
  /-- raw mode -/
  | raw {head rest} (mode : raw = true) (upgrades : Upgrades expected head) :
      Served raw expected (head ++ rest) ⟨rest, none⟩
  /-- frames -/
  | frames {head fs} (mode : raw = false)
      (upgrades : Upgrades expected head) (known : ∀ f ∈ fs, f.Known) :
      Served raw expected (head ++ fs.flatMap InFrame.bytes) ⟨dataOf (beforeClose fs), none⟩
  /-- frames, and the stream ends inside the last one -/
  | inFrame {head part fs last} (mode : raw = false)
      (upgrades : Upgrades expected head) (known : ∀ f ∈ fs ++ [last], f.Known)
      (cut : part <+: last.bytes) (short : part ≠ last.bytes) (some : part ≠ []) :
      Served raw expected (head ++ (fs.flatMap InFrame.bytes ++ part))
        ⟨dataOf (beforeClose fs), if ∃ f ∈ fs, f.opcode = 8 then none else .some .unexpectedEof⟩

section WellFormed

variable {raw : Bool} {expected : Option Text} {head : Bytes}

theorem served_head (h : Upgrades expected head) (rest : Bytes) :
    served raw expected (head ++ rest) = behindHead raw rest := by
  have hend : headEnd (head ++ rest) = some head.length :=
    (headEnd_append_iff le_rfl rest).mpr h.ends
  rw [served, hend]
  dsimp only
  rw [List.take_left, h.accepted, List.drop_left]

/-- No head ends inside a head. -/
theorem headEnd_cut (h : headEnd head = some head.length)
    (hcut : part <+: head) (hshort : part ≠ head) : headEnd part = none := by
  obtain ⟨more, rfl⟩ := hcut
  have hmore : 0 < more.length := by
    rw [List.length_pos_iff]
    rintro rfl
    exact hshort (List.append_nil part).symm
  rcases hend : headEnd part with _ | stop
  · rfl
  · have hle := (headEnd_le hend).2
    rw [(headEnd_append_iff hle more).mpr hend, Option.some.injEq, List.length_append] at h
    omega

theorem InFrame.Known.fits (h : f.Known) : f.header.Fits := by
  have hsize := h.size
  have hext : f.header.ext.length ≤ 8 := f.header.ext_length ▸ extLength_le _
  have hmask : f.header.mask.length ≤ 4 := f.header.mask_length ▸ maskLength_le _
  unfold Header.Fits
  rw [f.header.length_bytes]
  omega

/-- Whole frames: their data up to the first close, and what follows if there is none. -/
theorem payloads_frames (hknown : ∀ f ∈ fs, f.Known) (tail : Bytes) :
    payloads (fs.flatMap InFrame.bytes ++ tail) =
      (if ∃ f ∈ fs, f.opcode = 8 then ⟨[], none⟩ else payloads tail).prepend
        (dataOf (beforeClose fs)) := by
  induction fs with
  | nil => simp [dataOf, beforeClose]
  | cons f fs ih =>
    have hf := hknown f List.mem_cons_self
    rw [List.flatMap_cons, List.append_assoc, payloads_frame,
      ih fun g hg => hknown g (List.mem_cons_of_mem f hg)]
    unfold frameContent
    by_cases h8 : f.opcode = 8
    · simp [h8, beforeClose, dataOf]
    · have hbefore : beforeClose (f :: fs) = f :: beforeClose fs := by
        simp [beforeClose, h8]
      have hclose : (∃ g ∈ f :: fs, g.opcode = 8) ↔ ∃ g ∈ fs, g.opcode = 8 := by
        simp [h8]
      rw [hbefore, if_neg h8]
      simp only [hclose]
      by_cases h02 : f.opcode = 0 ∨ f.opcode = 2
      · have hdata : dataOf (f :: beforeClose fs) = f.data ++ dataOf (beforeClose fs) := by
          simp [dataOf, h02]
        rw [if_pos h02, hdata, Content.prepend_prepend]
      · have hdata : dataOf (f :: beforeClose fs) = dataOf (beforeClose fs) := by
          simp [dataOf, h02]
        have hcontrol : f.opcode = 9 ∨ f.opcode = 10 := by
          rcases hf.kind with h | h | h | h | h
          · exact absurd (.inl h) h02
          · exact absurd (.inr h) h02
          · exact absurd h h8
          · exact .inl h
          · exact .inr h
        rw [if_neg h02, if_pos hcontrol, hdata]

theorem not_overlong_frames (hknown : ∀ f ∈ fs, f.Known) {tail : Bytes}
    (htail : ¬ Overlong tail) : ¬ Overlong (fs.flatMap InFrame.bytes ++ tail) := by
  induction fs with
  | nil => exact htail
  | cons f fs ih =>
    intro hover
    rw [List.flatMap_cons, List.append_assoc, InFrame.bytes, List.append_assoc] at hover
    have hrest := (hover.tail (hknown f List.mem_cons_self).fits f.full).2
    exact ih (fun g hg => hknown g (List.mem_cons_of_mem f hg)) hrest

/-- A header in front of the beginning of a frame is the header of the frame, and the payload behind
it is incomplete. -/
theorem header_of_cut (hcut : part <+: f.bytes) (hshort : part ≠ f.bytes)
    (hpart : part = header.bytes ++ rest) : header = f.header ∧ rest.length < f.header.len := by
  obtain ⟨more, hmore⟩ := hcut
  have hpos : 0 < more.length := by
    rw [List.length_pos_iff]
    rintro rfl
    exact hshort ((List.append_nil part).symm.trans hmore)
  rw [hpart, List.append_assoc] at hmore
  obtain ⟨rfl, hpayload⟩ := Header.bytes_inj hmore
  refine ⟨rfl, ?_⟩
  rw [← f.full, ← hpayload, List.length_append]
  omega

theorem not_overlong_cut (hf : f.Known)
    (hcut : part <+: f.bytes) (hshort : part ≠ f.bytes) : ¬ Overlong part := by
  intro hover
  cases hover with
  | here header overflows rest =>
    obtain ⟨rfl, -⟩ := header_of_cut hcut hshort rfl
    exact overflows hf.fits
  | next header fits opens payload full tail =>
    obtain ⟨rfl, hless⟩ := header_of_cut hcut hshort rfl
    rw [List.length_append] at hless
    omega

/-- A new socket in front of a head, with what may follow it. -/
theorem wellFormed_head (h : Upgrades expected head)
    (hsafe : raw = false → ¬ Overlong rest) (reads : List (Option Nat)) (writes : List Grant) :
    WellFormed (.new ⟨head ++ rest, reads, writes, []⟩ raw expected) := by
  have hend : headEnd (head ++ rest) = some head.length :=
    (headEnd_append_iff le_rfl rest).mpr h.ends
  refine ⟨rfl, fun _ => ⟨le_rfl, rfl⟩, fun _ hnone => ?_, fun _ stop hstop => ?_, nofun⟩
  · change headEnd (head ++ rest) = none at hnone
    rw [hend] at hnone
    cases hnone
  · change headEnd (head ++ rest) = some stop at hstop
    rw [hend] at hstop
    cases hstop
    refine ⟨h.short.le, fun hraw => ?_⟩
    change ¬ Overlong ((head ++ rest).drop head.length)
    rw [List.drop_left]
    exact hsafe hraw

/-- A well-formed stream is what the socket has to read at first. -/
theorem Served.start {input : Bytes} {content : Content}
    (h : Served raw expected input content) (reads : List (Option Nat)) (writes : List Grant) :
    WellFormed (.new ⟨input, reads, writes, []⟩ raw expected) ∧
      served raw expected input = content := by
  cases h with
  | @inHead head _ upgrades cut short =>
    have hnone := headEnd_cut upgrades.ends cut short
    refine ⟨⟨rfl, fun _ => ⟨le_rfl, rfl⟩, fun _ _ => ?_, fun _ stop hstop => ?_, nofun⟩, ?_⟩
    · exact cut.length_le.trans_lt upgrades.short
    · change headEnd input = some stop at hstop
      rw [hnone] at hstop
      cases hstop
    · rw [served, hnone]
  | raw mode upgrades =>
    refine ⟨wellFormed_head upgrades (fun h => ?_) reads writes, ?_⟩
    · rw [mode] at h
      cases h
    · rw [served_head upgrades, behindHead, if_pos mode]
  | @frames head fs mode upgrades known =>
    have hdata := payloads_frames known []
    have hsafe := not_overlong_frames known (nofun : ¬ Overlong [])
    rw [List.append_nil] at hdata hsafe
    refine ⟨wellFormed_head upgrades (fun _ => hsafe) reads writes, ?_⟩
    rw [served_head upgrades, behindHead, if_neg (by simp [mode]), hdata,
      payloads_incomplete (nofun : Incomplete []), noFrame]
    simp [Content.prepend]
  | @inFrame head part fs last mode upgrades known cut short some =>
    have hknown : ∀ f ∈ fs, f.Known := fun f hf => known f (List.mem_append_left _ hf)
    have hlast : last.Known := known last (List.mem_append_right _ (List.mem_singleton_self _))
    have hcut : Incomplete part := fun header rest hpart => by
      obtain ⟨rfl, hless⟩ := header_of_cut cut short hpart
      exact hless
    have hsafe := not_overlong_frames hknown (not_overlong_cut hlast cut short)
    refine ⟨wellFormed_head upgrades (fun _ => hsafe) reads writes, ?_⟩
    rw [served_head upgrades, behindHead, if_neg (by simp [mode]), payloads_frames hknown,
      payloads_incomplete hcut, noFrame]
    split
    · simp [Content.prepend]
    · simp [Content.prepend]

end WellFormed

end Clyntis.Protocol.WebSocket
