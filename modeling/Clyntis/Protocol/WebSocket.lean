import Clyntis.Lib.Exec
import Clyntis.Net.Addr

/-!
# Reading WebSocket frames (`websocket.rs`)

`WsStream::poll_read` collects bytes from the server in a buffer and takes frames
off its front. The bytes are the server's, so the frame parser has to cope with
every header.

- `parseFrame`: the parser, with the release build's wrapping `usize` additions
  (`usizeAdd`) and every index and slice checked;
- `Step`: one turn of the loop in `poll_read` on an upgraded, framed stream. A
  poll that returns and is called again goes on where it left off, so runs of
  `Step` cover every cut of the bytes into reads and every caller buffer;
- `Header`, `Overlong`: frames on the wire, and byte streams in which a frame's
  header announces a length that does not fit `usize` together with the header.

`parseFrame_sound_iff` is the statement for one buffer, and
`reads_sound_iff_not_overlong` the one for all runs over a byte stream.
-/

namespace Clyntis.Protocol.WebSocket

open Lib Net List

/-- Addition of 64-bit `usize` values without overflow checks. -/
def usizeAdd (a b : Nat) : Nat := (a + b) % 2 ^ 64

/-- `io::Error::other` and its text. -/
structure IoError where
  message : String
  deriving DecidableEq, Repr

/-- `WsStream` after the upgrade, in framed mode. `received` records the bytes read
from the inner stream since then. -/
structure WsStream where
  incoming : Bytes
  payload : Bytes := []
  payloadAt : Nat := 0
  outgoing : Bytes := []
  outgoingAt : Nat := 0
  closed : Bool := false
  received : Bytes
  deriving DecidableEq, Repr

/-! ## The parser -/

/-- `b ^ mask[i % 4]` over a payload. -/
def applyMask (mask bytes : Bytes) : Bytes :=
  bytes.zipIdx.map fun e => e.1 ^^^ mask.getD (e.2 % 4) 0

/-- `frame`: a masked frame; `mask` is the four random bytes. -/
def frame (mask bytes : Bytes) (opcode : UInt8) : Bytes :=
  let len := bytes.length
  let size :=
    if len < 126 then [0x80 ||| UInt8.ofNat len]
    else if len ≤ 65535 then (0x80 ||| 126) :: beBytes 2 len
    else (0x80 ||| 127) :: beBytes 8 len
  (0x80 ||| opcode) :: (size ++ mask ++ applyMask mask bytes)

/-- The payload length and where the length field ends; `none` while the field
is incomplete. -/
def lengthField (buffer : Bytes) : Exec (Option (Nat × Nat)) := do
  let code := ((← index buffer 1) &&& 0x7f).toNat
  if code = 126 then
    if buffer.length < 4 then return none
    return some (beNat [← index buffer 2, ← index buffer 3], 4)
  else if code = 127 then
    if buffer.length < 10 then return none
    return some (beNat (← slice buffer 2 10), 10)
  else
    return some (code, 2)

/-- The mask and where the payload starts; `none` while the mask is incomplete. -/
def maskField (buffer : Bytes) (masked : Bool) (start : Nat) :
    Exec (Option (Option Bytes × Nat)) := do
  if masked then
    if buffer.length < start + 4 then return none
    return some (some (← slice buffer start (start + 4)), start + 4)
  else
    return some (none, start)

/-- The `match opcode` of `parse_frame`, on the unmasked payload. -/
def dispatch (mask : Bytes) (opcode : UInt8) (data : Bytes) (s : WsStream) :
    Except IoError Bool × WsStream :=
  if opcode = 0 ∨ opcode = 2 then (.ok true, { s with payload := data, payloadAt := 0 })
  else if opcode = 8 then
    (.ok true, { s with closed := true, outgoing := s.outgoing ++ frame mask data 8 })
  else if opcode = 9 then
    (.ok true, { s with outgoing := s.outgoing ++ frame mask data 10 })
  else if opcode = 10 then (.ok true, s)
  else (.error ⟨"unsupported WebSocket frame"⟩, s)

variable (reply : Bytes)

/-- `parse_frame`: takes one frame off the buffer; `false` while it is incomplete.
`reply` is the mask drawn for a control reply. -/
def parseFrame (s : WsStream) : Exec (Except IoError Bool × WsStream) := do
  let buffer := s.incoming
  if buffer.length < 2 then return (.ok false, s)
  let opcode := (← index buffer 0) &&& 0x0f
  let masked := (← index buffer 1) &&& 0x80 != 0
  match ← lengthField buffer with
  | none => return (.ok false, s)
  | some (len, start) =>
    match ← maskField buffer masked start with
    | none => return (.ok false, s)
    | some (mask, start) =>
      if buffer.length < usizeAdd start len then return (.ok false, s)
      let data ← slice buffer start (usizeAdd start len)
      let rest ← sliceFrom buffer (usizeAdd start len)
      let data := match mask with
        | some mask => applyMask mask data
        | none => data
      return dispatch reply opcode data { s with incoming := rest }

/-! ## Frames on the wire -/

variable (second : UInt8)

/-- How many bytes of extended length follow the second byte. -/
def extLength : Nat :=
  if second &&& 0x7f = 126 then 2 else if second &&& 0x7f = 127 then 8 else 0

/-- How many bytes of mask the second byte announces. -/
def maskLength : Nat := if second &&& 0x80 = 0 then 0 else 4

theorem extLength_le : extLength second ≤ 8 := by
  unfold extLength
  split_ifs <;> omega

theorem maskLength_le : maskLength second ≤ 4 := by
  unfold maskLength
  split_ifs <;> omega

/-- The length field of a buffer of two bytes or more: incomplete, or read. -/
theorem lengthField_cons (first second : UInt8) (tail : Bytes) :
    lengthField (first :: second :: tail) =
      if tail.length < extLength second then .ok none
      else .ok (some (if extLength second = 0 then (second &&& 0x7f).toNat
        else beNat (tail.take (extLength second)), 2 + extLength second)) := by
  have h126 : (second &&& 0x7f).toNat = 126 ↔ second &&& 0x7f = 126 :=
    UInt8.toNat_inj (b := 126)
  have h127 : (second &&& 0x7f).toNat = 127 ↔ second &&& 0x7f = 127 :=
    UInt8.toNat_inj (b := 127)
  unfold lengthField extLength
  rw [show index (first :: second :: tail) 1 = .ok second from rfl, Exec.ok_bind]
  simp only [h126, h127]
  by_cases c126 : second &&& 0x7f = 126
  · simp only [if_pos c126]
    match tail with
    | [] | [_] => rfl
    | a :: b :: rest =>
      rfl
  · simp only [if_neg c126]
    by_cases c127 : second &&& 0x7f = 127
    · simp only [if_pos c127]
      have hlen : (first :: second :: tail).length = 2 + tail.length := by
        simp only [length_cons]
        omega
      by_cases hshort : tail.length < 8
      · rw [if_pos (by omega), if_pos hshort]
        rfl
      · rw [if_neg (by omega), if_neg hshort, slice_ok (by omega) (by omega)]
        rfl
    · simp only [if_neg c127]
      rfl

/-- A complete frame header: two bytes, the extended length and the mask. -/
structure Header where
  first : UInt8
  second : UInt8
  ext : Bytes
  mask : Bytes
  ext_length : ext.length = extLength second
  mask_length : mask.length = maskLength second

namespace Header

def opcode (h : Header) : UInt8 := h.first &&& 0x0f

/-- The announced payload length. -/
def len (h : Header) : Nat :=
  if h.ext = [] then (h.second &&& 0x7f).toNat else beNat h.ext

def bytes (h : Header) : Bytes := h.first :: h.second :: (h.ext ++ h.mask)

/-- The mask, if the frame has one. -/
def maskOf (h : Header) : Option Bytes :=
  if h.second &&& 0x80 = 0 then none else some h.mask

/-- The payload as the reader sees it. -/
def unmask (h : Header) (payload : Bytes) : Bytes :=
  match h.maskOf with
  | some mask => applyMask mask payload
  | none => payload

/-- Header and payload together fit `usize`. -/
def Fits (h : Header) : Prop := h.bytes.length + h.len < 2 ^ 64

instance (h : Header) : Decidable h.Fits := inferInstanceAs (Decidable (_ < _))

theorem length_bytes (h : Header) : h.bytes.length = 2 + h.ext.length + h.mask.length := by
  simp only [bytes, length_cons, length_append]
  omega

/-- The announced length is a 64-bit value. -/
theorem len_lt (h : Header) : h.len < 2 ^ 64 := by
  unfold len
  split
  · have := (h.second &&& 0x7f).toNat_lt
    omega
  · calc beNat h.ext < 256 ^ h.ext.length := beNat_lt _
      _ ≤ 256 ^ 8 := Nat.pow_le_pow_right (by omega) (h.ext_length ▸ extLength_le _)
      _ = 2 ^ 64 := by norm_num

/-- The length field of a complete header. -/
theorem lengthField_bytes (h : Header) (rest : Bytes) :
    lengthField (h.bytes ++ rest) = .ok (some (h.len, 2 + h.ext.length)) := by
  show lengthField (h.first :: h.second :: (h.ext ++ h.mask ++ rest)) = _
  rw [lengthField_cons, ← h.ext_length, append_assoc, take_left,
    if_neg (by rw [length_append]; omega)]
  simp only [len, length_eq_zero_iff]

/-- The mask of a complete header. -/
theorem maskField_bytes (h : Header) (rest : Bytes) :
    maskField (h.bytes ++ rest) (h.second &&& 0x80 != 0) (2 + h.ext.length)
      = .ok (some (h.maskOf, h.bytes.length)) := by
  have hlen := h.length_bytes
  have hmask := h.mask_length
  unfold maskLength at hmask
  unfold maskField maskOf
  by_cases hm : h.second &&& 0x80 = 0
  · rw [if_pos hm] at hmask
    rw [if_neg (by simp [hm]), if_pos hm, hlen, hmask]
    rfl
  · rw [if_neg hm] at hmask
    rw [if_pos (by simpa using hm), if_neg hm, if_neg (by rw [length_append]; omega),
      slice_ok (by omega) (by rw [length_append]; omega)]
    have hdrop : ((h.bytes ++ rest).drop (2 + h.ext.length)).take
        (2 + h.ext.length + 4 - (2 + h.ext.length)) = h.mask := by
      rw [show h.bytes ++ rest = (h.first :: h.second :: h.ext) ++ (h.mask ++ rest) by simp [bytes],
        drop_left' (by simp; omega), Nat.add_sub_cancel_left, ← hmask, take_left]
    simp only [hdrop, hlen, hmask]
    rfl

end Header

theorem length_extField {second : UInt8} {tail : Bytes}
    (h : extLength second + maskLength second ≤ tail.length) :
    (tail.take (extLength second)).length = extLength second := by
  rw [length_take]
  omega

theorem length_maskField {second : UInt8} {tail : Bytes}
    (h : extLength second + maskLength second ≤ tail.length) :
    ((tail.drop (extLength second)).take (maskLength second)).length = maskLength second := by
  rw [length_take, length_drop]
  omega

/-- The header in front, if it is complete. -/
def takeHeader : Bytes → Option (Header × Bytes)
  | first :: second :: tail =>
    if h : extLength second + maskLength second ≤ tail.length then
      some (⟨first, second, tail.take (extLength second),
        (tail.drop (extLength second)).take (maskLength second),
        length_extField h, length_maskField h⟩,
        tail.drop (extLength second + maskLength second))
    else none
  | _ => none

theorem takeHeader_eq_some {bytes rest : Bytes} {header : Header}
    (h : takeHeader bytes = some (header, rest)) : bytes = header.bytes ++ rest := by
  unfold takeHeader at h
  split at h
  · next first second tail =>
    split at h
    · obtain ⟨rfl, rfl⟩ := Prod.mk.inj (Option.some.inj h)
      simp only [Header.bytes, cons_append]
      rw [append_assoc, ← drop_drop, take_append_drop, take_append_drop]
    · cases h
  · cases h

/-- A buffer either starts with a complete header, or the parser asks for more. -/
theorem header_or_incomplete (s : WsStream) :
    (∃ (h : Header) (rest : Bytes), s.incoming = h.bytes ++ rest) ∨
      parseFrame reply s = .ok (.ok false, s) := by
  unfold parseFrame
  match s.incoming with
  | [] => exact .inr rfl
  | [_] => exact .inr rfl
  | first :: second :: tail =>
    by_cases hcomplete : extLength second + maskLength second ≤ tail.length
    · exact .inl ⟨_, _, takeHeader_eq_some (dif_pos hcomplete)⟩
    · right
      have hlen : (first :: second :: tail).length = 2 + tail.length := by
        simp only [length_cons]
        omega
      rw [if_neg (by omega), show index (first :: second :: tail) 1 = .ok second from rfl]
      rw [lengthField_cons]
      by_cases hext : tail.length < extLength second
      · rw [if_pos hext]
        rfl
      · -- the length field is there, so what is missing is the mask
        have hmasked : second &&& 0x80 ≠ 0 := by
          intro hm
          have hmask : maskLength second = 0 := if_pos hm
          omega
        have hmask : maskLength second = 4 := if_neg hmasked
        rw [if_neg hext]
        simp only [Exec.ok_bind]
        unfold maskField
        rw [if_pos (by simpa using hmasked), if_pos (by omega)]
        rfl

/-- **The parser on a buffer that starts with a complete header.** A frame that
fits is taken once its payload is there; a length that overflows makes the
payload's end wrap around to before its start. -/
theorem parseFrame_bytes (s : WsStream) (h : Header)
    (rest : Bytes) (hbuf : s.incoming = h.bytes ++ rest) :
    parseFrame reply s =
      if h.Fits then
        if h.len ≤ rest.length then
          .ok (dispatch reply h.opcode (h.unmask (rest.take h.len))
            { s with incoming := rest.drop h.len })
        else .ok (.ok false, s)
      else .error .outOfRange := by
  have hsize := h.length_bytes
  have hlen := h.len_lt
  have htotal : (h.bytes ++ rest).length = h.bytes.length + rest.length := length_append
  unfold parseFrame
  rw [hbuf, if_neg (by omega), show index (h.bytes ++ rest) 0 = .ok h.first from rfl,
    show index (h.bytes ++ rest) 1 = .ok h.second from rfl]
  simp only [Exec.ok_bind, h.lengthField_bytes, h.maskField_bytes]
  by_cases hfits : h.Fits
  · have hadd : usizeAdd h.bytes.length h.len = h.bytes.length + h.len :=
      Nat.mod_eq_of_lt hfits
    rw [if_pos hfits, hadd]
    by_cases hthere : h.len ≤ rest.length
    · rw [if_neg (by omega), if_pos hthere, slice_ok (by omega) (by omega), sliceFrom_ok (by omega)]
      simp only [Nat.add_sub_cancel_left]
      rw [← drop_drop, drop_left]
      rfl
    · rw [if_pos (by omega), if_neg hthere]
      rfl
  · -- the sum wraps to a value below the payload's start
    have hwrap : usizeAdd h.bytes.length h.len < h.bytes.length := by
      unfold Header.Fits at hfits
      unfold usizeAdd
      omega
    rw [if_neg hfits, if_neg (by omega), slice, if_neg (by omega)]
    rfl

/-- A byte string starts with at most one header. -/
theorem Header.bytes_inj {h h' : Header} {rest rest' : Bytes}
    (heq : h.bytes ++ rest = h'.bytes ++ rest') : h = h' ∧ rest = rest' := by
  have h1 : h.first = h'.first := (List.cons.inj heq).1
  have h2 : h.second = h'.second := (List.cons.inj (List.cons.inj heq).2).1
  have htail : (h.ext ++ h.mask) ++ rest = (h'.ext ++ h'.mask) ++ rest' :=
    (List.cons.inj (List.cons.inj heq).2).2
  have hext : h.ext.length = h'.ext.length := by
    rw [h.ext_length, h'.ext_length, h2]
  have hmask : h.mask.length = h'.mask.length := by
    rw [h.mask_length, h'.mask_length, h2]
  rw [append_assoc, append_assoc] at htail
  obtain ⟨he, hrest⟩ := append_inj htail hext
  obtain ⟨hm, hrest'⟩ := append_inj hrest hmask
  refine ⟨?_, hrest'⟩
  cases h
  cases h'
  simp_all

/-- A frame from the server, whole. -/
structure InFrame where
  header : Header
  payload : Bytes
  full : payload.length = header.len

namespace InFrame

def opcode (f : InFrame) : UInt8 := f.header.opcode

/-- The payload as it was before masking. -/
def data (f : InFrame) : Bytes := f.header.unmask f.payload

def bytes (f : InFrame) : Bytes := f.header.bytes ++ f.payload

end InFrame

/-- The beginning of a frame. -/
def Incomplete (bytes : Bytes) : Prop :=
  ∀ (header : Header) (rest : Bytes), bytes = header.bytes ++ rest → rest.length < header.len

/-- What the parser does: the frame in front is incomplete, or it is taken, or its length
overflows. -/
theorem parseFrame_cases (s : WsStream) :
    (parseFrame reply s = .ok (.ok false, s) ∧ Incomplete s.incoming) ∨
    (∃ (f : InFrame) (rest : Bytes), s.incoming = f.bytes ++ rest ∧ f.header.Fits ∧
      parseFrame reply s = .ok (dispatch reply f.opcode f.data { s with incoming := rest })) ∨
    ∃ (h : Header) (rest : Bytes), s.incoming = h.bytes ++ rest ∧ ¬ h.Fits ∧
      parseFrame reply s = .error .outOfRange := by
  by_cases hheader : ∃ (h : Header) (rest : Bytes), s.incoming = h.bytes ++ rest
  · obtain ⟨h, rest, hbuf⟩ := hheader
    have hparse := parseFrame_bytes reply s h rest hbuf
    by_cases hfits : h.Fits
    · rw [if_pos hfits] at hparse
      by_cases hthere : h.len ≤ rest.length
      · rw [if_pos hthere] at hparse
        have hfull : (rest.take h.len).length = h.len := length_take_of_le hthere
        refine .inr (.inl ⟨⟨h, rest.take h.len, hfull⟩, rest.drop h.len, ?_, hfits, hparse⟩)
        rw [hbuf, InFrame.bytes, append_assoc, take_append_drop]
      · rw [if_neg hthere] at hparse
        refine .inl ⟨hparse, fun h' rest' hbuf' => ?_⟩
        obtain ⟨rfl, rfl⟩ := Header.bytes_inj (hbuf.symm.trans hbuf')
        omega
    · rw [if_neg hfits] at hparse
      exact .inr (.inr ⟨h, rest, hbuf, hfits, hparse⟩)
  · exact .inl ⟨(header_or_incomplete reply s).resolve_left hheader,
      fun h rest hbuf => absurd ⟨h, rest, hbuf⟩ hheader⟩

/-- What a call of the parser should do on any buffer: no length overflows, and
the call reports an incomplete frame or takes one whose payload lies in the
buffer. -/
structure Sound (s : WsStream) : Prop where
  fits : ∀ (h : Header) (rest : Bytes), s.incoming = h.bytes ++ rest → h.Fits
  outcome : ∀ reply, parseFrame reply s = .ok (.ok false, s) ∨
    ∃ (h : Header) (payload rest : Bytes),
      s.incoming = h.bytes ++ (payload ++ rest) ∧ payload.length = h.len ∧
        parseFrame reply s =
          .ok (dispatch reply h.opcode (h.unmask payload) { s with incoming := rest })

/-- One call is sound exactly when no complete header in front overflows. -/
theorem parseFrame_sound_iff (s : WsStream) :
    Sound s ↔ ∀ (h : Header) (rest : Bytes), s.incoming = h.bytes ++ rest → h.Fits := by
  refine ⟨Sound.fits, fun hfits => ⟨hfits, fun reply => ?_⟩⟩
  rcases parseFrame_cases reply s with ⟨hmore, -⟩ | ⟨f, rest, hbuf, -, hparse⟩ |
    ⟨h, rest, hbuf, hover, -⟩
  · exact .inl hmore
  · refine .inr ⟨f.header, f.payload, rest, ?_, f.full, hparse⟩
    rw [hbuf, InFrame.bytes, append_assoc]
  · exact absurd (hfits h rest hbuf) hover

/-! ## The loop of `poll_read` -/

/-- The loop gets to the parser: the last payload was handed out, and the peer
has not closed the stream. -/
def WsStream.Parses (s : WsStream) : Prop :=
  s.payload.length ≤ s.payloadAt ∧ s.closed = false

/-- One turn of the loop in `poll_read`. -/
inductive Step : WsStream → WsStream → Prop where
  /-- the inner stream takes `n` bytes of what is to be sent -/
  | write (s : WsStream) (n : Nat) (left : s.outgoingAt + n ≤ s.outgoing.length) :
      Step s { s with outgoingAt := s.outgoingAt + n }
  /-- everything was sent -/
  | flushed (s : WsStream) (done : s.outgoing.length ≤ s.outgoingAt) :
      Step s { s with outgoing := [], outgoingAt := 0 }
  /-- `n` bytes of the payload go to the caller -/
  | deliver (s : WsStream) (n : Nat) (left : s.payloadAt + n ≤ s.payload.length) :
      Step s { s with payloadAt := s.payloadAt + n }
  | parse (s s' : WsStream) (reply : Bytes) (r : Except IoError Bool) (turn : s.Parses)
      (parsed : parseFrame reply s = .ok (r, s')) : Step s s'
  /-- the buffer holds no complete frame: the next bytes are read into `scratch` -/
  | read (s : WsStream) (reply chunk : Bytes) (turn : s.Parses)
      (more : parseFrame reply s = .ok (.ok false, s)) (size : chunk.length ≤ 8192) :
      Step s { s with incoming := s.incoming ++ chunk, received := s.received ++ chunk }

/-- A stream right after the upgrade, with the bytes that came behind the
response head. -/
def start (rest : Bytes) : WsStream := { incoming := rest, received := rest }

/-- Runs of the loop. -/
abbrev Steps : WsStream → WsStream → Prop := Relation.ReflTransGen Step

/-! ## Byte streams with an overlong header -/

/-- A byte stream in which, after whole frames that do not close the stream,
comes a header whose length overflows. -/
inductive Overlong : Bytes → Prop where
  | here (h : Header) (overflows : ¬ h.Fits) (rest : Bytes) : Overlong (h.bytes ++ rest)
  | next (h : Header) (fits : h.Fits) (opens : h.opcode ≠ 8) (payload : Bytes)
      (full : payload.length = h.len) {rest} (tail : Overlong rest) :
      Overlong (h.bytes ++ (payload ++ rest))

/-- More bytes do not make a stream safe. -/
theorem Overlong.append {bytes : Bytes} (h : Overlong bytes) (more : Bytes) :
    Overlong (bytes ++ more) := by
  induction h with
  | here h overflows rest =>
    rw [append_assoc]
    exact .here h overflows _
  | next h fits opens payload full tail ih =>
    rw [append_assoc, append_assoc]
    exact .next h fits opens payload full ih

variable {h : Header} {rest payload : Bytes} {s s' : WsStream}

/-- An overlong stream behind a frame that fits goes on overlong after it. -/
theorem Overlong.tail (fits : h.Fits) (full : payload.length = h.len)
    (hover : Overlong (h.bytes ++ (payload ++ rest))) : h.opcode ≠ 8 ∧ Overlong rest := by
  generalize hall : h.bytes ++ (payload ++ rest) = all at hover
  cases hover with
  | here h' overflows rest' =>
    obtain ⟨rfl, -⟩ := Header.bytes_inj hall
    exact absurd fits overflows
  | next h' fits' opens payload' full' tail =>
    obtain ⟨rfl, hbody⟩ := Header.bytes_inj hall
    obtain ⟨-, rfl⟩ := append_inj hbody (full.trans full'.symm)
    exact ⟨opens, tail⟩

/-! ## Runs over a byte stream -/

/-- What taking a frame leaves alone, and that only a close frame closes. -/
theorem dispatch_frame (opcode : UInt8) (data : Bytes)
    (s : WsStream) :
    (dispatch reply opcode data s).2.incoming = s.incoming ∧
      (dispatch reply opcode data s).2.received = s.received ∧
      (opcode ≠ 8 → (dispatch reply opcode data s).2.closed = s.closed) ∧
      (opcode = 8 → (dispatch reply opcode data s).2.closed = true) := by
  by_cases h8 : opcode = 8
  · subst h8
    exact ⟨rfl, rfl, fun hne => absurd rfl hne, fun _ => rfl⟩
  · unfold dispatch
    split_ifs <;> exact ⟨rfl, rfl, fun _ => rfl, fun he => absurd he h8⟩

/-- The bytes taken off the buffer are whole frames: what follows them in the
stream is overlong only if the stream is. -/
def Aligned (s : WsStream) : Prop :=
  s.closed = true ∨ ∃ taken, s.received = taken ++ s.incoming ∧
    ∀ tail, Overlong tail → Overlong (taken ++ tail)

/-- A successful call of the parser keeps the buffer aligned. -/
theorem Aligned.parse {reply : Bytes} {r : Except IoError Bool} (hs : Aligned s)
    (hparse : parseFrame reply s = .ok (r, s')) : Aligned s' := by
  rcases parseFrame_cases reply s with ⟨hmore, -⟩ | ⟨f, rest, hbuf, hfits, hframe⟩ |
    ⟨h, rest, -, -, hpanic⟩
  · rw [hmore] at hparse
    obtain ⟨-, rfl⟩ := Prod.mk.inj (Except.ok.inj hparse)
    exact hs
  · -- a frame was taken
    rw [hframe] at hparse
    have hs' := congrArg Prod.snd (Except.ok.inj hparse)
    obtain ⟨hin, hrec, hopen, hclose⟩ := dispatch_frame reply f.opcode f.data
      { s with incoming := rest }
    rw [hs'] at hin hrec hopen hclose
    by_cases h8 : f.opcode = 8
    · exact .inl (hclose h8)
    · rcases hs with hclosed | ⟨taken, hrecv, htaken⟩
      · exact .inl ((hopen h8).trans hclosed)
      · refine .inr ⟨taken ++ f.bytes, ?_, fun tail htail => ?_⟩
        · rw [hrec, hin]
          show s.received = _
          rw [hrecv, hbuf, append_assoc]
        · rw [append_assoc, InFrame.bytes, append_assoc]
          exact htaken _ (.next f.header hfits h8 _ f.full htail)
  · rw [hpanic] at hparse
    cases hparse

/-- One turn of the loop keeps the buffer aligned. -/
theorem Aligned.step (hs : Aligned s) (hstep : Step s s') : Aligned s' := by
  cases hstep with
  | write | flushed | deliver => exact hs
  | parse _ reply r turn parsed => exact hs.parse parsed
  | read reply chunk turn more size =>
    rcases hs with hclosed | ⟨taken, hrecv, htaken⟩
    · exact .inl hclosed
    · refine .inr ⟨taken, ?_, htaken⟩
      show s.received ++ chunk = taken ++ (s.incoming ++ chunk)
      rw [hrecv, append_assoc]

theorem Aligned.start (rest : Bytes) : Aligned (start rest) :=
  .inr ⟨[], rfl, fun _ h => h⟩

/-- Every state of a run is aligned. -/
theorem Aligned.steps (hs : Aligned s) (hrun : Steps s s') : Aligned s' := by
  induction hrun with
  | refl => exact hs
  | tail _ hlast ih => exact ih.step hlast

/-- From an aligned state in which the parser runs, a stream that is not overlong
is parsed soundly. -/
theorem Aligned.sound {bytes : Bytes} (hs : Aligned s) (hturn : s.Parses)
    (hfront : s.received <+: bytes) (hsafe : ¬ Overlong bytes) : Sound s := by
  rw [parseFrame_sound_iff]
  intro h rest hbuf
  by_contra hover
  rcases hs with hclosed | ⟨taken, hrecv, htaken⟩
  · rw [hturn.2] at hclosed
    cases hclosed
  · obtain ⟨more, rfl⟩ := hfront
    refine hsafe (Overlong.append ?_ more)
    rw [hrecv, hbuf]
    exact htaken _ (.here h hover rest)

/-- A buffer without a complete frame in which no length overflows is not overlong. -/
theorem Sound.not_overlong (hsound : Sound s) (hcut : Incomplete s.incoming) :
    ¬ Overlong s.incoming := by
  intro hover
  generalize hin : s.incoming = bytes at hover
  cases hover with
  | here h overflows rest => exact overflows (hsound.fits h rest hin)
  | next h fits opens payload full tail =>
    have hshort := hcut h _ hin
    rw [length_append] at hshort
    omega

/-- A frame that does not close the stream is taken, and its payload handed out:
the loop gets back to the parser behind the frame. -/
theorem steps_frame (hturn : s.Parses) (hopens : h.opcode ≠ 8) (hparse : parseFrame [] s =
      .ok (dispatch [] h.opcode (h.unmask payload) { s with incoming := rest })) :
    ∃ s', Steps s s' ∧ s'.Parses ∧ s'.incoming = rest ∧ s'.received = s.received := by
  obtain ⟨hin, hrec, hopen, -⟩ := dispatch_frame [] h.opcode (h.unmask payload)
    { s with incoming := rest }
  generalize hout : dispatch [] h.opcode (h.unmask payload) { s with incoming := rest } = out
    at hin hrec hopen hparse
  obtain ⟨r, t⟩ := out
  have hstep : Step s t := .parse s t [] r hturn hparse
  have hclosed : t.closed = false := (hopen hopens).trans hturn.2
  by_cases hdone : t.payload.length ≤ t.payloadAt
  · exact ⟨t, .single hstep, ⟨hdone, hclosed⟩, hin, hrec⟩
  · have hdeliver : Step t { t with payloadAt := t.payloadAt + (t.payload.length - t.payloadAt) } :=
      .deliver t _ (by omega)
    refine ⟨_, (Relation.ReflTransGen.single hstep).tail hdeliver, ⟨?_, hclosed⟩, hin, hrec⟩
    show t.payload.length ≤ t.payloadAt + (t.payload.length - t.payloadAt)
    omega

/-- An overlong stream brings some run to an unsound call. Bytes are fed one at a
time, so the measure counts those still to come twice. -/
theorem exists_unsound (s : WsStream) (coming : Bytes) (hturn : s.Parses)
    (hover : Overlong (s.incoming ++ coming)) :
    ∃ s', Steps s s' ∧ s'.Parses ∧ s'.received <+: s.received ++ coming ∧ ¬ Sound s' := by
  induction hn : 2 * coming.length + s.incoming.length using Nat.strong_induction_on
    generalizing s coming with
  | _ n ih =>
    by_cases hsound : Sound s
    · rcases parseFrame_cases [] s with ⟨hmore, hcut⟩ | ⟨f, rest, hbuf, hfits, hparse⟩ |
        ⟨h, rest, hbuf, hwraps, -⟩
      · -- incomplete: feed one more byte
        cases coming with
        | nil =>
          rw [append_nil] at hover
          exact absurd hover (hsound.not_overlong hcut)
        | cons b coming =>
          set t : WsStream :=
            { s with incoming := s.incoming ++ [b], received := s.received ++ [b] } with ht
          have hstep : Step s t := .read s [] [b] hturn hmore (by simp)
          have hless : 2 * coming.length + t.incoming.length < n := by
            simp only [ht, length_append, length_cons, length_nil] at hn ⊢
            omega
          obtain ⟨s', hrun, hturn', hrecv, hbad⟩ := ih _ hless t coming hturn
            (by simpa [ht] using hover) rfl
          refine ⟨s', .head hstep hrun, hturn', ?_, hbad⟩
          simpa [ht] using hrecv
      · -- a frame is taken; the rest of the stream is overlong
        rw [hbuf, InFrame.bytes, append_assoc, append_assoc] at hover
        obtain ⟨hopens, htail⟩ := hover.tail hfits f.full
        obtain ⟨t, hrun, hturn', hin, hrec⟩ := steps_frame hturn hopens hparse
        have hlen : rest.length + 2 ≤ s.incoming.length := by
          rw [hbuf, InFrame.bytes, length_append, length_append, f.header.length_bytes]
          omega
        obtain ⟨s', hrun', hturn'', hrecv, hbad⟩ := ih _ (by rw [hin]; omega) t coming
          hturn' (by rw [hin]; exact htail) rfl
        exact ⟨s', hrun.trans hrun', hturn'', by rw [← hrec]; exact hrecv, hbad⟩
      · exact absurd (hsound.fits h rest hbuf) hwraps
    · exact ⟨s, .refl, hturn, prefix_append _ _, hsound⟩

/-- **Every read of a byte stream is sound exactly when the stream is not
overlong**: whatever the cut into reads, the caller's buffers and the bytes that
came with the upgrade response. -/
theorem reads_sound_iff_not_overlong (bytes : Bytes) :
    (∀ rest s, Steps (start rest) s → s.received <+: bytes → s.Parses → Sound s) ↔
      ¬ Overlong bytes := by
  constructor
  · intro hall hover
    obtain ⟨s, hrun, hturn, hrecv, hbad⟩ :=
      exists_unsound (start []) bytes ⟨le_rfl, rfl⟩ hover
    exact hbad (hall [] s hrun hrecv hturn)
  · intro hsafe rest s hrun hrecv hturn
    exact ((Aligned.start rest).steps hrun).sound hturn hrecv hsafe

/-- An unmasked binary frame of announced length `2 ^ 64 - 1`. -/
def hugeFrame : Bytes := [0x82, 0x7f] ++ List.replicate 8 0xff

/-- The parser panics on the header of such a frame, as soon as it is complete. -/
theorem parseFrame_hugeFrame :
    (start hugeFrame).Parses ∧ ¬ (parseFrame [] (start hugeFrame)).Returns ∧
      ¬ Sound (start hugeFrame) := by
  have hpanic : parseFrame [] (start hugeFrame) = .error .outOfRange := rfl
  refine ⟨⟨le_rfl, rfl⟩, by rw [hpanic]; simp, fun hsound => ?_⟩
  rcases hsound.outcome [] with hmore | ⟨h, payload, rest, -, -, hparse⟩
  · cases hmore
  · cases hparse

end Clyntis.Protocol.WebSocket
