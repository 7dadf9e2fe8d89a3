import Clyntis.Protocol.InnerTls
import Clyntis.Protocol.ResponseStream

/-!
# Vision (`vision.rs`)

Vision sends the first bytes of a connection in padded frames and then, in each direction on its
own, passes the rest on as it is. If the connection carries TLS 1.3, that rest also leaves the outer
TLS layer ("direct").

- `RecordStream`: the stream below. What is behind its TLS layer counts as one stream of bytes, in
  each direction, with a mark where it leaves the layer;
- `VisionStream.pollRead`, `pollWrite`, `pollFlush`, `pollShutdown`: the calls;
- `step`: one call with its result;
- `decode`: a whole stream decoded in one go.

A random number is an argument of `pollWrite`. A read that stopped in the middle keeps its place in
`readHeader`, `content` and `padding`; `collect` is the loop that fills the first and skips the
last.
-/

namespace Clyntis.Protocol.Vision

open Lib Net Protocol.Vless

/-! ## The stream below -/

/-- `RecordStream`. `readDirect` holds what was left to read when `read_direct` was called. -/
structure RecordStream where
  wire : Wire
  readDirect : Option Bytes := none
  deriving DecidableEq, Repr

namespace RecordStream

/-- A call to the wire. -/
def call {α : Type} (f : Wire → Poll α × Wire) (r : RecordStream) : Poll α × RecordStream :=
  ((f r.wire).1, { r with wire := (f r.wire).2 })

def pollRead (n : Nat) : RecordStream → Poll Bytes × RecordStream := call (Wire.pollRead n)

/-- `read_direct`. -/
def startReadDirect (r : RecordStream) : RecordStream := { r with readDirect := some r.wire.input }

/-- `write_direct`. -/
def startWriteDirect (r : RecordStream) : RecordStream :=
  { r with wire := { r.wire with log := r.wire.log ++ [.direct] } }

end RecordStream

/-- What `ResponseStream` passes on to the stream below: its writes, flushes and shutdowns. -/
def pass {α : Type} (f : Wire → Poll α × Wire) (s : ResponseStream RecordStream) :
    Poll α × ResponseStream RecordStream :=
  ((s.inner.call f).1, { s with inner := (s.inner.call f).2 })

/-- `VisionStream`. -/
structure VisionStream where
  inner : ResponseStream RecordStream
  id : Vector UInt8 16
  readHeader : Bytes := []
  readFirst : Bool := true
  content : Nat := 0
  padding : Nat := 0
  command : UInt8 := 0
  readPlain : Bool := false
  writeFirst : Bool := true
  writePlain : Bool := false
  pending : Bytes := []
  written : Nat := 0
  switchWrite : Bool := false
  sniff : InnerTls := {}
  failed : Bool := false
  deriving DecidableEq, Repr

variable (s : VisionStream)

namespace VisionStream

/-- `framed`. -/
def framed (inner : RecordStream) (id : Vector UInt8 16) : VisionStream :=
  { inner := { inner := inner }, id := id }

/-! ## Writing -/

/-- The writes of the stream below. -/
def writeInner (bytes : Bytes) :
    ResponseStream RecordStream → Poll Nat × ResponseStream RecordStream :=
  pass (Wire.pollWrite bytes)

/-- The end of `flush_frame`, when all has been flushed. -/
def frameSent : VisionStream :=
  if s.switchWrite then
    { s with
      pending := [], written := 0, switchWrite := false
      inner := { s.inner with inner := s.inner.inner.startWriteDirect } }
  else { s with pending := [], written := 0 }

/-- `flush_frame`. -/
def flushFrame : Poll Unit × VisionStream :=
  let out := drain writeInner s.pending s.written s.inner
  Poll.andThen (out.1, { s with inner := out.2.2, written := out.2.1 }) fun _ s =>
    let out := pass Wire.pollFlush s.inner
    Poll.andThen (out.1, { s with inner := out.2 }) fun _ s => (.ready (), s.frameSent)

variable (r : ResponseStream RecordStream)

/-- What was sent on the stream below. -/
def sentBelow : List Sent := r.inner.wire.log

theorem writeInner_writable : Writable sentBelow writeInner := fun bs r =>
  ⟨(Wire.writable bs r.inner.wire).1.lift rfl rfl, (Wire.writable bs r.inner.wire).2⟩

theorem pass_flush_step :
    SendStep sentBelow (fun _ => [.flush]) r (pass Wire.pollFlush r).1 (pass Wire.pollFlush r).2 :=
  (Wire.flush_step r.inner.wire).lift rfl rfl

theorem pass_shutdown_step :
    SendStep sentBelow (fun _ => [.shutdown]) r (pass Wire.pollShutdown r).1
      (pass Wire.pollShutdown r).2 :=
  (Wire.shutdown_step r.inner.wire).lift rfl rfl

/-- Flushing only fails if sending does. -/
theorem flushFrame_failed {s : VisionStream} {e : StreamError} (h : s.flushFrame.1 = .failed e) :
    e.sending = true := by
  unfold flushFrame at h
  have hdrain := drain_failed writeInner_writable s.pending s.written s.inner (e := e)
  generalize drain writeInner s.pending s.written s.inner = out at h hdrain
  rcases out with ⟨_ | _ | e', stop, inner⟩
  · cases h
  · rw [Poll.andThen_ready] at h
    have hflush := pass_flush_step inner
    generalize pass Wire.pollFlush inner = out at h hflush
    rcases out with ⟨_ | _ | e', inner'⟩
    · cases h
    · cases h
    · cases hflush with
      | failed sending same =>
        cases h
        exact sending
  · exact hdrain h

end VisionStream

/-- A frame. -/
structure Frame where
  command : UInt8
  content : Bytes
  padding : Nat
  deriving DecidableEq, Repr

/-- The bytes of a frame; the lengths are cut to 16 bits. -/
def Frame.bytes (f : Frame) : Bytes :=
  f.command :: (beBytes 2 f.content.length ++ beBytes 2 f.padding ++ f.content ++
    List.replicate f.padding 0)

/-- The command of the next frame. -/
def nextCommand (sniff : InnerTls) (bytes : Bytes) : UInt8 :=
  if sniff.tls ∧ [0x17, 3, 3] <+: bytes then
    if sniff.tls13 then 2 else 1
  else if sniff.remaining = 0 ∨ (sniff.tls = false ∧ 8 ≤ sniff.client.length) then 1
  else 0

/-- The padding of the next frame. -/
def nextPadding (sniff : InnerTls) (bytes : Bytes) (random : Nat) : Nat :=
  if 900 ≤ bytes.length then 0
  else if sniff.tls then 900 - bytes.length + random % 500
  else random % 256

namespace VisionStream

/-- The end of `poll_write`: makes a frame of the bytes. -/
def frameBytes (bytes : Bytes) (random : Nat) (s : VisionStream) : VisionStream :=
  let sniff := s.sniff.observe bytes false
  let frame : Frame := ⟨nextCommand sniff bytes, bytes, nextPadding sniff bytes random⟩
  { s with
    sniff := sniff
    pending := s.pending ++ (if s.writeFirst then s.id.toList else []) ++ frame.bytes
    writeFirst := false
    writePlain := s.writePlain || frame.command != 0
    switchWrite := frame.command == 2 }

/-- `poll_write`. -/
def pollWrite (bytes : Bytes) (random : Nat) (s : VisionStream) : Poll Nat × VisionStream :=
  Poll.andThen s.flushFrame fun _ s =>
    if s.writePlain then
      let out := writeInner bytes s.inner
      (out.1, { s with inner := out.2 })
    else if bytes = [] then (.ready 0, s)
    else
      let bytes := bytes.take (8192 - 21)
      (.ready bytes.length, s.frameBytes bytes random)

/-- `poll_flush`. -/
def pollFlush : Poll Unit × VisionStream := s.flushFrame

/-- `poll_shutdown`. -/
def pollShutdown (s : VisionStream) : Poll Unit × VisionStream :=
  Poll.andThen s.flushFrame fun _ s =>
    let out := pass Wire.pollShutdown s.inner
    (out.1, { s with inner := out.2 })

/-! ## Reading -/

/-- The reads of the stream below. -/
def readInner : Nat → ResponseStream RecordStream → Poll Bytes × ResponseStream RecordStream :=
  ResponseStream.pollRead RecordStream.pollRead

/-- The case `read_plain`: first what was taken for a header, then what comes. -/
def readPassed (n : Nat) (s : VisionStream) : Poll Bytes × VisionStream :=
  if s.readHeader ≠ [] then
    (.ready (s.readHeader.take n), { s with readHeader := s.readHeader.drop n })
  else
    let out := readInner n s.inner
    (out.1, { s with inner := out.2 })

/-- The case `content > 0`. -/
def readContent (n : Nat) (s : VisionStream) : Poll Bytes × VisionStream :=
  let out := readInner (min n s.content) s.inner
  Poll.andThen (out.1, { s with inner := out.2 }) fun bytes s =>
    if bytes = [] then (.failed .unexpectedEof, s)
    else
      (.ready bytes,
        { s with content := s.content - bytes.length, sniff := s.sniff.observe bytes true })

/-- The loop `while padding > 0`. -/
def skipPadding : Poll Unit × VisionStream :=
  let out := collect readInner 2048 s.padding s.inner
  let s := { s with inner := out.2.2, padding := s.padding - out.2.1.length }
  match out.1 with
  | .done => (.ready (), s)
  | .pending => (.pending, s)
  | .failed e => (.failed e, s)
  | .eof => (.failed .unexpectedEof, s)

/-- The case `command != 0`. -/
def startPassing : VisionStream :=
  if s.command = 2 then
    { s with
      readPlain := true
      inner := { s.inner with inner := s.inner.inner.startReadDirect } }
  else { s with readPlain := true }

/-- How long the next header is. -/
def headerLen : Nat := if s.readFirst then 21 else 5

/-- The loop that fills `read_header`: whether there is one, or the stream has ended. -/
def fillHeader : Poll Bool × VisionStream :=
  let out := collect readInner s.headerLen (s.headerLen - s.readHeader.length) s.inner
  let s := { s with inner := out.2.2, readHeader := s.readHeader ++ out.2.1 }
  match out.1 with
  | .done => (.ready true, s)
  | .pending => (.pending, s)
  | .failed e => (.failed e, s)
  | .eof => if s.readHeader = [] then (.ready false, s) else (.failed .unexpectedEof, s)

/-- The first header does not start with the user's id. -/
def foreign : Prop :=
  s.readFirst = true ∧ s.readHeader.take 16 ≠ s.id.toList

instance (s : VisionStream) : Decidable s.foreign :=
  inferInstanceAs (Decidable (_ ∧ _))

/-- The header, behind the id. -/
def frameHeader : Bytes := s.readHeader.drop (if s.readFirst then 16 else 0)

/-- The end of a turn: what the header says. -/
def startFrame : VisionStream :=
  { s with
    readFirst := false, readHeader := []
    command := s.frameHeader.getD 0 0
    content := be16 s.frameHeader 1
    padding := be16 s.frameHeader 3 }

/-- The loop of `poll_read`: it may start `frames` more frames. -/
def readLoop (n : Nat) : (frames : Nat) → VisionStream → Poll Bytes × VisionStream
  | 0, s => (.pending, s)
  | frames + 1, s =>
    if s.readPlain then s.readPassed n
    else if 0 < s.content then s.readContent n
    else
      Poll.andThen s.skipPadding fun _ s =>
        if s.command ≠ 0 then s.startPassing.readPassed n
        else
          Poll.andThen s.fillHeader fun more s =>
            if more = false then (.ready [], s)
            -- a peer that does not pad: its first block passes through
            else if s.foreign then
              readPassed n { s with readFirst := false, readPlain := true }
            else if 2 < s.frameHeader.getD 0 0 then
              (.failed (.other "invalid Vision command"),
                { s with readFirst := false, command := s.frameHeader.getD 0 0, failed := true })
            else readLoop n frames s.startFrame

/-- `poll_read`. Frames that are waiting go out first; if they cannot yet, that is no obstacle. -/
def pollRead (n : Nat) (s : VisionStream) : Poll Bytes × VisionStream :=
  if n = 0 then (.ready [], s)
  else if s.failed then (.failed (.other "invalid Vision stream"), s)
  else
    match s.flushFrame with
    | (.failed e, s) => (.failed e, s)
    | (_, s) => readLoop n 64 s

end VisionStream

/-! ## Runs -/

/-- A call to the stream. -/
inductive Op where
  | read (n : Nat)
  | write (bytes : Bytes) (random : Nat)
  | flush
  | shutdown
  deriving DecidableEq, Repr

/-- Its result. -/
inductive Result where
  | read (r : Poll Bytes)
  | write (r : Poll Nat)
  | done (r : Poll Unit)
  deriving DecidableEq, Repr

/-- One call. -/
def step : Op → Result × VisionStream
  | .read n => (.read (s.pollRead n).1, (s.pollRead n).2)
  | .write bytes random => (.write (s.pollWrite bytes random).1, (s.pollWrite bytes random).2)
  | .flush => (.done s.pollFlush.1, s.pollFlush.2)
  | .shutdown => (.done s.pollShutdown.1, s.pollShutdown.2)

/-! ## A stream in one go -/

/-- What a stream of frames holds, and what is read directly if it says so. -/
structure Decoded where
  content : Content
  direct : Option Bytes := none
  deriving DecidableEq, Repr

/-- Bytes in front. -/
def Decoded.prepend (bs : Bytes) (d : Decoded) : Decoded := ⟨d.content.prepend bs, d.direct⟩

/-- Some bytes, and then an end that comes too early. -/
def cutShort (bytes : Bytes) (ending : Option StreamError) : Decoded :=
  ⟨(early ending).prepend bytes, none⟩

/-- Frames: their contents up to and with the first one that has a command, then the rest as it
is. -/
def frames (c : Content) : Decoded :=
  if c.bytes = [] then ⟨c, none⟩
  else if _hshort : c.bytes.length < 5 then cutShort [] c.ending
  else
    let command := c.bytes.getD 0 0
    let content := be16 c.bytes 1
    let padding := be16 c.bytes 3
    let rest := c.bytes.drop 5
    if 2 < command then ⟨⟨[], some (.other "invalid Vision command")⟩, none⟩
    else if rest.length < content + padding then cutShort (rest.take content) c.ending
    else
      let rest' := rest.drop (content + padding)
      if command = 0 then (frames ⟨rest', c.ending⟩).prepend (rest.take content)
      else ⟨⟨rest.take content ++ rest', c.ending⟩, if command = 2 then some rest' else none⟩
termination_by c.bytes.length
decreasing_by
  simp only [List.length_drop]
  omega

/-- A stream: it passes through if it does not start with the user's id. -/
def decode (id : Bytes) (c : Content) : Decoded :=
  if c.bytes = [] then ⟨c, none⟩
  else if c.bytes.length < 21 then cutShort [] c.ending
  else if c.bytes.take 16 ≠ id then ⟨c, none⟩
  else frames ⟨c.bytes.drop 16, c.ending⟩

end Clyntis.Protocol.Vision
