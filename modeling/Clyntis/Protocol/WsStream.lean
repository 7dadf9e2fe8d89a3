import Clyntis.Lib.Poll
import Clyntis.Protocol.WebSocket

/-!
# A WebSocket as a stream (`websocket.rs`)

- `headEnd`, `checkHead`: the end of the server's response head, and what it has to say;
- `Socket`: `WsStream` with its inner stream, before and after the upgrade, framed or raw;
- `Socket.pollRead`, `pollWrite`, `pollFlush`, `pollShutdown`, `readUpgrade`: the calls;
- `step`: one call with its result.

The masks of frames are random; they are arguments of the calls. A call whose `parse_frame` panics
never returns: the socket is then `panicked` and does nothing any more.
-/

namespace Clyntis.Lib.Text

/-- `s.split("\r\n")`. -/
def splitCrlf : Text → List Text
  | [] => [[]]
  | '\r' :: '\n' :: rest => [] :: splitCrlf rest
  | c :: rest => (splitCrlf rest).modifyHead (c :: ·)

/-- `s.split_whitespace()`. -/
def splitWhitespace (s : Text) : List Text := (s.splitOnP isWhiteSpace).filter (· ≠ [])

end Clyntis.Lib.Text

namespace Clyntis.Protocol.WebSocket

open Lib

/-! ## The response head -/

/-- `MAX_HEADERS`. -/
def maxHeaders : Nat := 32 * 1024

/-- Where the first empty line ends: `windows(4).position(|w| w == b"\r\n\r\n")`, plus four. -/
def headEnd : Bytes → Option Nat
  | [] => none
  | b :: bs =>
    if [13, 10, 13, 10].isPrefixOf (b :: bs) then some 4 else (headEnd bs).map (· + 1)

/-- The value of `Sec-WebSocket-Accept`, if there is one. -/
def acceptOf (lines : List Text) : Option Text :=
  ((lines.filterMap fun line => line.splitOnce ':').find? fun field =>
    field.1.eqIgnoreAsciiCase "Sec-WebSocket-Accept".toList).map fun field => field.2.trim

/-- What `parse_upgrade` asks of the head. The text of a UTF-8 error is the library's. -/
def checkHead (expected : Option Text) (head : Bytes) : Except StreamError Unit :=
  match Text.fromUtf8 head with
  | none => .error (.other "invalid utf-8 sequence")
  | some text =>
    let lines := text.splitCrlf
    let status := lines.headD []
    if status.splitWhitespace[1]? ≠ some "101".toList then
      .error (.other ("WebSocket upgrade rejected: " ++ String.ofList status))
    else
      match expected with
      | none => .ok ()
      | some key =>
        if acceptOf lines.tail ≠ some key then .error (.other "invalid WebSocket accept key")
        else .ok ()

/-! ## The stream -/

/-- `WsStream`; `core` holds the fields that matter after the upgrade. -/
structure Socket where
  inner : Wire
  raw : Bool
  expectedAccept : Option Text
  upgraded : Bool := false
  core : WsStream := start []
  panicked : Bool := false
  deriving DecidableEq, Repr

/-- The masks drawn in a call. -/
abbrev Masks : Type := Nat → Vector UInt8 4

variable (s : Socket)

namespace Socket

/-- `new`. -/
def new (inner : Wire) (raw : Bool) (expectedAccept : Option Text) : Socket :=
  { inner := inner, raw := raw, expectedAccept := expectedAccept }

/-- `parse_upgrade`. -/
def parseUpgrade : Except StreamError (Bool × Socket) :=
  match headEnd s.core.incoming with
  | none => .ok (false, s)
  | some stop =>
    match checkHead s.expectedAccept (s.core.incoming.take stop) with
    | .error e => .error e
    | .ok () =>
      let rest := s.core.incoming.drop stop
      .ok (true, { s with upgraded := true, core := { s.core with
        incoming := rest, received := rest } })

/-- `flush_outgoing`. -/
def flushOutgoing : Poll Unit × Socket :=
  let out := drain Wire.pollWrite s.core.outgoing s.core.outgoingAt s.inner
  Poll.andThen
    (out.1, { s with inner := out.2.2, core := { s.core with outgoingAt := out.2.1 } })
    fun _ s =>
      let out := Wire.pollFlush s.inner
      (out.1, { s with inner := out.2, core := { s.core with outgoing := [], outgoingAt := 0 } })

/-- The stream without what concerns sending. -/
def forReader : Socket :=
  { s with
    inner := { s.inner with writes := [], log := [] }
    core := { s.core with outgoing := [], outgoingAt := 0 } }

theorem forReader_send {α : Type} (all : Nat) (entry : Nat → Sent) (value : Nat → α) (s : Socket) :
    forReader { s with inner := (Wire.send all entry value s.inner).2 } = s.forReader := by
  obtain ⟨hinput, hreads⟩ := Wire.send_reading all entry value s.inner
  simp only [forReader, hinput, hreads]

theorem flushOutgoing_forReader : s.flushOutgoing.2.forReader = s.forReader := by
  refine Poll.andThen_keeps (f := forReader) ?_ fun _ s₁ hs₁ => ?_
  · have hkeeps : ∀ bs w, forReader { s with inner := (Wire.pollWrite bs w).2 } =
        forReader { s with inner := w } := fun bs w => forReader_send _ _ _ { s with inner := w }
    exact drain_keeps (f := fun w => forReader { s with inner := w }) hkeeps s.core.outgoing
      s.core.outgoingAt s.inner
  · rw [← hs₁]
    exact forReader_send _ _ _ s₁

/-- A flush that has to wait uses up an answer of the transport. -/
theorem flushOutgoing_writes :
    s.flushOutgoing.2.inner.writes.length ≤ s.inner.writes.length ∧
      (s.flushOutgoing.1 = .pending →
        s.flushOutgoing.2.inner.writes.length < s.inner.writes.length) := by
  unfold flushOutgoing
  have hwrite : ∀ bs w, (Wire.pollWrite bs w).2.writes.length ≤ w.writes.length ∧
      ((Wire.pollWrite bs w).1 = .pending →
        (Wire.pollWrite bs w).2.writes.length < w.writes.length) :=
    fun bs w => Wire.send_writes _ _ _ w
  have hdrain := drain_less (f := fun w => w.writes.length) hwrite s.core.outgoing
    s.core.outgoingAt s.inner
  generalize drain Wire.pollWrite s.core.outgoing s.core.outgoingAt s.inner = call at hdrain
  rcases call with ⟨_ | _ | e, stop, inner⟩
  · exact ⟨hdrain.1, fun _ => hdrain.2 rfl⟩
  · obtain ⟨hle, hlt⟩ := Wire.send_writes 0 (fun _ => .flush) (fun _ => ()) inner
    exact ⟨hle.trans hdrain.1, fun h => (hlt h).trans_le hdrain.1⟩
  · exact ⟨hdrain.1, nofun⟩

/-! ## Reading -/

/-- Bytes of the server behind those in the buffer. -/
def receive (bytes : Bytes) (s : Socket) : Socket :=
  { s with core := { s.core with
    incoming := s.core.incoming ++ bytes, received := s.core.received ++ bytes } }

@[simp] theorem receive_nil : s.receive [] = s := by
  simp [receive]

/-- Reads more from the inner stream, at most `size` bytes, and goes on; `atEnd` is the result if
there are none. -/
def readMore {α : Type} (size : Nat) (atEnd : Poll α) (next : Socket → Poll α × Socket)
    (s : Socket) : Poll α × Socket :=
  Poll.andThen ((Wire.pollRead size s.inner).1, { s with inner := (Wire.pollRead size s.inner).2 })
    fun bytes s => if bytes = [] then (atEnd, s) else next (s.receive bytes)

/-- The case `raw`. -/
def readRaw (n : Nat) (s : Socket) : Poll Bytes × Socket :=
  if s.core.incoming ≠ [] then
    (.ready (s.core.incoming.take n),
      { s with core := { s.core with incoming := s.core.incoming.drop n } })
  else
    ((Wire.pollRead n s.inner).1, { s with inner := (Wire.pollRead n s.inner).2 })

/-- The case `payload_at < payload.len()`. -/
def deliver (n : Nat) (s : Socket) : Poll Bytes × Socket :=
  let left := s.core.payload.drop s.core.payloadAt
  (.ready (left.take n),
    { s with core := { s.core with payloadAt := s.core.payloadAt + min n left.length } })

variable (masks : Masks)

/-- The end of a turn, with `parse_frame`. `frames` more frames may be taken in this call. -/
def readFrame (next : Nat → Socket → Poll Bytes × Socket) (frames : Nat)
    (s : Socket) : Poll Bytes × Socket :=
  match parseFrame (masks (64 - frames)).toList s.core with
  | .error _ => (.pending, { s with panicked := true })
  | .ok (.error e, core) => (.failed (.other e.message), { s with core := core })
  | .ok (.ok true, core) =>
    if frames ≤ 1 then (.pending, { s with core := core })
    else next (frames - 1) { s with core := core }
  | .ok (.ok false, core) =>
    readMore 8192 (if core.incoming = [] then .ready [] else .failed .unexpectedEof) (next frames)
      { s with core := core }

/-- A turn of `poll_read` on an upgraded stream; `flushed` is what came of the flush before it. -/
def readUpgraded (n : Nat) (next : Nat → Socket → Poll Bytes × Socket)
    (frames : Nat) (flushed : Poll Unit) (s : Socket) : Poll Bytes × Socket :=
  if s.raw then s.readRaw n
  else if s.core.payloadAt < s.core.payload.length then s.deliver n
  else if s.core.closed then Poll.andThen (flushed, s) fun _ s => (.ready [], s)
  else s.readFrame masks next frames

/-- A turn of `poll_read`. -/
def turn (n : Nat) (next : Nat → Socket → Poll Bytes × Socket)
    (frames : Nat) (s : Socket) : Poll Bytes × Socket :=
  match s.flushOutgoing with
  | (.failed e, s) => (.failed e, s)
  | (flushed, s) =>
    if s.upgraded then s.readUpgraded masks n next frames flushed
    else
      match s.parseUpgrade with
      | .error e => (.failed e, s)
      | .ok (true, s) => s.readUpgraded masks n next frames flushed
      | .ok (false, s) =>
        if maxHeaders ≤ s.core.incoming.length then
          (.failed (.other "WebSocket response headers too large"), s)
        else readMore 2048 (.failed .unexpectedEof) (next frames) s

/-- The loop of `poll_read`. A turn takes a frame or reads a byte, so there are turns enough. -/
def readLoop (masks : Masks) (n : Nat) : (turns frames : Nat) → Socket →
    Poll Bytes × Socket
  | 0, _, s => (.pending, s)
  | turns + 1, frames, s => s.turn masks n (readLoop masks n turns) frames

/-- `poll_read`. -/
def pollRead (n : Nat) (s : Socket) : Poll Bytes × Socket :=
  if s.panicked then (.pending, s)
  else if n = 0 then (.ready [], s)
  else readLoop masks n (s.inner.input.length + 65) 64 s

/-- The loop of `read_upgrade`. -/
def upgradeLoop : (turns : Nat) → Socket → Poll Unit × Socket
  | 0, s => (.pending, s)
  | turns + 1, s =>
    if s.upgraded then (.ready (), s)
    else if maxHeaders ≤ s.core.incoming.length then
      (.failed (.other "WebSocket response headers too large"), s)
    else
      s.readMore 2048 (.failed (.other "WebSocket server closed during upgrade")) fun s =>
        match s.parseUpgrade with
        | .error e => (.failed e, s)
        | .ok (_, s) => upgradeLoop turns s

/-- A poll of `read_upgrade`. -/
def readUpgrade : Poll Unit × Socket :=
  if s.panicked then (.pending, s) else upgradeLoop (s.inner.input.length + 2) s

/-! ## Writing -/

/-- `poll_write`. -/
def pollWrite (bytes : Bytes) (mask : Vector UInt8 4) (s : Socket) : Poll Nat × Socket :=
  if s.panicked then (.pending, s)
  else
    Poll.andThen s.flushOutgoing fun _ s =>
      if s.core.closed then (.failed .brokenPipe, s)
      else if bytes = [] then (.ready 0, s)
      else if s.raw then
        ((Wire.pollWrite bytes s.inner).1, { s with inner := (Wire.pollWrite bytes s.inner).2 })
      else
        let bytes := bytes.take (16 * 1024)
        (.ready bytes.length,
          { s with core := { s.core with outgoing := frame mask.toList bytes 2 } })

/-- `poll_flush`. -/
def pollFlush : Poll Unit × Socket :=
  if s.panicked then (.pending, s) else s.flushOutgoing

/-- `poll_shutdown`. -/
def pollShutdown (s : Socket) : Poll Unit × Socket :=
  if s.panicked then (.pending, s)
  else
    Poll.andThen s.flushOutgoing fun _ s =>
      ((Wire.pollShutdown s.inner).1, { s with inner := (Wire.pollShutdown s.inner).2 })

end Socket

/-! ## Runs -/

/-- A call. -/
inductive Op where
  | read (masks : Masks) (n : Nat)
  | write (bytes : Bytes) (mask : Vector UInt8 4)
  | flush
  | shutdown
  /-- a poll of `read_upgrade`, which `connect` waits for unless it opens fast -/
  | upgrade

/-- Its result. -/
inductive Result where
  | read (r : Poll Bytes)
  | write (r : Poll Nat)
  | done (r : Poll Unit)
  deriving DecidableEq, Repr

/-- One call. -/
def step : Op → Result × Socket
  | .read masks n => (.read (s.pollRead masks n).1, (s.pollRead masks n).2)
  | .write bytes mask => (.write (s.pollWrite bytes mask).1, (s.pollWrite bytes mask).2)
  | .flush => (.done s.pollFlush.1, s.pollFlush.2)
  | .shutdown => (.done s.pollShutdown.1, s.pollShutdown.2)
  | .upgrade => (.done s.readUpgrade.1, s.readUpgrade.2)

end Clyntis.Protocol.WebSocket
