import Clyntis.Lib.Framed
import Clyntis.Lib.Table
import Clyntis.Protocol.Target

/-!
# The XUDP multiplexer (`xudp.rs`)

Many UDP flows share one stream: each `MuxSession` has a 16-bit id, `send` and the END
task of a dropped session write frames to the shared stream, and one reader task hands
the peer's frames to the session whose id they carry.

- `packet`, `endFrame`, `Job`: the frames;
- `Mux`: the state, with one program counter for every call and task;
- `SessionStep`, `SendStep`, `SectionStep`, `RecvStep`, `DropStep`, `EndStep`,
  `ReaderStep`, `OwnerStep`, `FailStep`: what each call and task does, one atomic access
  to shared data a step; `Step` is any of them, so a run is any interleaving.

Every call and task has a number of its own. The number of a `session()` call also names
the session and the channel it makes. Futures can be dropped at every `.await`. The time
of END's deadline is open: it may pass at any moment. The reader starts from a frame the
peer sent, in parsed form.
-/

namespace Clyntis.Protocol.Xudp

open Lib Net Function
open Lib.Framed (Output Guard)

/-! ## Frames -/

/-- `packet`. -/
def packet (sessionId : UInt16) (target : Target) (payload : Bytes) (first : Bool)
    (globalId : Option (Vector UInt8 8)) : Except String Bytes := do
  if 65507 < payload.length then throw "XUDP payload exceeds limit"
  let address ← encodeAddress target
  let global := if first then (globalId.map Vector.toList).getD [] else []
  let metadata := beBytes 2 sessionId.toNat ++ [if first then 1 else 2, 1, 2] ++ address ++ global
  return beBytes 2 metadata.length ++ metadata ++ beBytes 2 payload.length ++ payload

/-- The frame of `send_end`. -/
def endFrame (id : UInt16) : Bytes := [0, 4] ++ beBytes 2 id.toNat ++ [3, 0]

/-- What is written to the stream: the packet of a `send`, or END. -/
inductive Message where
  | packet (id : UInt16) (target : Target) (payload : Bytes) (first : Bool)
      (globalId : Option (Vector UInt8 8))
  | close (id : UInt16)
  deriving DecidableEq

/-- The bytes of a message. -/
def Message.bytes : Message → Except String Bytes
  | packet id target payload first globalId => Xudp.packet id target payload first globalId
  | close id => .ok (endFrame id)

/-- A message with its frame. -/
structure Job where
  message : Message
  frame : Bytes
  bytes_eq : message.bytes = .ok frame

/-- The frame of a message that has one. -/
def Job.make (message : Message) : Except String Job :=
  match h : message.bytes with
  | .ok frame => .ok ⟨message, frame, h⟩
  | .error e => .error e

theorem Job.make_eq {message : Message} {frame : Bytes} (h : message.bytes = .ok frame) :
    Job.make message = .ok ⟨message, frame, h⟩ := by
  unfold Job.make
  split
  · next f hf =>
    obtain rfl : f = frame := by simpa [hf] using h
    rfl
  · next e he => simp [he] at h

/-- END for a session. -/
def Job.close (id : UInt16) : Job := ⟨.close id, endFrame id, rfl⟩

/-- One call's turn at the stream. -/
structure Turn where
  call : Nat
  job : Job

/-- The frame is the one of this turn. -/
def Turn.Made (turn : Turn) (frame : Bytes) : Prop := frame = turn.job.frame

/-! ## The state -/

/-- `MuxSendState`. -/
structure MuxSendState where
  first : Bool := true
  usable : Bool := true
  deriving DecidableEq, Repr

/-- `MuxSession`, with the holders of its two locks. -/
structure MuxSession where
  id : UInt16
  target : Target
  globalId : Option (Vector UInt8 8)
  send : MuxSendState := {}
  sendLock : Option Nat := none
  receiverLock : Option Nat := none
  deriving DecidableEq

/-- `RoutedPacket`. -/
abbrev RoutedPacket : Type := Except String (Target × Bytes)

/-- `Route`; the sender is the one of the channel that the `session()` call made. -/
structure Route where
  target : Target
  sender : Nat
  deriving DecidableEq, Repr

/-- `KEEP`, `END` and `KEEPALIVE`: the statuses `multiplexed_metadata` accepts. -/
inductive Status where
  | keep
  | close
  | keepalive
  deriving DecidableEq, Repr

/-- `MuxMetadata`. -/
structure MuxMetadata where
  id : UInt16
  status : Status
  data : Bool
  target : Option Target
  deriving DecidableEq, Repr

/-- Who runs `fail_multiplexer`: the reader, the last owner, or a writing call. -/
inductive Tid where
  | reader
  | owner
  | call (n : Nat)
  deriving DecidableEq, Repr

/-- Where a `fail_multiplexer` is; `returned` says whether it was the one that cleared
`alive`. -/
inductive FailPoint where
  | idle
  | cancel (message : String)
  | swap (message : String)
  | take (message : String)
  | notify (message : String) (routes : List Route)
  | returned (won : Bool)
  deriving DecidableEq

/-- Where the reader task is. -/
inductive ReaderPoint where
  | reading
  | routing (metadata : MuxMetadata) (payload : Option Bytes)
  | holding (route : Route) (metadata : MuxMetadata) (payload : Option Bytes)
  | failing
  | stopped
  deriving DecidableEq

/-- Where a `session()` call is: before the first look at `alive`, before the lock, before
the second look, before it takes an id. -/
inductive SessionPoint where
  | checking
  | locking
  | rechecking
  | reserving
  deriving DecidableEq, Repr

/-- Where a `send` is. In `writing` it holds the stream; the guard says how far it is. -/
inductive SendPoint where
  | checking
  | locking
  | preparing
  | waiting (job : Job)
  | writing

/-- Where a `recv` is. -/
inductive RecvPoint where
  | locking
  | receiving
  deriving DecidableEq, Repr

/-- Where the drop of a session is after it removed a route. -/
inductive DropPoint where
  | checking
  | spawning
  | counting
  | uncounting
  deriving DecidableEq, Repr

/-- Where an END task is. -/
inductive EndPoint where
  | waiting
  | writing
  | leaving
  deriving DecidableEq, Repr

/-- How a call ended. -/
inductive Outcome where
  | opened
  | sent
  | received (packet : Target × Bytes)
  | failed (error : String)
  | dropped
  | cancelled
  deriving DecidableEq

/-- The program counter of a call or task. -/
inductive Pc where
  | idle
  | session (target : Target) (globalId : Option (Vector UInt8 8)) (point : SessionPoint)
  | send (session : Nat) (target : Target) (payload : Bytes) (point : SendPoint)
  | recv (session : Nat) (point : RecvPoint)
  | dropping (id : UInt16) (point : DropPoint)
  | ending (id : UInt16) (point : EndPoint)
  | returned (outcome : Outcome)

/-- The call borrows this session. -/
def Pc.Uses (session : Nat) : Pc → Prop
  | send c .. => c = session
  | recv c _ => c = session
  | _ => False

/-- The call borrows or owns the multiplexer. -/
def Pc.UsesMux : Pc → Prop
  | session .. | send .. | recv .. | dropping .. => True
  | idle | ending .. | returned _ => False

/-- `Shared`, the sessions and channels, and the calls and tasks. `routesLock` is held
across steps by `session()` only. -/
structure Mux where
  writer : Output Turn UInt8
  routes : Table UInt16 Route
  routesLock : Option Nat
  nextId : UInt16
  alive : Bool
  closed : Bool
  pendingEnds : Nat
  sessions : Nat → Option MuxSession
  inbox : Nat → List RoutedPacket
  pcs : Nat → Pc
  fails : Tid → FailPoint
  reader : ReaderPoint
  dropped : Bool

/-- `Multiplexer::new`. -/
def Mux.new : Mux where
  writer := ⟨[], [], none⟩
  routes := ∅
  routesLock := none
  nextId := 0
  alive := true
  closed := false
  pendingEnds := 0
  sessions := fun _ => none
  inbox := fun _ => []
  pcs := fun _ => .idle
  fails := fun _ => .idle
  reader := .reading
  dropped := false

namespace Mux

variable (s : Mux)

/-- Call `n` goes on at `pc`. -/
@[simps] def goto (n : Nat) (pc : Pc) : Mux := { s with pcs := update s.pcs n pc }

/-- The `fail_multiplexer` of `t` goes on at `point`. -/
@[simps] def failAt (t : Tid) (point : FailPoint) : Mux :=
  { s with fails := update s.fails t point }

/-- The session is now `m`. -/
@[simps] def setSession (c : Nat) (m : MuxSession) : Mux :=
  { s with sessions := update s.sessions c (some m) }

/-- `sender.try_send(packet)` on a channel with 64 slots. -/
@[simps] def trySend (c : Nat) (packet : RoutedPacket) : Mux :=
  { s with
    inbox := update s.inbox c
      (if (s.inbox c).length < 64 then s.inbox c ++ [packet] else s.inbox c) }

/-- A sender of the channel exists: in the route table, or in the hands of the reader or
of a `fail_multiplexer`. -/
def HasSender (c : Nat) : Prop :=
  (∃ id r, s.routes.lookup id = some r ∧ r.sender = c) ∨
  (∃ r metadata payload, s.reader = .holding r metadata payload ∧ r.sender = c) ∨
  ∃ t message rs, s.fails t = .notify message rs ∧ ∃ r ∈ rs, r.sender = c

end Mux

/-! ## `session()` -/

/-- The search of `session()`: up to `tries` values of the counter, the first that has no
route; and the counter after it. -/
def findId (routes : Table UInt16 Route) : (tries : Nat) → (next : UInt16) →
    Option UInt16 × UInt16
  | 0, next => (none, next)
  | tries + 1, next =>
    if (routes.lookup next).isSome then findId routes tries (next + 1)
    else (some next, next + 1)

/-- `session()`. The search and the insertion are one step: both use only what the lock
protects. -/
inductive SessionStep (n : Nat) : Mux → Mux → Prop
  | call {s} (target : Target) (globalId : Option (Vector UInt8 8)) :
      s.pcs n = .idle → s.dropped = false →
      SessionStep n s (s.goto n (.session target globalId .checking))
  | refused {s target globalId} :
      s.pcs n = .session target globalId .checking → s.alive = false →
      SessionStep n s (s.goto n (.returned (.failed "XUDP multiplexer is closed")))
  | passed {s target globalId} :
      s.pcs n = .session target globalId .checking → s.alive = true →
      SessionStep n s (s.goto n (.session target globalId .locking))
  | lock {s target globalId} :
      s.pcs n = .session target globalId .locking → s.routesLock = none →
      SessionStep n s ({ s with routesLock := some n }.goto n
        (.session target globalId .rechecking))
  | refusedAgain {s target globalId} :
      s.pcs n = .session target globalId .rechecking → s.alive = false →
      SessionStep n s ({ s with routesLock := none }.goto n
        (.returned (.failed "XUDP multiplexer is closed")))
  | passedAgain {s target globalId} :
      s.pcs n = .session target globalId .rechecking → s.alive = true →
      SessionStep n s (s.goto n (.session target globalId .reserving))
  | exhausted {s target globalId next} :
      s.pcs n = .session target globalId .reserving →
      findId s.routes 65536 s.nextId = (none, next) →
      SessionStep n s ({ s with routesLock := none, nextId := next }.goto n
        (.returned (.failed "XUDP session ID space exhausted")))
  | reserve {s target globalId id next} :
      s.pcs n = .session target globalId .reserving →
      findId s.routes 65536 s.nextId = (some id, next) →
      SessionStep n s (({ s with
        routes := s.routes.insert id ⟨target, n⟩
        routesLock := none
        nextId := next }.setSession n ⟨id, target, globalId, {}, none, none⟩).goto n
          (.returned .opened))

/-! ## Writing: `send` and END -/

/-- The checks at the start of `send`. -/
def sendRefusal (m : MuxSession) (target : Target) (alive : Bool) : Option String :=
  if target ≠ m.target then some "XUDP session target changed"
  else if alive = false then some "XUDP multiplexer is closed"
  else none

/-- What `send` does once it holds the session's lock: the frame to write. -/
def prepareSend (m : MuxSession) (target : Target) (payload : Bytes) : Except String Job :=
  if m.send.usable = false then .error "XUDP writer interrupted or closed"
  else Job.make (.packet m.id target payload m.send.first m.globalId)

/-- `send`, outside the part that both `send` and END have (`SectionStep`). The attempt
is dropped before the stream is released, and the stream before the session's lock. -/
inductive SendStep (n : Nat) : Mux → Mux → Prop
  | call {s c m} (target : Target) (payload : Bytes) :
      s.pcs n = .idle → s.sessions c = some m →
      SendStep n s (s.goto n (.send c target payload .checking))
  | refused {s c m target payload e} :
      s.pcs n = .send c target payload .checking → s.sessions c = some m →
      sendRefusal m target s.alive = some e →
      SendStep n s (s.goto n (.returned (.failed e)))
  | passed {s c m target payload} :
      s.pcs n = .send c target payload .checking → s.sessions c = some m →
      sendRefusal m target s.alive = none →
      SendStep n s (s.goto n (.send c target payload .locking))
  | lock {s c m target payload} :
      s.pcs n = .send c target payload .locking → s.sessions c = some m → m.sendLock = none →
      SendStep n s ((s.setSession c { m with sendLock := some n }).goto n
        (.send c target payload .preparing))
  | unprepared {s c m target payload e} :
      s.pcs n = .send c target payload .preparing → s.sessions c = some m →
      prepareSend m target payload = .error e →
      SendStep n s ((s.setSession c { m with sendLock := none }).goto n (.returned (.failed e)))
  | prepared {s c m target payload job} :
      s.pcs n = .send c target payload .preparing → s.sessions c = some m →
      prepareSend m target payload = .ok job →
      SendStep n s ((s.setSession c { m with send := { m.send with usable := false } }).goto n
        (.send c target payload (.waiting job)))
  | enter {s c target payload job} :
      s.pcs n = .send c target payload (.waiting job) → s.writer.guard = none →
      SendStep n s ({ s with writer := s.writer.hold ⟨⟨n, job⟩, job.frame, .owned⟩ }.goto n
        (.send c target payload .writing))
  | closed {s c m target payload g} :
      s.pcs n = .send c target payload .writing → s.sessions c = some m →
      s.writer.guard = some g → g.owner.call = n → g.stage = .owned → s.alive = false →
      SendStep n s (({ s with writer := s.writer.free }.setSession c
        { m with sendLock := none }).goto n (.returned (.failed "XUDP multiplexer is closed")))
  | commit {s c m target payload g} :
      s.pcs n = .send c target payload .writing → s.sessions c = some m →
      s.writer.guard = some g → g.owner.call = n → g.stage = .flushing →
      SendStep n s (({ s with writer := s.writer.commit g }.setSession c
        { m with send := ⟨false, true⟩, sendLock := none }).goto n (.returned .sent))
  | release {s c m target payload g k won outcome} :
      s.pcs n = .send c target payload .writing → s.sessions c = some m →
      s.writer.guard = some g → g.owner.call = n → g.stage = .torn k →
      s.fails (.call n) = .returned won → (outcome = .cancelled ∨ ∃ e, outcome = .failed e) →
      SendStep n s (({ s with writer := s.writer.free }.setSession c
        { m with sendLock := none }).goto n (.returned outcome))
  | cancelLocking {s c target payload} :
      s.pcs n = .send c target payload .locking →
      SendStep n s (s.goto n (.returned .cancelled))
  | cancelWaiting {s c m target payload job} :
      s.pcs n = .send c target payload (.waiting job) → s.sessions c = some m →
      SendStep n s ((s.setSession c { m with sendLock := none }).goto n (.returned .cancelled))

/-- What `send` and `send_end` do between taking the stream and leaving it. `tear` is an
error of the write or the flush, or the drop of the future while it waits for them; the
drop of the `WriteAttempt` then runs `fail_multiplexer`. -/
inductive SectionStep (n : Nat) : Mux → Mux → Prop
  | arm {s g} : s.writer.guard = some g → g.owner.call = n →
      g.stage = .owned → s.alive = true →
      SectionStep n s { s with writer := s.writer.hold { g with stage := .writing 0 } }
  | write {s g done k} : s.writer.guard = some g →
      g.owner.call = n → g.stage = .writing done → 0 < k → done + k ≤ g.frame.length →
      SectionStep n s { s with writer := s.writer.write g done k }
  | flush {s g} : s.writer.guard = some g → g.owner.call = n →
      g.stage = .writing g.frame.length →
      SectionStep n s { s with writer := s.writer.hold { g with stage := .flushing } }
  | tear {s g} : s.writer.guard = some g → g.owner.call = n →
      g.stage.active = true →
      SectionStep n s ({ s with
        writer := s.writer.hold { g with stage := .torn g.written } }.failAt (.call n)
          (.cancel "XUDP write interrupted"))

/-- The END task. `stop` is the deadline, or `closed`; the count goes down when the task
ends, however it ends. -/
inductive EndStep (n : Nat) : Mux → Mux → Prop
  | enter {s id} : s.pcs n = .ending id .waiting → s.writer.guard = none →
      EndStep n s ({ s with
        writer := s.writer.hold ⟨⟨n, .close id⟩, (Job.close id).frame, .owned⟩ }.goto n
          (.ending id .writing))
  | closed {s id g} : s.pcs n = .ending id .writing →
      s.writer.guard = some g → g.owner.call = n → g.stage = .owned → s.alive = false →
      EndStep n s ({ s with writer := s.writer.free }.goto n (.ending id .leaving))
  | commit {s id g} : s.pcs n = .ending id .writing →
      s.writer.guard = some g → g.owner.call = n → g.stage = .flushing →
      EndStep n s ({ s with writer := s.writer.commit g }.goto n (.ending id .leaving))
  | release {s id g k won} :
      s.pcs n = .ending id .writing →
      s.writer.guard = some g → g.owner.call = n → g.stage = .torn k →
      s.fails (.call n) = .returned won →
      EndStep n s ({ s with writer := s.writer.free }.goto n (.ending id .leaving))
  | stop {s id} : s.pcs n = .ending id .waiting →
      EndStep n s (s.goto n (.ending id .leaving))
  | leave {s id} : s.pcs n = .ending id .leaving →
      EndStep n s ({ s with pendingEnds := s.pendingEnds - 1 }.goto n (.returned .dropped))

/-! ## `recv` -/

/-- What `recv` returns for a message of its channel. -/
def received : RoutedPacket → Outcome
  | .ok packet => .received packet
  | .error e => .failed e

/-- `recv`. The channel is closed when it is empty and nobody has a sender of it. -/
inductive RecvStep (n : Nat) : Mux → Mux → Prop
  | call {s c m} : s.pcs n = .idle → s.sessions c = some m →
      RecvStep n s (s.goto n (.recv c .locking))
  | lock {s c m} : s.pcs n = .recv c .locking →
      s.sessions c = some m → m.receiverLock = none →
      RecvStep n s ((s.setSession c { m with receiverLock := some n }).goto n (.recv c .receiving))
  | packet {s c m p rest} :
      s.pcs n = .recv c .receiving → s.sessions c = some m → s.inbox c = p :: rest →
      RecvStep n s (({ s with inbox := update s.inbox c rest }.setSession c
        { m with receiverLock := none }).goto n (.returned (received p)))
  | closed {s c m} :
      s.pcs n = .recv c .receiving → s.sessions c = some m → s.inbox c = [] →
      ¬ s.HasSender c →
      RecvStep n s ((s.setSession c { m with receiverLock := none }).goto n
        (.returned (.failed "XUDP multiplexer closed")))
  | cancelLocking {s c} : s.pcs n = .recv c .locking →
      RecvStep n s (s.goto n (.returned .cancelled))
  | cancelReceiving {s c m} : s.pcs n = .recv c .receiving →
      s.sessions c = some m →
      RecvStep n s ((s.setSession c { m with receiverLock := none }).goto n
        (.returned .cancelled))

/-! ## Dropping sessions and the multiplexer -/

/-- The drop of a `MuxSession`, which no call borrows any more. `MAX_PENDING_ENDS` is 32;
the call goes on as the END task it spawns. -/
inductive DropStep (n : Nat) : Mux → Mux → Prop
  | remove {s c m} : s.pcs n = .idle → s.sessions c = some m →
      (∀ k, ¬ (s.pcs k).Uses c) → s.routesLock = none →
      DropStep n s ({ s with
        routes := s.routes.erase m.id
        sessions := update s.sessions c none }.goto n
          (if (s.routes.lookup m.id).isSome then .dropping m.id .checking
            else .returned .dropped))
  | closed {s id} : s.pcs n = .dropping id .checking → s.alive = false →
      DropStep n s (s.goto n (.returned .dropped))
  | passed {s id} : s.pcs n = .dropping id .checking → s.alive = true →
      DropStep n s (s.goto n (.dropping id .spawning))
  | noRuntime {s id} : s.pcs n = .dropping id .spawning →
      DropStep n s (s.goto n (.returned .dropped))
  | runtime {s id} : s.pcs n = .dropping id .spawning →
      DropStep n s (s.goto n (.dropping id .counting))
  | count {s id} : s.pcs n = .dropping id .counting →
      DropStep n s ({ s with pendingEnds := s.pendingEnds + 1 }.goto n
        (if 32 ≤ s.pendingEnds then .dropping id .uncounting else .ending id .waiting))
  | uncount {s id} : s.pcs n = .dropping id .uncounting →
      DropStep n s ({ s with pendingEnds := s.pendingEnds - 1 }.goto n (.returned .dropped))

/-- The drop of the `Multiplexer`, when nobody uses it any more. -/
inductive OwnerStep : Mux → Mux → Prop
  | drop {s} : s.dropped = false → (∀ c, s.sessions c = none) →
      (∀ k, ¬ (s.pcs k).UsesMux) →
      OwnerStep s ({ s with dropped := true }.failAt .owner (.cancel "XUDP multiplexer dropped"))

/-! ## The reader and `fail_multiplexer` -/

/-- What the reader sends to the session of a frame. -/
def delivery (route : Route) (metadata : MuxMetadata) (payload : Option Bytes) :
    Option RoutedPacket :=
  if metadata.status = .close then some (.error "XUDP session ended")
  else payload.map fun p => .ok (metadata.target.getD route.target, p)

/-- `read_multiplexed`. `broken` is every error of reading or parsing and the end of the
stream; the task ends at its next `.await` once the multiplexer is dropped. -/
inductive ReaderStep : Mux → Mux → Prop
  | frame {s} (metadata : MuxMetadata) (payload : Option Bytes) :
      s.reader = .reading → payload.isSome = metadata.data →
      ReaderStep s { s with
        reader := if metadata.status = .keepalive then .reading
          else .routing metadata payload }
  | pick {s metadata payload} :
      s.reader = .routing metadata payload → s.routesLock = none →
      ReaderStep s { s with
        routes := if metadata.status = .close then s.routes.erase metadata.id else s.routes
        reader := match s.routes.lookup metadata.id with
          | some r => .holding r metadata payload
          | none => .reading }
  | deliver {s r metadata payload p} :
      s.reader = .holding r metadata payload → delivery r metadata payload = some p →
      ReaderStep s ({ s with reader := .reading }.trySend r.sender p)
  | empty {s r metadata payload} :
      s.reader = .holding r metadata payload → delivery r metadata payload = none →
      ReaderStep s { s with reader := .reading }
  | broken {s} (message : String) : s.reader = .reading →
      ReaderStep s ({ s with reader := .failing }.failAt .reader (.cancel message))
  | failed {s won} : s.reader = .failing → s.fails .reader = .returned won →
      ReaderStep s { s with reader := .stopped }
  | aborted {s} : s.reader = .reading → s.dropped = true →
      ReaderStep s { s with reader := .stopped }

/-- `fail_multiplexer`. The taken routes are told in any order, and each is dropped once
it is told. -/
inductive FailStep (t : Tid) : Mux → Mux → Prop
  | cancel {s message} : s.fails t = .cancel message →
      FailStep t s ({ s with closed := true }.failAt t (.swap message))
  | lost {s message} : s.fails t = .swap message → s.alive = false →
      FailStep t s (s.failAt t (.returned false))
  | won {s message} : s.fails t = .swap message → s.alive = true →
      FailStep t s ({ s with alive := false }.failAt t (.take message))
  | take {s message rs} : s.fails t = .take message →
      s.routesLock = none → rs.Perm s.routes.values →
      FailStep t s ({ s with routes := ∅ }.failAt t (.notify message rs))
  | notify {s message r rs} :
      s.fails t = .notify message (r :: rs) →
      FailStep t s ((s.trySend r.sender (.error message)).failAt t (.notify message rs))
  | finish {s message} : s.fails t = .notify message [] →
      FailStep t s (s.failAt t (.returned true))

/-! ## Runs -/

/-- One step of any call or task. -/
inductive Step : Mux → Mux → Prop
  | session {s s' n} : SessionStep n s s' → Step s s'
  | send {s s' n} : SendStep n s s' → Step s s'
  | writing {s s' n} : SectionStep n s s' → Step s s'
  | ending {s s' n} : EndStep n s s' → Step s s'
  | recv {s s' n} : RecvStep n s s' → Step s s'
  | dropping {s s' n} : DropStep n s s' → Step s s'
  | owner {s s'} : OwnerStep s s' → Step s s'
  | reader {s s'} : ReaderStep s s' → Step s s'
  | fail {s s' t} : FailStep t s s' → Step s s'

/-- Any number of steps. -/
abbrev Runs : Mux → Mux → Prop := Relation.ReflTransGen Step

/-- A state some run from a new multiplexer reaches. -/
abbrev Reachable (s : Mux) : Prop := Runs .new s

theorem Reachable.runs {s s' : Mux} (h : Reachable s) (hr : Runs s s') : Reachable s' :=
  Relation.ReflTransGen.trans h hr

theorem Reachable.step {s s' : Mux} (h : Reachable s) (hs : Step s s') : Reachable s' :=
  Relation.ReflTransGen.tail h hs

/-- What holds at the start and is kept by every step from a reachable state holds in
every reachable state. -/
theorem Reachable.induction {motive : (s : Mux) → Reachable s → Prop} (new : motive .new .refl)
    (step : ∀ s s' (hr : Reachable s) (hs : Step s s'), motive s hr → motive s' (hr.step hs))
    {s : Mux} (h : Reachable s) : motive s h := by
  induction h with
  | refl => exact new
  | tail hr hs ih => exact step _ _ hr hs ih

/-! ## What a step does to the calls -/

/-- What a call or task is: not started, one of the four kinds (END is the end of a drop), or
over. -/
inductive CallKind where
  | idle
  | session
  | send
  | recv
  | drop
  | returned
  deriving DecidableEq, Repr

/-- The kind of a program counter. -/
def Pc.kind : Pc → CallKind
  | idle => .idle
  | session .. => .session
  | send .. => .send
  | recv .. => .recv
  | dropping .. | ending .. => .drop
  | returned _ => .returned

/-- A step of call `n`, at its own program counter. -/
inductive CallStep (n : Nat) (s s' : Mux) : Prop
  | session : SessionStep n s s' → CallStep n s s'
  | send : SendStep n s s' → CallStep n s s'
  | ending : EndStep n s s' → CallStep n s s'
  | recv : RecvStep n s s' → CallStep n s s'
  | dropping : DropStep n s s' → CallStep n s s'

variable {s s' : Mux} {n : Nat}

theorem Mux.goto_pcs_self (s : Mux) (n : Nat) (pc : Pc) : (s.goto n pc).pcs n = pc := by
  rw [Mux.goto_pcs, update_self]

/-- Where a call is after a step that moved it. -/
theorem Mux.pc_of_update {pc pc' : Pc} (hpcs : s'.pcs = update s.pcs n pc)
    (h : s'.pcs n = pc') : pc = pc' := by
  rw [hpcs, update_self] at h
  exact h

theorem CallStep.elsewhere {k : Nat} (h : CallStep k s s') (hn : n ≠ k) : s'.pcs n = s.pcs n := by
  cases h with
  | session h | send h | ending h | recv h | dropping h =>
    cases h <;> exact update_of_ne hn _ _

/-- A program counter changes only in a step of its own call. -/
theorem Step.call (hs : Step s s') (n : Nat) : s'.pcs n = s.pcs n ∨ CallStep n s s' := by
  have own {k : Nat} (h : CallStep k s s') : s'.pcs n = s.pcs n ∨ CallStep n s s' := by
    by_cases hn : n = k
    · exact .inr (hn ▸ h)
    · exact .inl (h.elsewhere hn)
  cases hs with
  | session h => exact own (.session h)
  | send h => exact own (.send h)
  | ending h => exact own (.ending h)
  | recv h => exact own (.recv h)
  | dropping h => exact own (.dropping h)
  | writing h | owner h | reader h | fail h => cases h <;> exact .inl rfl

theorem SessionStep.kind (h : SessionStep n s s') :
    ((s.pcs n).kind = .idle ∨ (s.pcs n).kind = .session) ∧
      ((s'.pcs n).kind = .session ∨ (s'.pcs n).kind = .returned) := by
  cases h <;> simp_all [Pc.kind]

theorem SendStep.kind (h : SendStep n s s') :
    ((s.pcs n).kind = .idle ∨ (s.pcs n).kind = .send) ∧
      ((s'.pcs n).kind = .send ∨ (s'.pcs n).kind = .returned) := by
  cases h <;> simp_all [Pc.kind]

theorem RecvStep.kind (h : RecvStep n s s') :
    ((s.pcs n).kind = .idle ∨ (s.pcs n).kind = .recv) ∧
      ((s'.pcs n).kind = .recv ∨ (s'.pcs n).kind = .returned) := by
  cases h <;> simp_all [Pc.kind]

theorem EndStep.kind (h : EndStep n s s') :
    (s.pcs n).kind = .drop ∧ ((s'.pcs n).kind = .drop ∨ (s'.pcs n).kind = .returned) := by
  cases h <;> simp_all [Pc.kind]

theorem DropStep.kind (h : DropStep n s s') :
    ((s.pcs n).kind = .idle ∨ (s.pcs n).kind = .drop) ∧
      ((s'.pcs n).kind = .drop ∨ (s'.pcs n).kind = .returned) := by
  cases h with
  | remove hpc =>
    refine ⟨.inl (by rw [hpc]; rfl), ?_⟩
    rw [Mux.goto_pcs, update_self]
    split
    · exact .inl rfl
    · exact .inr rfl
  | count hpc =>
    refine ⟨.inr (by rw [hpc]; rfl), .inl ?_⟩
    rw [Mux.goto_pcs, update_self]
    split <;> rfl
  | _ => simp_all [Pc.kind]

variable (h : CallStep n s s')
include h

/-- A call moves until it has returned. -/
theorem CallStep.not_returned : (s.pcs n).kind ≠ .returned := by
  intro hk
  cases h with
  | session h | send h | ending h | recv h | dropping h => simpa [hk] using h.kind.1

/-- Only its own steps move a `recv`. -/
theorem CallStep.of_recv (hk : (s.pcs n).kind = .recv) : RecvStep n s s' := by
  cases h with
  | session h | send h | ending h | dropping h => simpa [hk] using h.kind.1
  | recv h => exact h

/-- What becomes a `send` was moved by `send`. -/
theorem CallStep.to_send (hk : (s'.pcs n).kind = .send) : SendStep n s s' := by
  cases h with
  | session h | ending h | recv h | dropping h => simpa [hk] using h.kind.2
  | send h => exact h

/-- What becomes a `recv` was moved by `recv`. -/
theorem CallStep.to_recv (hk : (s'.pcs n).kind = .recv) : RecvStep n s s' := by
  cases h with
  | session h | send h | ending h | dropping h => simpa [hk] using h.kind.2
  | recv h => exact h

/-- What becomes a `session()` call was moved by `session()`. -/
theorem CallStep.to_session (hk : (s'.pcs n).kind = .session) : SessionStep n s s' := by
  cases h with
  | session h => exact h
  | send h | ending h | recv h | dropping h => simpa [hk] using h.kind.2

omit h

/-- A call that returned stays as it is. -/
theorem Step.returned (hs : Step s s') {o : Outcome} (h : s.pcs n = .returned o) :
    s'.pcs n = .returned o := by
  rcases hs.call n with hsame | hown
  · rwa [hsame]
  · exact absurd (by rw [h]; rfl) hown.not_returned

/-- The call is done with the stream. -/
def Pc.Over : Pc → Prop
  | ending _ .leaving | returned _ => True
  | _ => False

/-- The call holds the stream. -/
def Pc.Writing : Pc → Prop
  | send _ _ _ .writing | ending _ .writing => True
  | _ => False

/-- A call that is done with the stream stays so. -/
theorem Step.stays_over (hs : Step s s') (h : (s.pcs n).Over) : (s'.pcs n).Over := by
  rcases hs.call n with hsame | hown
  · rwa [hsame]
  · cases hown with
    | session hs | send hs | ending hs | recv hs | dropping hs => cases hs <;> simp_all [Pc.Over]

/-- While the stream is held, the call that holds it does not move. -/
theorem Step.writing_pc (hs : Step s s') (h : (s.pcs n).Writing)
    (hg : s'.writer.guard ≠ none) : s'.pcs n = s.pcs n := by
  rcases hs.call n with hsame | hown
  · exact hsame
  · cases hown with
    | session hs | recv hs | dropping hs => cases hs <;> simp_all [Pc.Writing]
    | send hs | ending hs => cases hs <;> simp_all [Pc.Writing, Output.free, Output.commit]

/-! ## A `session()` call that nothing interrupts -/

theorem findId_of_free {routes : Table UInt16 Route} {next : UInt16} (tries : Nat)
    (h : routes.lookup next = none) :
    findId routes (tries + 1) next = (some next, next + 1) := by
  rw [findId, h]
  rfl

@[simp] theorem Mux.goto_goto (s : Mux) (n : Nat) (pc pc' : Pc) :
    (s.goto n pc).goto n pc' = s.goto n pc' := by
  simp [Mux.goto]

/-- The state after a `session()` call that took the id. -/
def Mux.opened (s : Mux) (n : Nat) (target : Target) (globalId : Option (Vector UInt8 8))
    (id : UInt16) : Mux :=
  ({ s with
    routes := s.routes.insert id ⟨target, n⟩
    routesLock := none
    nextId := id + 1 }.setSession n ⟨id, target, globalId, {}, none, none⟩).goto n
      (.returned .opened)

theorem Mux.opened_pcs (s : Mux) (n : Nat) (target : Target)
    (globalId : Option (Vector UInt8 8)) (id : UInt16) :
    (s.opened n target globalId id).pcs = update s.pcs n (.returned .opened) := rfl

theorem Mux.opened_sessions (s : Mux) (n : Nat) (target : Target)
    (globalId : Option (Vector UInt8 8)) (id : UInt16) :
    (s.opened n target globalId id).sessions =
      update s.sessions n (some ⟨id, target, globalId, {}, none, none⟩) := rfl

theorem Mux.opened_routes (s : Mux) (n : Nat) (target : Target)
    (globalId : Option (Vector UInt8 8)) (id : UInt16) :
    (s.opened n target globalId id).routes = s.routes.insert id ⟨target, n⟩ := rfl

/-- A call that finds the multiplexer alive, the lock free and the counter at a free id
takes that id. -/
theorem runs_open {s : Mux} {n : Nat} (target : Target) (globalId : Option (Vector UInt8 8))
    (hpc : s.pcs n = .idle) (hd : s.dropped = false) (ha : s.alive = true)
    (hl : s.routesLock = none) (hfree : s.routes.lookup s.nextId = none) :
    Runs s (s.opened n target globalId s.nextId) := by
  have h1 : Runs s (s.goto n (.session target globalId .checking)) :=
    .single (.session (.call target globalId hpc hd))
  have h2 : Runs s (s.goto n (.session target globalId .locking)) := by
    have h := h1.tail (.session (.passed (s.goto_pcs_self n _) ha))
    rwa [Mux.goto_goto] at h
  have h3 : Runs s ({ s with routesLock := some n }.goto n
      (.session target globalId .rechecking)) := by
    have h := h2.tail (.session (.lock (s.goto_pcs_self n _) hl))
    exact (Mux.goto_goto { s with routesLock := some n } n _ _) ▸ h
  have h4 : Runs s ({ s with routesLock := some n }.goto n
      (.session target globalId .reserving)) := by
    have h := h3.tail (.session (.passedAgain (Mux.goto_pcs_self _ n _) ha))
    rwa [Mux.goto_goto] at h
  have h5 := h4.tail
    (.session (.reserve (Mux.goto_pcs_self _ n _) (findId_of_free 65535 hfree)))
  rw [Mux.opened, ← Mux.goto_goto _ n (.session target globalId .reserving)]
  exact h5

end Clyntis.Protocol.Xudp
