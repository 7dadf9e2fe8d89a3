import Clyntis.Tailscale.NetMap

/-!
# The DERP writer (`derp.rs`)

Packets for a relay and the answers to its pings go through one bounded queue to a task that
writes them to the connection. The task waits for an item, writes it, then takes what else is
queued as long as those items are packets, and flushes.

- `Writer`, `Step`: the queue and the task, one step at each point where the task may be
  suspended, so that anything can be queued in between; `accepted` and `written` are on record;
- `Step.effect`: what a step does to the items between acceptance and the connection;
- `packets_written`: a packet is lost only by a write or a flush that fails, which ends the task
  and drops what is queued;
- `written_exactly`: so is an answer, unless the inner loop comes upon it. That loop takes the
  item out of the queue before it looks at its kind (`answer_lost`).
-/

namespace Clyntis.Tailscale.Derp

open Lib Net List

/-- `Frame`. -/
inductive Frame where
  | send (dest : Public) (packet : Bytes)
  | pong (data : Bytes)
  deriving DecidableEq, Repr

def sendPacket : UInt8 := 0x04
def pong : UInt8 := 0x13

/-- The capacity of the queue. -/
def capacity : Nat := 512

/-- `frame`. -/
def frame (kind : UInt8) (payload : Bytes) : Bytes :=
  kind :: beBytes 4 payload.length ++ payload

/-- The bytes of an item on the connection. -/
def Frame.bytes : Frame → Bytes
  | send dest packet => frame sendPacket (beBytes 32 dest.toNat ++ packet)
  | pong data => frame Derp.pong data

/-- Whether an item is a packet. -/
def Frame.isPacket : Frame → Bool
  | send .. => true
  | pong _ => false

/-- Where the task is. -/
inductive Phase where
  /-- in `rx.recv()` -/
  | receiving
  /-- in `writer.write_all()`, in the outer or in the inner loop -/
  | writing (item : Frame)
  /-- before `rx.try_recv()` -/
  | draining
  /-- in `writer.flush()` -/
  | flushing
  /-- a write failed after so many bytes of the item; the receiver is gone with its queue -/
  | writeFailed (item : Frame) (count : Nat) (dropped : List Frame)
  | flushFailed (dropped : List Frame)
  /-- all links were dropped -/
  | finished
  deriving DecidableEq, Repr

/-- The items that are neither queued any more nor written: one that is being written, or those
that a failure has dropped. -/
def Phase.inHand : Phase → List Frame
  | writing item => [item]
  | writeFailed item _ dropped => item :: dropped
  | flushFailed dropped => dropped
  | _ => []

/-- What a failed write has left on the connection. -/
def Phase.torn : Phase → Bytes
  | writeFailed item count _ => item.bytes.take count
  | _ => []

/-- The task runs, and so the queue is open. -/
def Phase.alive : Phase → Bool
  | writeFailed .. | flushFailed _ | finished => false
  | _ => true

/-- The queue, the task and the connection. -/
structure Writer where
  queue : List Frame := []
  /-- some `Link` is left -/
  linked : Bool := true
  phase : Phase := .receiving
  /-- the bytes on the connection -/
  output : Bytes := []
  /-- the items that were queued, in order -/
  accepted : List Frame := []
  /-- the items that were written, in order -/
  written : List Frame := []

/-- What happens next. -/
inductive Event where
  /-- `try_send`, by `Link::send` or for a ping -/
  | offer (item : Frame)
  /-- the last `Link` is dropped -/
  | unlink
  /-- `rx.recv()` returns -/
  | recv
  /-- the write in progress ends -/
  | wrote
  | writeFails (count : Nat)
  /-- `rx.try_recv()` -/
  | tryRecv
  /-- the flush ends -/
  | flushed
  | flushFails
  deriving DecidableEq, Repr

/-- Whether the task takes the step. -/
def Event.ofTask : Event → Bool
  | offer _ | unlink => false
  | _ => true

namespace Writer

variable {w w' : Writer} {e : Event}

/-- `try_send`. The sender of an answer is upgraded from a weak one, so it needs a `Link` too. -/
def offer (w : Writer) (item : Frame) : Writer :=
  if w.linked && w.phase.alive && decide (w.queue.length < capacity) then
    { w with queue := w.queue ++ [item], accepted := w.accepted ++ [item] }
  else w

/-- One step. -/
inductive Step (w : Writer) : Event → Writer → Prop where
  | offer (item : Frame) : Step w (.offer item) (w.offer item)
  | unlink : Step w .unlink { w with linked := false }
  | recv {item rest} (hphase : w.phase = .receiving)
      (hqueue : w.queue = item :: rest) :
      Step w .recv { w with queue := rest, phase := .writing item }
  | recvNone (hphase : w.phase = .receiving) (hqueue : w.queue = []) (hlinked : w.linked = false) :
      Step w .recv { w with phase := .finished }
  | wrote {item} (hphase : w.phase = .writing item) :
      Step w .wrote { w with
        phase := .draining
        output := w.output ++ item.bytes
        written := w.written ++ [item] }
  | writeFails {item} (count : Nat) (hphase : w.phase = .writing item) :
      Step w (.writeFails count) { w with
        queue := []
        phase := .writeFailed item count w.queue
        output := w.output ++ item.bytes.take count }
  | drain {dest packet rest} (hphase : w.phase = .draining)
      (hqueue : w.queue = .send dest packet :: rest) :
      Step w .tryRecv { w with queue := rest, phase := .writing (.send dest packet) }
  /-- the pattern `Ok(Frame::Send(..))` fails with the item already taken -/
  | drainAnswer {data rest} (hphase : w.phase = .draining)
      (hqueue : w.queue = .pong data :: rest) :
      Step w .tryRecv { w with queue := rest, phase := .flushing }
  | drained (hphase : w.phase = .draining) (hqueue : w.queue = []) :
      Step w .tryRecv { w with phase := .flushing }
  | flushed (hphase : w.phase = .flushing) : Step w .flushed { w with phase := .receiving }
  | flushFails (hphase : w.phase = .flushing) :
      Step w .flushFails { w with queue := [], phase := .flushFailed w.queue }

/-- The items that were written, are in hand or are queued. -/
def kept (w : Writer) : List Frame := w.written ++ w.phase.inHand ++ w.queue

/-- The inner loop comes upon an answer. -/
def Drops (w : Writer) (e : Event) : Prop :=
  e = .tryRecv ∧ ∃ data, w.queue.head? = some (.pong data)

/-- A step on the items: it keeps them, adds one, or loses an answer. -/
inductive Effect (w : Writer) (e : Event) (w' : Writer) : Prop where
  | same (hkept : w'.kept = w.kept) (haccepted : w'.accepted = w.accepted)
  | added (item : Frame) (hkept : w'.kept = w.kept ++ [item])
      (haccepted : w'.accepted = w.accepted ++ [item])
  | lost (before after : List Frame) (data : Bytes) (hdrops : w.Drops e)
      (hkept : w.kept = before ++ .pong data :: after) (hkept' : w'.kept = before ++ after)
      (haccepted : w'.accepted = w.accepted)

/-- What has been written in full, and a part of what has not. -/
def Faithful (w : Writer) : Prop := w.output = w.written.flatMap Frame.bytes ++ w.phase.torn

theorem offer_effect (item : Frame) : Effect w e (w.offer item) := by
  unfold offer
  split
  · refine .added item ?_ rfl
    show w.written ++ w.phase.inHand ++ (w.queue ++ [item]) = _
    rw [← append_assoc]
    rfl
  · exact .same rfl rfl

/-- What a step does to the items. -/
theorem Step.effect (h : Step w e w') : Effect w e w' := by
  cases h with
  | offer item => exact offer_effect item
  | unlink => exact .same rfl rfl
  | recv hphase hqueue | drain hphase hqueue =>
    refine .same ?_ rfl
    simp [kept, hphase, hqueue, Phase.inHand]
  | recvNone hphase | wrote hphase | writeFails _ hphase | drained hphase | flushed hphase
  | flushFails hphase =>
    refine .same ?_ rfl
    simp [kept, hphase, Phase.inHand]
  | @drainAnswer data rest hphase hqueue =>
    refine .lost w.written rest data ⟨rfl, data, by rw [hqueue]; rfl⟩ ?_ ?_ rfl
    · simp [kept, hphase, hqueue, Phase.inHand]
    · simp [kept, Phase.inHand]

theorem Faithful.step (hw : w.Faithful) (h : Step w e w') : w'.Faithful := by
  unfold Faithful at hw ⊢
  cases h with
  | offer item =>
    unfold offer
    split
    · exact hw
    · exact hw
  | unlink => exact hw
  | wrote hphase | writeFails _ hphase | recv hphase | recvNone hphase | drain hphase
  | drainAnswer hphase | drained hphase | flushed hphase | flushFails hphase =>
    simp [hw, hphase, Phase.torn]

/-! ## Runs -/

/-- A run whose steps all satisfy `ok`. -/
def Runs (ok : Writer → Event → Prop) : Writer → Writer → Prop :=
  Relation.ReflTransGen fun w w' => ∃ e, ok w e ∧ Step w e w'

variable {ok : Writer → Event → Prop}

theorem Runs.faithful (h : Runs ok {} w) : w.Faithful := by
  induction h with
  | refl => rfl
  | tail _ hstep ih =>
    obtain ⟨e, -, hstep⟩ := hstep
    exact ih.step hstep

/-- Packets are not mislaid, and nothing is written that was not accepted. -/
theorem Runs.packets (h : Runs ok {} w) :
    w.kept.filter Frame.isPacket = w.accepted.filter Frame.isPacket ∧
      w.kept.Sublist w.accepted := by
  induction h with
  | refl => exact ⟨rfl, List.Sublist.refl _⟩
  | tail _ hstep ih =>
    obtain ⟨e, -, hstep⟩ := hstep
    obtain ⟨hpackets, hsub⟩ := ih
    cases hstep.effect with
    | same hkept haccepted =>
      rw [hkept, haccepted]
      exact ⟨hpackets, hsub⟩
    | added item hkept haccepted =>
      rw [hkept, haccepted, filter_append, filter_append, hpackets]
      exact ⟨rfl, hsub.append (List.Sublist.refl _)⟩
    | lost before after data _ hkept hkept' haccepted =>
      rw [hkept] at hpackets hsub
      rw [hkept', haccepted, ← hpackets]
      refine ⟨?_, (List.Sublist.append_left (sublist_cons_self _ _) before).trans hsub⟩
      rw [filter_append, filter_append, filter_cons_of_neg (by simp [Frame.isPacket])]

/-- The task ends by itself only with an empty queue, and nothing is queued behind it. -/
theorem Runs.queue_of_finished (h : Runs ok {} w) (hfinished : w.phase = .finished) :
    w.queue = [] := by
  induction h with
  | refl => rfl
  | tail _ hstep ih =>
    obtain ⟨e, -, hstep⟩ := hstep
    cases hstep with
    | offer item =>
      unfold offer at hfinished ⊢
      split
      · next hopen =>
        rw [if_pos hopen] at hfinished
        rw [hfinished] at hopen
        simp [Phase.alive] at hopen
      · next hopen =>
        rw [if_neg hopen] at hfinished
        exact ih hfinished
    | unlink => exact ih hfinished
    | recvNone _ hqueue => exact hqueue
    | recv | wrote | writeFails | drain | drainAnswer | drained | flushed | flushFails =>
      cases hfinished

theorem kept_eq_accepted (h : Runs (fun w e => ¬ w.Drops e) {} w) : w.kept = w.accepted := by
  induction h with
  | refl => rfl
  | tail _ hstep ih =>
    obtain ⟨e, hkeeps, hstep⟩ := hstep
    cases hstep.effect with
    | same hkept haccepted | added _ hkept haccepted => rw [hkept, haccepted, ih]
    | lost before after data hdrops => exact absurd hdrops hkeeps

/-- The task only waits for items, for the connection, and for nothing once it has ended. -/
theorem exists_step (halive : w.phase.alive = true)
    (hwork : w.phase = .receiving → w.queue ≠ []) :
    ∃ e w', Step w e w' ∧ e.ofTask = true := by
  cases hphase : w.phase with
  | receiving =>
    obtain ⟨item, rest, hqueue⟩ := exists_cons_of_ne_nil (hwork hphase)
    exact ⟨_, _, .recv hphase hqueue, rfl⟩
  | writing item => exact ⟨_, _, .wrote hphase, rfl⟩
  | draining =>
    cases hqueue : w.queue with
    | nil => exact ⟨_, _, .drained hphase hqueue, rfl⟩
    | cons item rest =>
      cases item with
      | send dest packet => exact ⟨_, _, .drain hphase hqueue, rfl⟩
      | pong data => exact ⟨_, _, .drainAnswer hphase hqueue, rfl⟩
  | flushing => exact ⟨_, _, .flushed hphase, rfl⟩
  | writeFailed | flushFailed | finished => rw [hphase] at halive; cases halive

/-- In every run in which the inner loop comes upon no answer, the items written are the first
of those accepted, each once and in order, and only a failed write leaves a part of the next;
the others are still queued, and when the queue is empty and no write is under way everything
accepted has been written. -/
theorem written_exactly (h : Runs (fun w e => ¬ w.Drops e) {} w) :
    w.output = w.written.flatMap Frame.bytes ++ w.phase.torn ∧
      w.accepted = w.written ++ w.phase.inHand ++ w.queue ∧
      (w.queue = [] → w.phase.inHand = [] → w.output = w.accepted.flatMap Frame.bytes) ∧
      (w.phase.alive = true → (w.phase = .receiving → w.queue ≠ []) →
        ∃ e w', Step w e w' ∧ e.ofTask = true) := by
  have hout : w.output = w.written.flatMap Frame.bytes ++ w.phase.torn := h.faithful
  have hitems := (kept_eq_accepted h).symm
  refine ⟨hout, hitems, fun hqueue hhand => ?_, exists_step⟩
  have htorn : w.phase.torn = [] := by
    cases hphase : w.phase with
    | writeFailed item count dropped => rw [hphase] at hhand; cases hhand
    | _ => rfl
  rw [hout, hitems, kept, hqueue, hhand, htorn]
  simp

/-- One more step of a run. -/
theorem Runs.step {w₀ : Writer} (h : Runs ok w₀ w) (hok : ok w e) (hstep : Step w e w') :
    Runs ok w₀ w' :=
  Relation.ReflTransGen.tail h ⟨e, hok, hstep⟩

theorem not_drops_of_ne (h : e ≠ .tryRecv) : ¬ w.Drops e := fun hdrops => h hdrops.1

theorem not_drops_of_nil (h : w.queue = []) : ¬ w.Drops e := by
  rintro ⟨-, data, hdata⟩
  rw [h] at hdata
  cases hdata

/-- A packet is written and flushed before an answer is queued. -/
theorem written_exactly_pair :
    ∃ w, Runs (fun w e => ¬ w.Drops e) {} w ∧ w.accepted = [.send 0 [], .pong []] ∧
      w.output = w.accepted.flatMap Frame.bytes := by
  have h₀ : Runs (fun w e => ¬ w.Drops e) {} {} := Relation.ReflTransGen.refl
  have h₁ := h₀.step (not_drops_of_ne (by decide)) (.offer (.send 0 []))
  have h₂ := h₁.step (not_drops_of_ne (by decide)) (.recv rfl rfl)
  have h₃ := h₂.step (not_drops_of_ne (by decide)) (.wrote rfl)
  have h₄ := h₃.step (not_drops_of_nil rfl) (.drained rfl rfl)
  have h₅ := h₄.step (not_drops_of_ne (by decide)) (.flushed rfl)
  have h₆ := h₅.step (not_drops_of_ne (by decide)) (.offer (.pong []))
  have h₇ := h₆.step (not_drops_of_ne (by decide)) (.recv rfl rfl)
  have h₈ := h₇.step (not_drops_of_ne (by decide)) (.wrote rfl)
  exact ⟨_, h₈, rfl, (written_exactly h₈).2.2.1 rfl rfl⟩

/-- **Packets reach the connection.** In every run, also one that fails, nothing is written that
was not accepted, and the packets written are the first of those accepted, in order: the others are
being written or queued, or were dropped by the failure. When the task has ended because no link is
left, every packet that was accepted has been written. -/
theorem packets_written (h : Runs ok {} w) :
    w.written.Sublist w.accepted ∧
      (w.written ++ w.phase.inHand ++ w.queue).filter Frame.isPacket =
        w.accepted.filter Frame.isPacket ∧
      (w.phase = .finished →
        w.written.filter Frame.isPacket = w.accepted.filter Frame.isPacket) := by
  obtain ⟨hpackets, hsub⟩ := h.packets
  refine ⟨?_, hpackets, fun hfinished => ?_⟩
  · rw [kept, append_assoc] at hsub
    exact (sublist_append_left _ _).trans hsub
  · have hhand : w.phase.inHand = [] := by
      rw [hfinished]
      rfl
    rw [← hpackets, kept, h.queue_of_finished hfinished, hhand, append_nil, append_nil]

/-- Two packets with an answer between them, and then the last link goes. -/
theorem packets_written_two : ∃ w, Runs (fun _ _ => True) {} w ∧ w.phase = .finished ∧
    w.accepted = [.send 0 [], .pong [], .send 1 []] ∧
    w.written.filter Frame.isPacket = [.send 0 [], .send 1 []] := by
  have h₀ : Runs (fun _ _ => True) {} {} := Relation.ReflTransGen.refl
  have h₁ := h₀.step trivial (.offer (.send 0 []))
  have h₂ := h₁.step trivial (.recv rfl rfl)
  have h₃ := h₂.step trivial (.offer (.pong []))
  have h₄ := h₃.step trivial (.offer (.send 1 []))
  have h₅ := h₄.step trivial (.wrote rfl)
  have h₆ := h₅.step trivial (.drainAnswer rfl rfl)
  have h₇ := h₆.step trivial (.flushed rfl)
  have h₈ := h₇.step trivial .unlink
  have h₉ := h₈.step trivial (.recv rfl rfl)
  have h₁₀ := h₉.step trivial (.wrote rfl)
  have h₁₁ := h₁₀.step trivial (.drained rfl rfl)
  have h₁₂ := h₁₁.step trivial (.flushed rfl)
  have h₁₃ := h₁₂.step trivial (.recvNone rfl rfl rfl)
  exact ⟨_, h₁₃, rfl, rfl, (packets_written h₁₃).2.2 rfl⟩

/-- An answer that is queued while a packet is being written is lost. -/
theorem answer_lost :
    ∃ w, Runs (fun _ _ => True) {} w ∧ w.phase = .receiving ∧ w.queue = [] ∧
      w.accepted = [.send 0 [], .pong []] ∧ w.written = [.send 0 []] ∧
      w.output = Frame.bytes (.send 0 []) := by
  have h₀ : Runs (fun _ _ => True) {} {} := Relation.ReflTransGen.refl
  have h₁ := h₀.step trivial (.offer (.send 0 []))
  have h₂ := h₁.step trivial (.recv rfl rfl)
  have h₃ := h₂.step trivial (.offer (.pong []))
  have h₄ := h₃.step trivial (.wrote rfl)
  have h₅ := h₄.step trivial (.drainAnswer rfl rfl)
  have h₆ := h₅.step trivial (.flushed rfl)
  exact ⟨_, h₆, rfl, rfl, rfl, rfl, rfl⟩

end Writer

end Clyntis.Tailscale.Derp
