import Clyntis.Protocol.WsStream

/-!
# What a framed WebSocket sends

Data and the replies to control frames share one buffer, `outgoing`. A reply is appended to what is
in it; data replaces it.

- `OutFrame`: frames to the server;
- `Sends`: the bytes written and those in the buffer are whole frames, with the accepted bytes in
  the data frames and a reply for every ping and close taken from the server;
- `flushOutgoing_sends`, `readLoop_sends`, `pollWrite_sends`: what the calls do to it;
- `ws_output`: it holds whatever is called, whatever comes from the server and whatever the inner
  stream takes.
-/

namespace Clyntis.Protocol.WebSocket

open Lib

/-! ## Where the head ends -/

section

variable {bytes : Bytes}

theorem headEnd_le {stop : Nat} (h : headEnd bytes = some stop) :
    4 ≤ stop ∧ stop ≤ bytes.length := by
  induction bytes generalizing stop with
  | nil => cases h
  | cons b bs ih =>
    rw [headEnd] at h
    split at h
    · next hfront =>
      cases h
      exact ⟨le_rfl, (List.isPrefixOf_iff_prefix.mp hfront).length_le⟩
    · obtain ⟨k, hk, rfl⟩ := Option.map_eq_some_iff.mp h
      obtain ⟨hfour, hle⟩ := ih hk
      rw [List.length_cons]
      omega

/-- The end of a head is found in its bytes alone. -/
theorem headEnd_append_iff {stop : Nat} (hle : stop ≤ bytes.length)
    (more : Bytes) : headEnd (bytes ++ more) = some stop ↔ headEnd bytes = some stop := by
  induction bytes generalizing stop with
  | nil =>
    refine ⟨fun h => ?_, nofun⟩
    have := (headEnd_le h).1
    exact absurd hle (by rw [List.length_nil]; omega)
  | cons b bs ih =>
    rw [List.cons_append, headEnd, headEnd]
    by_cases hlong : 4 ≤ (b :: bs).length
    · -- the first four bytes are the same
      have hfront : [13, 10, 13, 10].isPrefixOf (b :: (bs ++ more)) =
          [13, 10, 13, 10].isPrefixOf (b :: bs) := by
        rw [Bool.eq_iff_iff, List.isPrefixOf_iff_prefix, List.isPrefixOf_iff_prefix]
        refine ⟨fun h => ?_, fun h => h.trans (List.prefix_append (b :: bs) more)⟩
        exact List.prefix_of_prefix_length_le h (List.prefix_append (b :: bs) more) hlong
      rw [hfront]
      split
      · rfl
      · cases stop with
        | zero => simp
        | succ stop =>
          simp only [List.length_cons, Nat.add_le_add_iff_right] at hle
          simpa using ih hle
    · constructor
      · intro h
        rw [← headEnd] at h
        have := (headEnd_le h).1
        omega
      · intro h
        rw [← headEnd] at h
        have := (headEnd_le h).1
        omega

end

/-! ## Frames -/

/-- A frame to the server. -/
structure OutFrame where
  mask : Vector UInt8 4
  payload : Bytes
  opcode : UInt8
  deriving DecidableEq, Repr

def OutFrame.bytes (f : OutFrame) : Bytes := frame f.mask.toList f.payload f.opcode

variable (opcode : UInt8)

/-- The payloads of the frames of a kind. -/
def sentAs (out : List OutFrame) : List Bytes :=
  (out.filter fun f => f.opcode == opcode).map OutFrame.payload

def takenAs (taken : List InFrame) : List Bytes :=
  (taken.filter fun f => f.opcode == opcode).map InFrame.data

@[simp] theorem sentAs_append (out out' : List OutFrame) :
    sentAs opcode (out ++ out') = sentAs opcode out ++ sentAs opcode out' := by
  simp [sentAs]

@[simp] theorem takenAs_append (taken taken' : List InFrame) :
    takenAs opcode (taken ++ taken') = takenAs opcode taken ++ takenAs opcode taken' := by
  simp [takenAs]

/-! ## The invariant -/

/-- What a framed socket sends. `accepted` are the bytes that writes reported, `out` the frames
written or in the buffer, `taken` the frames that the parser took. -/
structure Sends (s : Socket) (accepted : Bytes) (out : List OutFrame) (taken : List InFrame) :
    Prop where
  framed : s.raw = false
  position : s.core.outgoingAt ≤ s.core.outgoing.length
  stream : Sent.all s.inner.log ++ s.core.outgoing.drop s.core.outgoingAt =
    out.flatMap OutFrame.bytes
  kinds : ∀ f ∈ out, f.opcode = 2 ∨ f.opcode = 8 ∨ f.opcode = 10
  data : (sentAs 2 out).flatten = accepted
  pongs : sentAs 10 out = takenAs 9 taken
  closes : sentAs 8 out = takenAs 8 taken
  closed : s.core.closed = true ↔ ∃ f ∈ taken, f.opcode = 8

/-- Where the socket is in the bytes that the server sends: in the response head, or behind it and
the frames `taken`. -/
structure Takes (input : Bytes) (s : Socket) (taken : List InFrame) : Prop where
  before : s.upgraded = false → taken = [] ∧ input = s.core.incoming ++ s.inner.input
  after : s.upgraded = true → ∃ stop, headEnd input = some stop ∧
    input.drop stop = taken.flatMap InFrame.bytes ++ (s.core.incoming ++ s.inner.input)

/-- Both, for some frames. -/
def Sending (input accepted : Bytes) (s : Socket) : Prop :=
  ∃ out taken, Sends s accepted out taken ∧ Takes input s taken

variable {s : Socket} {input before : Bytes} {n frames : Nat}

section Steps

variable {input accepted : Bytes} {out : List OutFrame} {taken : List InFrame} {s' : Socket}
  (h : Sends s accepted out taken) {core : WsStream}
include h

/-- What the sending side depends on. -/
theorem Sends.of_same (hraw : s'.raw = s.raw)
    (hlog : s'.inner.log = s.inner.log) (hout : s'.core.outgoing = s.core.outgoing)
    (hat : s'.core.outgoingAt = s.core.outgoingAt) (hclosed : s'.core.closed = s.core.closed) :
    Sends s' accepted out taken := by
  refine ⟨hraw.trans h.framed, ?_, ?_, h.kinds, h.data, h.pongs, h.closes, ?_⟩
  · rw [hat, hout]
    exact h.position
  · rw [hlog, hat, hout]
    exact h.stream
  · rw [hclosed]
    exact h.closed

/-- Something was written of what is in the buffer, or is logged that is no bytes. -/
theorem Sends.advance {inner : Wire} {more : List Sent}
    {stop : Nat} (hlog : inner.log = s.inner.log ++ more) (hstop : stop ≤ s.core.outgoing.length)
    (hsplit : s.core.outgoing.drop s.core.outgoingAt =
      Sent.all more ++ s.core.outgoing.drop stop) :
    Sends { s with inner := inner, core := { s.core with outgoingAt := stop } } accepted out
      taken := by
  refine ⟨h.framed, hstop, ?_, h.kinds, h.data, h.pongs, h.closes, h.closed⟩
  rw [hlog, Sent.all_append, List.append_assoc, ← hsplit]
  exact h.stream

/-- The buffer is written out. -/
theorem Sends.emptied (hdone : s.core.outgoingAt = s.core.outgoing.length) :
    Sends { s with core := { s.core with outgoing := [], outgoingAt := 0 } } accepted out
      taken := by
  refine ⟨h.framed, le_rfl, ?_, h.kinds, h.data, h.pongs, h.closes, h.closed⟩
  have hstream := h.stream
  rw [hdone, List.drop_length] at hstream
  exact hstream

/-- A data frame in the empty buffer. -/
theorem Sends.framedData (hempty : s.core.outgoing = []) (mask : Vector UInt8 4) (bytes : Bytes) :
    Sends { s with core := { s.core with outgoing := frame mask.toList bytes 2 } }
      (accepted ++ bytes) (out ++ [⟨mask, bytes, 2⟩]) taken := by
  have hat : s.core.outgoingAt = 0 := by
    have hposition := h.position
    rw [hempty] at hposition
    exact Nat.le_zero.mp hposition
  have hstream := h.stream
  rw [hempty, List.drop_nil, List.append_nil] at hstream
  refine ⟨h.framed, by rw [hat]; exact Nat.zero_le _, ?_, fun f hf => ?_, ?_, ?_, ?_, h.closed⟩
  · rw [hat, hstream, List.flatMap_append, List.flatMap_singleton]
    rfl
  · rcases List.mem_append.mp hf with hf | hf
    · exact h.kinds f hf
    · rw [List.mem_singleton.mp hf]
      exact .inl rfl
  · rw [sentAs_append, List.flatten_append, h.data]
    simp [sentAs]
  · rw [sentAs_append, h.pongs]
    simp [sentAs]
  · rw [sentAs_append, h.closes]
    simp [sentAs]

/-- The parser took a frame; `replies` answer it. -/
theorem Sends.took (replies : List OutFrame) {f : InFrame}
    (hat : core.outgoingAt = s.core.outgoingAt)
    (houtgoing : core.outgoing = s.core.outgoing ++ replies.flatMap OutFrame.bytes)
    (hclosed : core.closed = true ↔ s.core.closed = true ∨ f.opcode = 8)
    (hkinds : ∀ g ∈ replies, g.opcode = 8 ∨ g.opcode = 10)
    (hpongs : sentAs 10 replies = takenAs 9 [f]) (hcloses : sentAs 8 replies = takenAs 8 [f]) :
    Sends { s with core := core } accepted (out ++ replies) (taken ++ [f]) := by
  refine ⟨h.framed, ?_, ?_, fun g hg => ?_, ?_, ?_, ?_, ?_⟩
  · rw [hat, houtgoing, List.length_append]
    exact Nat.le_add_right_of_le h.position
  · rw [hat, houtgoing, List.drop_append_of_le_length h.position, ← List.append_assoc, h.stream,
      List.flatMap_append]
  · rcases List.mem_append.mp hg with hg | hg
    · exact h.kinds g hg
    · exact .inr (hkinds g hg)
  · have hnone : sentAs 2 replies = [] := by
      unfold sentAs
      rw [List.map_eq_nil_iff, List.filter_eq_nil_iff]
      intro g hg
      rcases hkinds g hg with h | h
      · simp [h]
      · simp [h]
    rw [sentAs_append, hnone, List.append_nil]
    exact h.data
  · rw [sentAs_append, takenAs_append, h.pongs, hpongs]
  · rw [sentAs_append, takenAs_append, h.closes, hcloses]
  · rw [hclosed, h.closed]
    simp

/-- What dispatching a frame does to the sending side. -/
theorem Sends.dispatched (mask : Vector UInt8 4) (f : InFrame) (rest : Bytes) :
    ∃ replies, Sends { s with core := (dispatch mask.toList f.opcode f.data
      { s.core with incoming := rest }).2 } accepted (out ++ replies) (taken ++ [f]) := by
  -- without a reply
  have hquiet : f.opcode ≠ 8 → f.opcode ≠ 9 → ∀ payload payloadAt,
      Sends { s with core := { s.core with
        incoming := rest, payload := payload, payloadAt := payloadAt } } accepted (out ++ [])
        (taken ++ [f]) := by
    intro h8 h9 payload payloadAt
    refine h.took [] rfl (by simp) ?_ nofun ?_ ?_
    · simp [h8]
    · simp [sentAs, takenAs, h9]
    · simp [sentAs, takenAs, h8]
  unfold dispatch
  by_cases h02 : f.opcode = 0 ∨ f.opcode = 2
  · rw [if_pos h02]
    refine ⟨[], hquiet ?_ ?_ f.data 0⟩
    · rintro h8
      rw [h8] at h02
      exact absurd h02 (by decide)
    · rintro h9
      rw [h9] at h02
      exact absurd h02 (by decide)
  · rw [if_neg h02]
    by_cases h8 : f.opcode = 8
    · rw [if_pos h8]
      refine ⟨[⟨mask, f.data, 8⟩], h.took _ rfl (by simp [OutFrame.bytes]) (by simp [h8])
        (by simp) ?_ ?_⟩
      · simp [sentAs, takenAs, h8]
      · simp [sentAs, takenAs, h8]
    · rw [if_neg h8]
      by_cases h9 : f.opcode = 9
      · rw [if_pos h9]
        refine ⟨[⟨mask, f.data, 10⟩], h.took _ rfl (by simp [OutFrame.bytes]) (by simp [h9])
          (by simp) ?_ ?_⟩
        · simp [sentAs, takenAs, h9]
        · simp [sentAs, takenAs, h9]
      · rw [if_neg h9]
        refine ⟨[], ?_⟩
        have hsame := hquiet h8 h9 s.core.payload s.core.payloadAt
        split
        · exact hsame
        · exact hsame

omit h

/-- A call of the parser, with its reply. -/
theorem Sending.parsed (h : Sending input accepted s) (hup : s.upgraded = true)
    {mask : Vector UInt8 4} {r : Except IoError Bool}
    (hparse : parseFrame mask.toList s.core = .ok (r, core)) :
    Sending input accepted { s with core := core } := by
  rcases parseFrame_cases mask.toList s.core with ⟨hmore, -⟩ | ⟨f, rest, hbuf, -, hframe⟩ |
    ⟨header, rest, -, -, hpanic⟩
  · rw [hmore] at hparse
    obtain ⟨-, rfl⟩ := Prod.mk.inj (Except.ok.inj hparse)
    exact h
  · rw [hframe] at hparse
    have hdispatch := Except.ok.inj hparse
    obtain ⟨out, taken, hsends, htakes⟩ := h
    obtain ⟨replies, hsends'⟩ := hsends.dispatched mask f rest
    obtain ⟨hincoming, -⟩ :=
      dispatch_frame mask.toList f.opcode f.data { s.core with incoming := rest }
    rw [hdispatch] at hsends' hincoming
    refine ⟨out ++ replies, taken ++ [f], hsends', ⟨fun hno => ?_, fun _ => ?_⟩⟩
    · rw [hup] at hno
      cases hno
    · obtain ⟨stop, hend, hinput⟩ := htakes.after hup
      refine ⟨stop, hend, ?_⟩
      rw [hinput, hincoming, hbuf]
      simp
  · rw [hpanic] at hparse
    cases hparse

/-- A read of the inner stream, with its bytes in the buffer. -/
theorem Sending.read (h : Sending input accepted s) (size : Nat) :
    Sending input accepted (Socket.receive (Wire.pollRead size s.inner).1.bytes
      { s with inner := (Wire.pollRead size s.inner).2 }) := by
  obtain ⟨out, taken, hsends, htakes⟩ := h
  have hinput := Wire.pollRead_input size s.inner
  refine ⟨out, taken, hsends.of_same rfl (Wire.pollRead_log size s.inner) rfl rfl rfl,
    ⟨fun hno => ?_, fun hup => ?_⟩⟩
  · obtain ⟨hnone, hall⟩ := htakes.before hno
    refine ⟨hnone, ?_⟩
    rw [hall, hinput]
    simp [Socket.receive]
  · obtain ⟨stop, hend, hall⟩ := htakes.after hup
    refine ⟨stop, hend, ?_⟩
    rw [hall, hinput]
    simp [Socket.receive]

/-- Flushing. If it is done, the buffer is empty. -/
theorem flushOutgoing_sends (h : Sends s accepted out taken) :
    Sends s.flushOutgoing.2 accepted out taken ∧
      (s.flushOutgoing.1 = .ready () → s.flushOutgoing.2.core.outgoing = []) := by
  unfold Socket.flushOutgoing
  obtain ⟨⟨pieces, hsent, hsplit⟩, -, hstop, hfinished, -⟩ :=
    drain_spec Wire.writable h.position s.inner
  generalize drain Wire.pollWrite s.core.outgoing s.core.outgoingAt s.inner = call
    at hsent hsplit hstop hfinished
  obtain ⟨r, stop, inner⟩ := call
  have hdrained := h.advance hsent hstop (by rw [Sent.all_map_bytes]; exact hsplit)
  rcases r with _ | _ | e
  · exact ⟨hdrained, nofun⟩
  · rw [Poll.andThen_ready]
    have hempty := hdrained.emptied (hfinished rfl)
    have hflush := Wire.flush_step inner
    generalize Wire.pollFlush inner = call at hflush
    obtain ⟨r, inner'⟩ := call
    refine ⟨?_, fun _ => rfl⟩
    cases hflush with
    | pending same | failed _ same => exact hempty.of_same rfl same rfl rfl rfl
    | ready more => exact hempty.advance more le_rfl rfl
  · exact ⟨hdrained, nofun⟩

theorem Takes.of_forReader (h : Takes input s taken)
    (heq : s'.forReader = s.forReader) : Takes input s' taken := by
  have hup := congrArg Socket.upgraded heq
  have hincoming := congrArg (fun s : Socket => s.core.incoming) heq
  have hinput := congrArg (fun s : Socket => s.inner.input) heq
  change s'.core.incoming = s.core.incoming at hincoming
  change s'.inner.input = s.inner.input at hinput
  refine ⟨fun hno => ?_, fun hyes => ?_⟩
  · rw [hincoming, hinput]
    exact h.before (hup.symm.trans hno)
  · rw [hincoming, hinput]
    exact h.after (hup.symm.trans hyes)

theorem Sending.flushed (h : Sending input accepted s) :
    Sending input accepted s.flushOutgoing.2 := by
  obtain ⟨out, taken, hsends, htakes⟩ := h
  exact ⟨out, taken, (flushOutgoing_sends hsends).1,
    htakes.of_forReader s.flushOutgoing_forReader⟩

end Steps

/-! ## Reading -/

section

variable {input accepted : Bytes} {next : Nat → Socket → Poll Bytes × Socket}
  {masks : Masks} {s' : Socket} (h : Sending input accepted s)
include h

theorem Sending.upgraded (hno : s.upgraded = false) {done : Bool}
    (hparse : s.parseUpgrade = .ok (done, s')) :
    Sending input accepted s' ∧ s'.upgraded = done := by
  unfold Socket.parseUpgrade at hparse
  split at hparse
  · cases hparse
    exact ⟨h, hno⟩
  · next stop hend =>
    split at hparse
    · cases hparse
    · cases hparse
      obtain ⟨out, taken, hsends, htakes⟩ := h
      obtain ⟨hnone, hinput⟩ := htakes.before hno
      refine ⟨⟨out, taken, hsends.of_same rfl rfl rfl rfl rfl, ⟨nofun, fun _ => ?_⟩⟩, rfl⟩
      have hle := (headEnd_le hend).2
      rw [hinput]
      refine ⟨stop, (headEnd_append_iff hle _).mpr hend, ?_⟩
      rw [List.drop_append_of_le_length hle, hnone, List.flatMap_nil, List.nil_append]

theorem readMore_sending {α : Type} {size : Nat} {atEnd : Poll α} {next : Socket → Poll α × Socket}
    (hnext : ∀ s', Sending input accepted s' → s'.upgraded = s.upgraded →
      Sending input accepted (next s').2) :
    Sending input accepted (s.readMore size atEnd next).2 := by
  have hread := h.read size
  unfold Socket.readMore
  generalize Wire.pollRead size s.inner = call at hread
  rcases call with ⟨_ | bytes | e, inner⟩
  · simpa [Poll.bytes] using hread
  · rw [Poll.andThen_ready]
    by_cases hempty : bytes = []
    · simpa [Poll.bytes, hempty] using hread
    · rw [if_neg hempty]
      exact hnext _ hread rfl
  · simpa [Poll.bytes] using hread

theorem readFrame_sending (hup : s.upgraded = true) {frames : Nat}
    (hnext : ∀ frames s, Sending input accepted s → Sending input accepted (next frames s).2) :
    Sending input accepted (s.readFrame masks next frames).2 := by
  unfold Socket.readFrame
  split
  · obtain ⟨out, taken, hsends, htakes⟩ := h
    exact ⟨out, taken, hsends.of_same rfl rfl rfl rfl rfl, ⟨htakes.before, htakes.after⟩⟩
  · next hparse => exact h.parsed hup hparse
  · next hparse =>
    split
    · exact h.parsed hup hparse
    · exact hnext _ _ (h.parsed hup hparse)
  · next hparse => exact readMore_sending (h.parsed hup hparse) fun s hs _ => hnext frames s hs

theorem readUpgraded_sending (hup : s.upgraded = true) {flushed : Poll Unit}
    (hnext : ∀ frames s, Sending input accepted s → Sending input accepted (next frames s).2) :
    Sending input accepted (s.readUpgraded masks n next frames flushed).2 := by
  have hframed : s.raw = false := by
    obtain ⟨out, taken, hsends, -⟩ := h
    exact hsends.framed
  unfold Socket.readUpgraded
  rw [if_neg (by simp [hframed])]
  split
  · obtain ⟨out, taken, hsends, htakes⟩ := h
    exact ⟨out, taken, hsends.of_same rfl rfl rfl rfl rfl, ⟨htakes.before, htakes.after⟩⟩
  · split
    · exact Poll.andThen_holds h fun _ s₁ h₁ => h₁
    · exact readFrame_sending h hup hnext

theorem turn_sending
    (hnext : ∀ frames s, Sending input accepted s → Sending input accepted (next frames s).2) :
    Sending input accepted (s.turn masks n next frames).2 := by
  have hflushed := h.flushed
  unfold Socket.turn
  split
  · next hcall =>
    rw [hcall] at hflushed
    exact hflushed
  · next s₁ hne hcall =>
    rw [hcall] at hflushed
    by_cases hup : s₁.upgraded = true
    · rw [if_pos hup]
      exact readUpgraded_sending hflushed hup hnext
    · rw [if_neg hup]
      have hno : s₁.upgraded = false := Bool.eq_false_iff.mpr hup
      split
      · exact hflushed
      · next hparse =>
        obtain ⟨hsending, hyes⟩ := hflushed.upgraded hno hparse
        exact readUpgraded_sending hsending hyes hnext
      · next hparse =>
        obtain ⟨hsending, -⟩ := hflushed.upgraded hno hparse
        split
        · exact hsending
        · exact readMore_sending hsending fun s hs _ => hnext frames s hs

omit h

theorem readLoop_sending (masks : Masks) (n turns frames : Nat) (h : Sending input accepted s) :
    Sending input accepted (Socket.readLoop masks n turns frames s).2 := by
  induction turns generalizing frames s with
  | zero => exact h
  | succ turns ih => exact turn_sending h fun frames s h => ih frames h

theorem upgradeLoop_sending (turns : Nat) (h : Sending input accepted s) :
    Sending input accepted (Socket.upgradeLoop turns s).2 := by
  induction turns generalizing s with
  | zero => exact h
  | succ turns ih =>
    unfold Socket.upgradeLoop
    by_cases hup : s.upgraded = true
    · rw [if_pos hup]
      exact h
    · rw [if_neg hup]
      split
      · exact h
      · refine readMore_sending h fun s' hs' hsame => ?_
        rw [Bool.not_eq_true, ← hsame] at hup
        split
        · exact hs'
        · next hparse => exact ih (hs'.upgraded hup hparse).1

end

/-! ## The calls -/

section

variable {input accepted : Bytes} (h : Sending input accepted s)
include h

theorem pollRead_sending (masks : Masks) (n : Nat) :
    Sending input accepted (s.pollRead masks n).2 := by
  unfold Socket.pollRead
  split
  · exact h
  split
  · exact h
  · exact readLoop_sending masks n _ _ h

theorem readUpgrade_sending : Sending input accepted s.readUpgrade.2 := by
  unfold Socket.readUpgrade
  split
  · exact h
  · exact upgradeLoop_sending _ h

theorem pollFlush_sending : Sending input accepted s.pollFlush.2 := by
  unfold Socket.pollFlush
  split
  · exact h
  · exact h.flushed

theorem pollShutdown_sending : Sending input accepted s.pollShutdown.2 := by
  unfold Socket.pollShutdown
  split
  · exact h
  · refine Poll.andThen_holds h.flushed fun _ s₁ h₁ => ?_
    obtain ⟨out, taken, hsends, htakes⟩ := h₁
    have htakes' : Takes input { s₁ with inner := (Wire.pollShutdown s₁.inner).2 } taken :=
      htakes.of_forReader (Socket.forReader_send _ _ _ s₁)
    have hstep := Wire.shutdown_step s₁.inner
    generalize Wire.pollShutdown s₁.inner = call at hstep htakes'
    obtain ⟨r, inner⟩ := call
    refine ⟨out, taken, ?_, htakes'⟩
    cases hstep with
    | pending same | failed _ same => exact hsends.of_same rfl same rfl rfl rfl
    | ready more => exact hsends.advance more hsends.position rfl

omit h

/-- A flush that is done leaves nothing in the buffer. -/
theorem pollFlush_output {out : List OutFrame} {taken : List InFrame}
    (h : Sends s accepted out taken) (hdone : s.pollFlush.1 = .ready ()) :
    s.pollFlush.2.inner.output = out.flatMap OutFrame.bytes := by
  unfold Socket.pollFlush at hdone ⊢
  split at hdone
  · cases hdone
  · next hpanicked =>
    rw [if_neg hpanicked]
    obtain ⟨hsends, hempty⟩ := flushOutgoing_sends h
    have hstream := hsends.stream
    rw [hempty hdone, List.drop_nil, List.append_nil] at hstream
    exact hstream

/-- The bytes that a write took. -/
def took (bytes : Bytes) : Poll Nat → Bytes
  | .ready n => bytes.take n
  | _ => []

/-- Writing: the accepted bytes are one more data frame. -/
theorem pollWrite_sending (h : Sending input accepted s) (bytes : Bytes) (mask : Vector UInt8 4) :
    Sending input (accepted ++ took bytes (s.pollWrite bytes mask).1)
      (s.pollWrite bytes mask).2 := by
  have hnothing : ∀ s, Sending input accepted s → Sending input (accepted ++ []) s := fun s h => by
    rwa [List.append_nil]
  unfold Socket.pollWrite
  split
  · exact hnothing _ h
  · have hflushed := h.flushed
    obtain ⟨out, taken, hsends, htakes⟩ := h
    obtain ⟨hsends', hempty⟩ := flushOutgoing_sends hsends
    replace htakes := htakes.of_forReader s.flushOutgoing_forReader
    generalize s.flushOutgoing = call at hflushed hsends' hempty htakes
    rcases call with ⟨_ | _ | e, s₁⟩
    · exact hnothing _ hflushed
    · rw [Poll.andThen_ready]
      split
      · exact hnothing _ hflushed
      split
      · next hbytes =>
        exact hnothing _ hflushed
      have hframed : s₁.raw = false := hsends'.framed
      rw [if_neg (by simp [hframed])]
      have htook : took bytes (.ready (bytes.take (16 * 1024)).length) =
          bytes.take (16 * 1024) := by
        rw [took, List.length_take, ← List.take_eq_take_min]
      rw [htook]
      exact ⟨_, taken, hsends'.framedData (hempty rfl) mask _, ⟨htakes.before, htakes.after⟩⟩
    · exact hnothing _ hflushed

/-- A closed socket takes no data. -/
theorem pollWrite_of_closed (h : s.core.closed = true) (bytes : Bytes)
    (mask : Vector UInt8 4) (n : Nat) : (s.pollWrite bytes mask).1 ≠ .ready n := by
  have hclosed : s.flushOutgoing.2.core.closed = true :=
    (congrArg (fun s : Socket => s.core.closed) s.flushOutgoing_forReader).trans h
  unfold Socket.pollWrite
  split
  · exact nofun
  · generalize s.flushOutgoing = call at hclosed
    rcases call with ⟨_ | _ | e, s₁⟩
    · exact nofun
    · rw [Poll.andThen_ready, if_pos hclosed]
      exact nofun
    · exact nofun

end

/-! ## Runs -/

/-- The bytes that a call accepted. -/
def accepted : Op → Result → Bytes
  | .write bytes _, .write r => took bytes r
  | _, _ => []

/-- Some calls: the bytes they accepted, and the socket then. -/
def run : Socket → List Op → Bytes × Socket
  | s, [] => ([], s)
  | s, op :: ops =>
    let out := step s op
    (accepted op out.1 ++ (run out.2 ops).1, (run out.2 ops).2)

theorem step_sending {s : Socket} (h : Sending input before s)
    (op : Op) : Sending input (before ++ accepted op (step s op).1) (step s op).2 := by
  cases op with
  | read masks n => simpa [accepted, step] using pollRead_sending h masks n
  | write bytes mask => exact pollWrite_sending h bytes mask
  | flush => simpa [accepted, step] using pollFlush_sending h
  | shutdown => simpa [accepted, step] using pollShutdown_sending h
  | upgrade => simpa [accepted, step] using readUpgrade_sending h

theorem run_sending {s : Socket} (h : Sending input before s)
    (ops : List Op) : Sending input (before ++ (run s ops).1) (run s ops).2 := by
  induction ops generalizing s before with
  | nil => simpa [run] using h
  | cons op ops ih => simpa [run] using ih (step_sending h op)

/-- At the beginning nothing was sent or taken. -/
theorem sending_new (input : Bytes) (reads : List (Option Nat)) (writes : List Grant)
    (expected : Option Text) :
    Sending input [] (.new ⟨input, reads, writes, []⟩ false expected) := by
  refine ⟨[], [], ⟨rfl, le_rfl, rfl, nofun, rfl, rfl, rfl, ?_⟩, ⟨fun _ => ⟨rfl, rfl⟩, nofun⟩⟩
  simp [Socket.new, start]

/-- **What a framed WebSocket sends.** Take any bytes from the server, found in any pieces, any
calls with any masks, and an inner stream that takes any part of a write, lets wait and fails as it
likes. The bytes written are the beginning of whole masked frames. Their data frames carry the bytes
that writes reported as accepted, in order; the pongs carry the payloads of the pings taken from
the server, one for each, and the closes those of the closes. The frames taken are those that follow
the response head in what the server sent. A flush that is done has written all of it. Once a close
has been taken, no write is accepted. -/
theorem ws_output (input : Bytes) (reads : List (Option Nat)) (writes : List Grant)
    (expected : Option Text) (ops : List Op) :
    let out := run (.new ⟨input, reads, writes, []⟩ false expected) ops
    ∃ (sent : List OutFrame) (taken : List InFrame),
      out.2.inner.output <+: sent.flatMap OutFrame.bytes ∧
      out.2.inner.output ++ out.2.core.outgoing.drop out.2.core.outgoingAt =
        sent.flatMap OutFrame.bytes ∧
      (∀ f ∈ sent, f.opcode = 2 ∨ f.opcode = 8 ∨ f.opcode = 10) ∧
      (sentAs 2 sent).flatten = out.1 ∧ sentAs 10 sent = takenAs 9 taken ∧
      sentAs 8 sent = takenAs 8 taken ∧
      (out.2.upgraded = false → taken = []) ∧
      (out.2.upgraded = true → ∃ stop, headEnd input = some stop ∧
        input.drop stop =
          taken.flatMap InFrame.bytes ++ (out.2.core.incoming ++ out.2.inner.input)) ∧
      (out.2.pollFlush.1 = .ready () →
        out.2.pollFlush.2.inner.output = sent.flatMap OutFrame.bytes) ∧
      ((∃ f ∈ taken, f.opcode = 8) →
        ∀ bytes mask n, (out.2.pollWrite bytes mask).1 ≠ .ready n) := by
  obtain ⟨sent, taken, hsends, htakes⟩ := run_sending (sending_new input reads writes expected) ops
  refine ⟨sent, taken, ⟨_, hsends.stream⟩, hsends.stream, hsends.kinds, hsends.data, hsends.pongs,
    hsends.closes, fun hno => (htakes.before hno).1, htakes.after, pollFlush_output hsends,
    fun hclose bytes mask n => ?_⟩
  exact pollWrite_of_closed (hsends.closed.mpr hclose) bytes mask n

end Clyntis.Protocol.WebSocket
