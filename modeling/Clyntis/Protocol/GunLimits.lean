import Clyntis.Protocol.Gun

/-!
# What a server can do to the reads of a Gun stream (`grpc.rs`, `GrpcStream::poll_read`)

- `depth`, `taken`: `poll_read` calls itself for every message, so that the depth of the calls
  grows with the empty messages in a row (`pollReadDepth_le_iff`, `pollReadDepth_unbounded`);
- `truncation_reported`: a body that is cut off inside a message; `truncation_unreported`: one that
  ends there without an error.
-/

namespace Clyntis.Protocol.Gun

open Lib GrpcStream List

variable {s : GrpcStream} {turns d : Nat}

/-! ## The depth of the calls -/

/-- How many calls of `poll_read` are active at most, the first one included. The turns are those of
`fill`; after a message the function calls itself. -/
def depth : (turns : Nat) → GrpcStream → Nat
  | 0, _ => 1
  | turns + 1, s =>
    if s.payloadAt < s.payload.length then 1
    else
      match s.parse with
      | .error _ => 1
      | .ok (true, s) => depth turns s + 1
      | .ok (false, s) =>
        if s.closed then 1
        else
          match s.awaitResponse with
          | (.ready _, s) =>
            match s.pollData with
            | (.ready _, s) => depth turns s
            | _ => 1
          | _ => 1

/-- The same for a read. -/
def pollReadDepth (s : GrpcStream) : Nat := depth (s.incoming.length + bodyBytes s.body + 3) s

/-- How many messages one read takes from these bytes: the empty ones in front, and one more. -/
def taken (bytes : Bytes) : Nat :=
  match _h : takeMessage bytes with
  | .ok (some (payload, rest)) => (if payload = [] then taken rest else 0) + 1
  | _ => 0
  termination_by bytes.length
  decreasing_by
    have := takeMessage_shorter _h
    omega

variable {bytes : Bytes}

theorem taken_none (h : takeMessage bytes = .ok none) : taken bytes = 0 := by
  rw [taken]
  split
  · next h' => cases h.symm.trans h'
  · rfl

theorem taken_error {e : String} (h : takeMessage bytes = .error e) : taken bytes = 0 := by
  rw [taken]
  split
  · next h' => cases h.symm.trans h'
  · rfl

theorem taken_some {payload rest : Bytes} (h : takeMessage bytes = .ok (some (payload, rest))) :
    taken bytes = (if payload = [] then taken rest else 0) + 1 := by
  rw [taken]
  split
  · next h' =>
    cases h.symm.trans h'
    rfl
  · next hnot => exact absurd h (hnot payload rest)

/-- The bytes of the body up to where `poll_data` is pending or fails. -/
def readyBytes : List Body → Bytes
  | .data bytes :: body => bytes ++ readyBytes body
  | _ => []

/-- A successful response is there. -/
def responded (s : GrpcStream) : Bool := s.recv || (s.waits == 0 && s.response == .success)

/-- The bytes that one read may find besides those of its buffer. -/
def ready (s : GrpcStream) : Bytes :=
  if !s.closed && responded s then readyBytes s.body else []

theorem awaitResponse_eq :
    s.awaitResponse = (.ready (), { s with recv := true }) ∧ responded s = true ∨
      s.awaitResponse.1 ≠ .ready () ∧ responded s = false := by
  unfold awaitResponse responded
  split
  · next hrecv => exact .inl ⟨by rw [← hrecv], by simp [hrecv]⟩
  · next hrecv =>
    split
    · next hwaits => exact .inr ⟨nofun, by simp [hrecv, Nat.ne_of_gt hwaits]⟩
    · next hwaits =>
      have hzero : s.waits = 0 := by omega
      cases hresponse : s.response with
      | success => exact .inl ⟨rfl, by simp [hzero]⟩
      | rejected | failed => exact .inr ⟨nofun, by simp [hrecv]⟩

/-- A turn that finds no message in the buffer. -/
theorem depth_of_none (hdone : ¬ s.payloadAt < s.payload.length)
    (hparse : takeMessage s.incoming = .ok none) (turns : Nat) :
    depth (turns + 1) s =
      if !s.closed && responded s then
        match s.body with
        | [] => depth turns { s with recv := true, closed := true }
        | .data bytes :: body =>
          depth turns { s with recv := true, body := body, incoming := s.incoming ++ bytes }
        | _ => 1
      else 1 := by
  rw [depth, if_neg hdone, parse, hparse]
  dsimp only
  by_cases hclosed : s.closed = true
  · simp [hclosed]
  · rw [if_neg hclosed]
    obtain ⟨hready, hthere⟩ | ⟨hready, hthere⟩ := awaitResponse_eq (s := s)
    · rw [hready, if_pos (by simp [hclosed, hthere])]
      cases s.body with
      | nil => rfl
      | cons part body => cases part <;> rfl
    · rw [if_neg (by simp [hthere])]
      rcases hcall : s.awaitResponse with ⟨_ | _ | _, s₁⟩
      · rfl
      · exact absurd (by rw [hcall]) hready
      · rfl

theorem depth_eq (hturns : s.incoming.length + bodyBytes s.body + (if s.closed then 0 else 1) <
    turns) : depth turns s =
      (if s.payloadAt < s.payload.length then 0 else taken (s.incoming ++ ready s)) + 1 := by
  induction turns generalizing s with
  | zero => omega
  | succ turns ih =>
    by_cases hleft : s.payloadAt < s.payload.length
    · rw [depth, if_pos hleft, if_pos hleft]
    rw [if_neg hleft]
    rcases hparse : takeMessage s.incoming with e | _ | ⟨payload, rest⟩
    · have hsome : takeMessage s.incoming ≠ .ok none := by simp [hparse]
      have hall := takeMessage_append hsome (ready s)
      rw [hparse] at hall
      rw [depth, if_neg hleft, parse, hparse, taken_error hall]
    · rw [depth_of_none hleft hparse, ready]
      split
      · next hthere =>
        have hopen : s.closed = false := by simpa using (Bool.and_eq_true_iff.mp hthere).1
        rw [hopen] at hturns
        cases hbody : s.body with
        | nil =>
          rw [hbody] at hturns
          rw [ih (by simpa using hturns), if_neg hleft]
          simp [ready, readyBytes]
        | cons part body =>
          rw [hbody] at hturns
          cases part with
          | pending | failed => simp [readyBytes, taken_none hparse]
          | data bytes =>
            dsimp only
            rw [ih (by simp [bodyBytes, hopen] at hturns ⊢; omega), if_neg hleft]
            simp [ready, readyBytes, responded, hopen]
      · rw [append_nil, taken_none hparse]
    · have hsome : takeMessage s.incoming ≠ .ok none := by simp [hparse]
      have hall := takeMessage_append hsome (ready s)
      rw [hparse] at hall
      have hshorter := takeMessage_shorter hparse
      rw [depth, if_neg hleft, parse, hparse, taken_some hall]
      dsimp only
      rw [ih (by dsimp only; omega)]
      cases payload with
      | nil => rfl
      | cons byte payload => rfl

theorem pollReadDepth_eq (s : GrpcStream) : pollReadDepth s =
    (if s.payloadAt < s.payload.length then 0 else taken (s.incoming ++ ready s)) + 1 := by
  refine depth_eq ?_
  split
  · omega
  · omega

/-- **The depth of a read** is at most `d + 1` exactly if a payload is left to deliver, or at most
`d` messages are taken before that: the empty ones in front of the bytes that are there without a
pending poll, and the one behind them. -/
theorem pollReadDepth_le_iff (s : GrpcStream) (d : Nat) : pollReadDepth s ≤ d + 1 ↔
    s.payloadAt < s.payload.length ∨ taken (s.incoming ++ ready s) ≤ d := by
  rw [pollReadDepth_eq]
  split
  · next hleft => simp [hleft]
  · next hdone => simp [hdone]

/-- An empty message. -/
def emptyMessage : Bytes := [0, 0, 0, 0, 2, 0x0a, 0]

theorem taken_replicate (d : Nat) : taken (List.replicate d emptyMessage).flatten = d := by
  induction d with
  | zero => exact taken_none rfl
  | succ d ih =>
    have hone : takeMessage emptyMessage = .ok (some ([], [])) := by decide +kernel
    have hfirst := takeMessage_append (by simp [hone] : takeMessage emptyMessage ≠ .ok none)
      (List.replicate d emptyMessage).flatten
    rw [hone] at hfirst
    rw [replicate_succ, flatten_cons, taken_some hfirst, if_pos rfl, nil_append, ih]

/-- No number of calls is enough for all servers: as many empty messages may come at once. -/
theorem pollReadDepth_unbounded : ¬ ∃ d : Nat, ∀ bytes : Bytes,
    pollReadDepth { waits := 0, response := .success, body := [.data bytes] } ≤ d := by
  rintro ⟨d, hbound⟩
  have hmany := hbound (List.replicate d emptyMessage).flatten
  rw [pollReadDepth_eq] at hmany
  simp [ready, responded, readyBytes, taken_replicate] at hmany

/-! ## Bodies that are cut off -/

/-- What is left of a message when it is cut off is none. -/
theorem takeMessage_take {message payload : Bytes} {k : Nat}
    (h : takeMessage message = .ok (some (payload, []))) (hk : k < message.length) :
    takeMessage (message.take k) = .ok none := by
  by_contra hfound
  have hwhole := takeMessage_append hfound (message.drop k)
  rw [take_append_drop, h] at hwhole
  generalize takeMessage (message.take k) = found at hwhole
  rcases found with e | _ | ⟨payload', rest⟩
  · cases hwhole
  · cases hwhole
  · have hrest := (Prod.mk.inj (Option.some.inj (Except.ok.inj hwhole))).2
    have hnone : message.drop k = [] := (append_eq_nil_iff.mp hrest.symm).2
    rw [drop_eq_nil_iff] at hnone
    omega

/-- A message of one byte. -/
theorem takeMessage_one : takeMessage [0, 0, 0, 0, 3, 0x0a, 1, 7] = .ok (some ([7], [])) := by
  decide +kernel

/-- **A body that is cut off inside a message**: the reads deliver the payloads of the messages
before it and then what the body itself ends with. So a clean end is reported exactly if the body
ends without an error. -/
theorem truncation_reported {frames : List (Bytes × Bytes)} (hframes : Framed frames)
    {message payload : Bytes} (hmessage : takeMessage message = .ok (some (payload, [])))
    {k : Nat} (hk : k < message.length) {waits : Nat} {body : List Body}
    {ending : Option StreamError}
    (hbody : bodyContent body = (frames.flatMap Prod.fst ++ message.take k, ending))
    (sizes : List Nat) :
    let results := (observe readStep { waits := waits, response := .success, body := body } sizes).1
    Observed ⟨frames.flatMap Prod.snd, ending⟩ results ∧
      (bodyBytes body + waits + 2 < sizes.countP (0 < ·) →
        (∀ e, ending = some e → .failed e ∈ results) ∧ (.ready [] ∈ results ↔ ending = none)) := by
  let s₀ : GrpcStream := { waits := waits, response := .success, body := body }
  have hden : view.den s₀ = ⟨frames.flatMap Prod.snd, ending⟩ := by
    rw [den_new hbody, messages_framed hframes, messages_none (takeMessage_take hmessage hk),
      Content.prepend, append_nil]
  obtain ⟨hobs, hends⟩ := observe_readStep s₀ sizes
  rw [hden] at hobs hends
  refine ⟨hobs, fun hmany => ?_⟩
  have hend := hends ((left_new waits body).trans_lt hmany)
  refine ⟨?_, fun hclean => congrArg Content.ending (hobs.at_end hclean), ?_⟩
  · rintro e rfl
    exact hend
  · rintro rfl
    exact hend

/-- The stream is reset inside a message. -/
theorem truncation_reported_reset :
    let results := (observe readStep { waits := 0, response := .success, body :=
      [.data [0, 0, 0, 0, 3, 0x0a, 1, 7, 0, 0], .failed "reset"] } (List.replicate 20 4)).1
    .failed (.other "reset") ∈ results ∧ .ready [] ∉ results := by
  have hframes : Framed [([0, 0, 0, 0, 3, 0x0a, 1, 7], [7])] :=
    forall_mem_singleton.mpr takeMessage_one
  have hcut : bodyContent [.data [0, 0, 0, 0, 3, 0x0a, 1, 7, 0, 0], .failed "reset"] =
    ([0, 0, 0, 0, 3, 0x0a, 1, 7] ++ [0, 0], some (.other "reset")) := rfl
  obtain ⟨hfailed, hclean⟩ :=
    (@truncation_reported _ hframes _ _ takeMessage_one 2 (by decide) 0 _ _ hcut
      (List.replicate 20 4)).2 (by decide)
  exact ⟨hfailed _ rfl, fun hready => nomatch hclean.mp hready⟩

/-- A body that ends inside a message: the reads report a clean end. -/
theorem truncation_unreported : takeMessage [0, 0, 0, 0, 3, 0x0a, 1, 7] = .ok (some ([7], [])) ∧
    (observe readStep { waits := 0, response := .success, body :=
      [.data ([0, 0, 0, 0, 3, 0x0a, 1, 7].take 3)] } [4]).1 = [.ready []] :=
  ⟨takeMessage_one, by decide⟩

end Clyntis.Protocol.Gun
