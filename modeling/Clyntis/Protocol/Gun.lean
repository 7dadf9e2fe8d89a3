import Clyntis.Lib.Exec
import Clyntis.Lib.Poll
import Clyntis.Net.Addr

/-!
# Gun messages over HTTP/2 (`grpc.rs`)

A stream of bytes is cut into gRPC messages with a length of four bytes. Each holds one protobuf
field, with a length of its own in base 128.

- `varint`, `decodeVarint`, `gunFrame`, `takeMessage`: the two lengths, a message, and the parser;
- `GrpcStream`: the reading side of a stream, over the data chunks that HTTP/2 finds;
- `messages`: what the messages in some bytes hold, decoded in one go;
- `fill_spec`: what a read does before it delivers; `gun_round_trip`: whatever the chunks and the
  buffers of the caller, the reads deliver the payloads that were framed.
-/

namespace Clyntis.Protocol.Gun

open Lib Net List

/-! ## Lengths in base 128 -/

/-- `varint`. -/
def varint (value : Nat) : Bytes :=
  let byte := UInt8.ofNat (value &&& 0x7f)
  if value >>> 7 = 0 then [byte] else (byte ||| 0x80) :: varint (value >>> 7)
  decreasing_by
    rw [Nat.shiftRight_eq_div_pow] at *
    omega

/-- The loop of `decode_varint`, at byte `i`. The shift loses what does not fit `usize`. -/
def decodeVarintFrom (i value : Nat) : Bytes → Option (Nat × Nat)
  | [] => none
  | byte :: bytes =>
    let value := value ||| ((byte &&& 0x7f).toNat <<< (i * 7)) % 2 ^ 64
    if byte &&& 0x80 = 0 then some (value, i + 1) else decodeVarintFrom (i + 1) value bytes

/-- `decode_varint`: the value and how many bytes it takes. -/
def decodeVarint (bytes : Bytes) : Option (Nat × Nat) := decodeVarintFrom 0 0 (bytes.take 10)

variable {n x i value : Nat} {rest payload : Bytes} {ending : Option StreamError} {bytes : Bytes}

theorem varint_of_lt (h : n < 128) : varint n = [UInt8.ofNat n] := by
  have hshift : n >>> 7 = 0 := by
    omega
  have hand : n &&& 0x7f = n := by
    rw [Nat.and_two_pow_sub_one_eq_mod n 7]
    omega
  rw [varint, if_pos hshift, hand]

theorem varint_of_ge (h : 128 ≤ n) :
    varint n = (UInt8.ofNat (n % 128) ||| 0x80) :: varint (n / 128) := by
  have hshift : n >>> 7 = n / 128 := Nat.shiftRight_eq_div_pow n 7
  have hand : n &&& 0x7f = n % 128 := Nat.and_two_pow_sub_one_eq_mod n 7
  rw [varint, hshift, if_neg (by omega), hand]

/-- A value below `128 ^ k` takes `k` bytes at most. -/
theorem length_varint_le {k : Nat} (hk : 0 < k) (h : n < 128 ^ k) : (varint n).length ≤ k := by
  induction k generalizing n with
  | zero => omega
  | succ k ih =>
    by_cases hsmall : n < 128
    · rw [varint_of_lt hsmall]
      exact hk
    · rw [varint_of_ge (by omega), length_cons]
      have hdiv : n / 128 < 128 ^ k := by
        omega
      have hpos : 0 < k := by
        rcases Nat.eq_zero_or_pos k with rfl | hpos
        · omega
        · exact hpos
      have := ih hpos hdiv
      omega

/-- The two kinds of bytes of a `varint`. -/
theorem last_byte :
    ∀ x < 128, (UInt8.ofNat x &&& 0x7f).toNat = x ∧ UInt8.ofNat x &&& 0x80 = 0 := by
  decide

theorem more_byte : ∀ x < 128, ((UInt8.ofNat x ||| 0x80) &&& 0x7f).toNat = x ∧
    (UInt8.ofNat x ||| 0x80) &&& 0x80 ≠ 0 := by
  decide

/-- Seven more bits above those that were read. -/
theorem lor_shift (hvalue : value < 128 ^ i) (hx : x * 128 ^ i < 2 ^ 64) :
    value ||| (x <<< (i * 7)) % 2 ^ 64 = value + x * 128 ^ i := by
  have hpow : 2 ^ (i * 7) = 128 ^ i := by
    rw [Nat.mul_comm, Nat.pow_mul]
  rw [Nat.shiftLeft_eq, hpow, Nat.mod_eq_of_lt hx, ← hpow, Nat.mul_comm x, Nat.or_comm,
    ← Nat.two_pow_add_eq_or_of_lt (hpow ▸ hvalue), Nat.add_comm]

theorem decodeVarintFrom_varint (n : Nat) (hvalue : value < 128 ^ i)
    (hn : n * 128 ^ i < 2 ^ 64) (rest : Bytes) :
    decodeVarintFrom i value (varint n ++ rest) =
      some (value + n * 128 ^ i, i + (varint n).length) := by
  induction n using Nat.strongRecOn generalizing i value with
  | ind n ih =>
    by_cases hsmall : n < 128
    · obtain ⟨hbyte, hlast⟩ := last_byte n hsmall
      rw [varint_of_lt hsmall, singleton_append, decodeVarintFrom, hbyte, lor_shift hvalue hn,
        if_pos hlast]
      rfl
    · have hmod : n % 128 < 128 := Nat.mod_lt _ (by decide)
      obtain ⟨hbyte, hmore⟩ := more_byte _ hmod
      have hsplit : n = n % 128 + 128 * (n / 128) := (Nat.mod_add_div n 128).symm
      have hlow : n % 128 * 128 ^ i < 2 ^ 64 :=
        (Nat.mul_le_mul_right _ (Nat.mod_le n 128)).trans_lt hn
      have hpow : 128 ^ (i + 1) = 128 * 128 ^ i := Nat.pow_succ'
      have hhigh : n / 128 * 128 ^ (i + 1) ≤ n * 128 ^ i := by
        rw [hpow, ← Nat.mul_assoc]
        exact Nat.mul_le_mul_right _ (Nat.div_mul_le_self n 128)
      have hvalue' : value + n % 128 * 128 ^ i < 128 ^ (i + 1) := by
        have hle : n % 128 * 128 ^ i ≤ 127 * 128 ^ i := Nat.mul_le_mul_right _ (by omega)
        omega
      rw [varint_of_ge (by omega), cons_append, decodeVarintFrom, hbyte,
        lor_shift hvalue hlow, if_neg hmore, ih (n / 128) (by omega) hvalue' (by omega)]
      have hsum : value + n % 128 * 128 ^ i + n / 128 * 128 ^ (i + 1) = value + n * 128 ^ i := by
        conv_rhs => rw [hsplit]
        ring
      rw [hsum, length_cons, Nat.add_assoc, Nat.add_comm 1]

/-- **`decode_varint` inverts `varint`**, whatever follows. -/
theorem decodeVarint_varint (h : n < 2 ^ 64) (rest : Bytes) :
    decodeVarint (varint n ++ rest) = some (n, (varint n).length) := by
  have hlen : (varint n).length ≤ 10 := length_varint_le (by decide) (h.trans (by decide))
  rw [decodeVarint, take_append, take_of_length_le hlen,
    decodeVarintFrom_varint n (by decide) (by simpa using h)]
  simp

/-! ## Messages -/

/-- `gun_frame`. -/
def gunFrame (payload : Bytes) : Bytes :=
  let proto := 0x0a :: (varint payload.length ++ payload)
  0 :: (beBytes 4 proto.length ++ proto)

/-- The field in a message: its payload. The additions of `usize` wrap around. -/
def takeField (proto : Bytes) : Except String Bytes :=
  if proto.head? ≠ some 0x0a then .error "invalid Gun protobuf message"
  else
    match decodeVarint (proto.drop 1) with
    | none => .error "invalid Gun protobuf length"
    | some (payloadLen, size) =>
      if (1 + size + payloadLen) % 2 ^ 64 ≠ proto.length then .error "invalid Gun protobuf payload"
      else .ok (proto.drop (1 + size))

/-- The message in front: its payload and what follows it; `none` while it is incomplete. -/
def takeMessage : Bytes → Except String (Option (Bytes × Bytes))
  | flag :: b₁ :: b₂ :: b₃ :: b₄ :: rest =>
    if flag ≠ 0 then .error "compressed gRPC messages are unsupported"
    else
      let length := beNat [b₁, b₂, b₃, b₄]
      if 16 * 1024 * 1024 < length then .error "oversized gRPC message"
      else if rest.length < length then .ok none
      else do return some (← takeField (rest.take length), rest.drop length)
  | _ => .ok none

theorem decodeVarintFrom_bounds {size : Nat}
    (h : decodeVarintFrom i value bytes = some (x, size)) (hvalue : value < 2 ^ 64) :
    x < 2 ^ 64 ∧ size ≤ i + bytes.length := by
  induction bytes generalizing i value with
  | nil => cases h
  | cons byte bytes ih =>
    have hnext : value ||| ((byte &&& 0x7f).toNat <<< (i * 7)) % 2 ^ 64 < 2 ^ 64 :=
      Nat.or_lt_two_pow hvalue (Nat.mod_lt _ (by decide))
    rw [decodeVarintFrom] at h
    rw [length_cons]
    split at h
    · obtain ⟨rfl, rfl⟩ := Prod.mk.inj (Option.some.inj h)
      exact ⟨hnext, by omega⟩
    · obtain ⟨hx, hsize⟩ := ih h hnext
      exact ⟨hx, by omega⟩

/-- A field that is accepted: a tag, a length, and as many bytes. A sum that wraps around is smaller
than the field. -/
theorem takeField_eq_ok {proto : Bytes} (h : takeField proto = .ok payload) :
    ∃ size, proto = 0x0a :: (size ++ payload) ∧
      decodeVarint (size ++ payload) = some (payload.length, size.length) := by
  unfold takeField at h
  split at h
  · cases h
  · next htag =>
    rw [not_not] at htag
    obtain ⟨tail, rfl⟩ := head?_eq_some_iff.mp htag
    rw [drop_one, tail_cons] at h
    split at h
    · cases h
    · next payloadLen size hvarint =>
      split at h
      · cases h
      · next htotal =>
        rw [length_cons] at htotal
        rw [Nat.add_comm 1, drop_succ_cons] at h
        obtain rfl := Except.ok.inj h
        obtain ⟨hx, hle⟩ := decodeVarintFrom_bounds hvarint (by decide)
        have htake : (tail.take 10).length ≤ tail.length := length_take_le' _ _
        have hlen : payloadLen = tail.length - size := by omega
        have hfront : (tail.take size).length = size := by
          rw [length_take]
          omega
        refine ⟨tail.take size, by rw [take_append_drop], ?_⟩
        rw [take_append_drop, hvarint, length_drop, hfront, hlen]

theorem takeField_gun (h : payload.length < 2 ^ 63) :
    takeField (0x0a :: (varint payload.length ++ payload)) = .ok payload := by
  have hvarint : decodeVarint (varint payload.length ++ payload) =
      some (payload.length, (varint payload.length).length) :=
    decodeVarint_varint (by omega) payload
  have hsize : (varint payload.length).length ≤ 10 :=
    length_varint_le (by decide) (lt_trans h (by decide))
  have htotal : (1 + (varint payload.length).length + payload.length) % 2 ^ 64 =
      (0x0a :: (varint payload.length ++ payload)).length := by
    rw [length_cons, length_append]
    omega
  rw [takeField, if_neg (by simp), drop_one, tail_cons, hvarint]
  dsimp only
  rw [if_neg (by rw [htotal]; simp), Nat.add_comm, drop_succ_cons, drop_left]

/-- **A framed payload is taken again**, whatever follows it. -/
theorem takeMessage_gunFrame (h : payload.length ≤ 16 * 1024)
    (rest : Bytes) : takeMessage (gunFrame payload ++ rest) = .ok (some (payload, rest)) := by
  have hsize : (varint payload.length).length ≤ 10 :=
    length_varint_le (by decide) (lt_of_le_of_lt h (by decide))
  have hproto : (0x0a :: (varint payload.length ++ payload)).length =
      1 + (varint payload.length).length + payload.length := by
    rw [length_cons, length_append]
    omega
  generalize hproto' : (0x0a : UInt8) :: (varint payload.length ++ payload) = proto at hproto
  have hfield : takeField proto = .ok payload := hproto' ▸ takeField_gun (by omega)
  obtain ⟨b₁, b₂, b₃, b₄, hbytes⟩ : ∃ b₁ b₂ b₃ b₄, beBytes 4 proto.length = [b₁, b₂, b₃, b₄] :=
    ⟨_, _, _, _, rfl⟩
  have hlen : beNat [b₁, b₂, b₃, b₄] = proto.length := by
    rw [← hbytes, beNat_beBytes, Nat.mod_eq_of_lt (by omega)]
  have hframe : gunFrame payload ++ rest = 0 :: b₁ :: b₂ :: b₃ :: b₄ :: (proto ++ rest) := by
    simp [gunFrame, hproto', hbytes]
  rw [hframe, takeMessage]
  simp only [ne_eq, not_true_eq_false, if_false, hlen]
  rw [if_neg (by omega), if_neg (by rw [length_append]; omega), take_left, drop_left, hfield]
  rfl

/-- What the parser says of a whole message does not depend on the bytes behind it. -/
theorem takeMessage_append (h : takeMessage bytes ≠ .ok none) (more : Bytes) :
    takeMessage (bytes ++ more) =
      (takeMessage bytes).map (Option.map fun found => (found.1, found.2 ++ more)) := by
  match bytes with
  | flag :: b₁ :: b₂ :: b₃ :: b₄ :: rest =>
    simp only [cons_append, takeMessage] at h ⊢
    by_cases hflag : flag ≠ 0
    · rw [if_pos hflag, if_pos hflag]
      rfl
    · rw [if_neg hflag] at h
      rw [if_neg hflag, if_neg hflag]
      by_cases hbig : 16 * 1024 * 1024 < beNat [b₁, b₂, b₃, b₄]
      · rw [if_pos hbig, if_pos hbig]
        rfl
      · rw [if_neg hbig] at h
        rw [if_neg hbig, if_neg hbig]
        by_cases hshort : rest.length < beNat [b₁, b₂, b₃, b₄]
        · rw [if_pos hshort] at h
          exact absurd rfl h
        · rw [if_neg hshort, if_neg (by rw [length_append]; omega),
            take_append_of_le_length (by omega), drop_append_of_le_length (by omega)]
          cases takeField (rest.take (beNat [b₁, b₂, b₃, b₄])) with
          | error | ok => rfl
  | [] | [_] | [_, _] | [_, _, _] | [_, _, _, _] => exact absurd rfl h

/-- A message that is accepted, taken apart. -/
theorem takeMessage_eq_some (h : takeMessage bytes = .ok (some (payload, rest))) :
    ∃ length size, beNat length = 1 + size.length + payload.length ∧ length.length = 4 ∧
      bytes = 0 :: (length ++ 0x0a :: (size ++ payload)) ++ rest ∧
      decodeVarint (size ++ payload) = some (payload.length, size.length) := by
  match bytes with
  | flag :: b₁ :: b₂ :: b₃ :: b₄ :: body =>
    simp only [takeMessage] at h
    split at h
    · cases h
    · next hflag =>
      split at h
      · cases h
      split at h
      · cases h
      · next hlong =>
        obtain ⟨payload', hfield, h⟩ := bind_eq_ok h
        obtain ⟨rfl, rfl⟩ := Prod.mk.inj (Option.some.inj (Except.ok.inj h))
        obtain ⟨size, hproto, hvarint⟩ := takeField_eq_ok hfield
        have hlen := congrArg List.length hproto
        rw [length_take, length_cons, length_append] at hlen
        refine ⟨[b₁, b₂, b₃, b₄], size, by omega, rfl, ?_, hvarint⟩
        rw [not_not] at hflag
        rw [hflag, ← hproto]
        simp
  | [] | [_] | [_, _] | [_, _, _] | [_, _, _, _] => cases h

theorem takeMessage_shorter (h : takeMessage bytes = .ok (some (payload, rest))) :
    payload.length + rest.length < bytes.length := by
  obtain ⟨length, size, -, -, rfl, -⟩ := takeMessage_eq_some h
  simp only [length_cons, length_append]
  omega

/-- What the messages in some bytes hold; behind the last whole one comes `ending`. -/
def messages (ending : Option StreamError) (bytes : Bytes) : Content :=
  match _h : takeMessage bytes with
  | .error e => ⟨[], some (.other e)⟩
  | .ok none => ⟨[], ending⟩
  | .ok (some (payload, rest)) => (messages ending rest).prepend payload
  termination_by bytes.length
  decreasing_by
    have := takeMessage_shorter _h
    omega

theorem messages_error {e : String} (h : takeMessage bytes = .error e) :
    messages ending bytes = ⟨[], some (.other e)⟩ := by
  rw [messages]
  split <;> next h' => cases h.symm.trans h' <;> rfl

theorem messages_none (h : takeMessage bytes = .ok none) :
    messages ending bytes = ⟨[], ending⟩ := by
  rw [messages]
  split <;> next h' => cases h.symm.trans h' <;> rfl

theorem messages_some (h : takeMessage bytes = .ok (some (payload, rest))) :
    messages ending bytes = (messages ending rest).prepend payload := by
  rw [messages]
  split <;> next h' => cases h.symm.trans h' <;> rfl

/-- Messages with their payloads. -/
def Framed (frames : List (Bytes × Bytes)) : Prop :=
  ∀ frame ∈ frames, takeMessage frame.1 = .ok (some (frame.2, []))

/-- Whole messages hold their payloads. -/
theorem messages_framed {frames : List (Bytes × Bytes)} (h : Framed frames)
    (ending : Option StreamError) (rest : Bytes) :
    messages ending (frames.flatMap Prod.fst ++ rest) =
      (messages ending rest).prepend (frames.flatMap Prod.snd) := by
  induction frames with
  | nil => exact (Content.prepend_nil _).symm
  | cons frame frames ih =>
    have hframe := h frame mem_cons_self
    have hfirst := takeMessage_append (by simp [hframe] : takeMessage frame.1 ≠ .ok none)
      (frames.flatMap Prod.fst ++ rest)
    rw [hframe] at hfirst
    rw [flatMap_cons, append_assoc, messages_some hfirst, nil_append,
      ih fun f hf => h f (mem_cons_of_mem _ hf), Content.prepend_prepend]
    rfl

/-- The messages of framed payloads hold the payloads. -/
theorem messages_gunFrame {payloads : List Bytes}
    (h : ∀ payload ∈ payloads, payload.length ≤ 16 * 1024) (ending : Option StreamError) :
    messages ending (payloads.flatMap gunFrame) = ⟨payloads.flatten, ending⟩ := by
  have hframed : Framed (payloads.map fun payload => (gunFrame payload, payload)) := by
    intro frame hframe
    obtain ⟨payload, hpayload, rfl⟩ := mem_map.mp hframe
    have hone := takeMessage_gunFrame (h payload hpayload) []
    rwa [append_nil] at hone
  have hall := messages_framed hframed ending []
  rw [flatMap_map, flatMap_map, append_nil] at hall
  refine hall.trans ?_
  rw [messages_none rfl, Content.prepend, append_nil, ← flatMap_id]
  rfl

/-! ## The stream -/

/-- What `poll_data` finds; after the last entry, the end of the body. -/
inductive Body where
  | pending
  | data (bytes : Bytes)
  | failed (message : String)
  deriving DecidableEq, Repr

/-- What comes of the response: its status is a success, or not, or there is none. -/
inductive Response where
  | success
  | rejected (status : String)
  | failed (message : String)
  deriving DecidableEq, Repr

/-- The reading side of `GrpcStream`. The response comes after `waits` polls that find it pending;
`recv` says whether it has come. -/
structure GrpcStream where
  waits : Nat
  response : Response
  body : List Body
  recv : Bool := false
  incoming : Bytes := []
  payload : Bytes := []
  payloadAt : Nat := 0
  closed : Bool := false
  deriving DecidableEq, Repr

variable (s : GrpcStream)

namespace GrpcStream

/-- `parse`. -/
def parse : Except String (Bool × GrpcStream) :=
  match takeMessage s.incoming with
  | .error e => .error e
  | .ok none => .ok (false, s)
  | .ok (some (payload, rest)) =>
    .ok (true, { s with incoming := rest, payload := payload, payloadAt := 0 })

/-- The response, if it has not come yet. -/
def awaitResponse : Poll Unit × GrpcStream :=
  if s.recv then (.ready (), s)
  else if 0 < s.waits then (.pending, { s with waits := s.waits - 1 })
  else
    match s.response with
    | .success => (.ready (), { s with recv := true })
    | .rejected status => (.failed (.other ("gRPC transport rejected: " ++ status)), s)
    | .failed message => (.failed (.other message), s)

/-- `poll_data`, and the bytes it found in the buffer. -/
def pollData : Poll Unit × GrpcStream :=
  match s.body with
  | [] => (.ready (), { s with closed := true })
  | .pending :: body => (.pending, { s with body := body })
  | .data bytes :: body => (.ready (), { s with body := body, incoming := s.incoming ++ bytes })
  | .failed message :: _ => (.failed (.other message), s)

/-- The loop of `poll_read`, up to the point where there is a payload (`true`) or the end has come
(`false`). A turn takes a message, a part of the body or its end, so there are turns enough. -/
def fill : (turns : Nat) → GrpcStream → Poll Bool × GrpcStream
  | 0, s => (.pending, s)
  | turns + 1, s =>
    if s.payloadAt < s.payload.length then (.ready true, s)
    else
      match s.parse with
      | .error e => (.failed (.other e), s)
      | .ok (true, s) => fill turns s
      | .ok (false, s) =>
        if s.closed then (.ready false, s)
        else
          Poll.andThen s.awaitResponse fun _ s => Poll.andThen s.pollData fun _ s => fill turns s

/-- The bytes that wait in the body. -/
def bodyBytes (body : List Body) : Nat :=
  (body.map fun
    | .data bytes => bytes.length + 1
    | _ => 1).sum

/-- The case `payload_at < payload.len()`. -/
def deliver (n : Nat) (s : GrpcStream) : Poll Bytes × GrpcStream :=
  let left := s.payload.drop s.payloadAt
  (.ready (left.take n), { s with payloadAt := s.payloadAt + min n left.length })

/-- `poll_read` into a buffer of `n` bytes. -/
def pollRead (n : Nat) (s : GrpcStream) : Poll Bytes × GrpcStream :=
  Poll.andThen (s.fill (s.incoming.length + bodyBytes s.body + 3)) fun more s =>
    if more then s.deliver n else (.ready [], s)

/-! ## What there is to read -/

/-- The bytes of the body and the error behind them, if there is one. -/
def bodyContent : List Body → Bytes × Option StreamError
  | [] => ([], none)
  | .pending :: body => bodyContent body
  | .data bytes :: body => (bytes ++ (bodyContent body).1, (bodyContent body).2)
  | .failed message :: _ => ([], some (.other message))

/-- What still comes. -/
def coming : Bytes × Option StreamError :=
  if s.closed then ([], none)
  else if s.recv then bodyContent s.body
  else
    match s.response with
    | .success => bodyContent s.body
    | .rejected status => ([], some (.other ("gRPC transport rejected: " ++ status)))
    | .failed message => ([], some (.other message))

/-- What the messages hold that were not taken yet. -/
def behindPayload : Content := messages s.coming.2 (s.incoming ++ s.coming.1)

/-- `left` counts the bytes, the parts of the body and the waits. -/
def view : View GrpcStream where
  inv _ := True
  den s := s.behindPayload.prepend (s.payload.drop s.payloadAt)
  left s := (s.payload.length - s.payloadAt) + s.incoming.length + bodyBytes s.body + s.waits +
    (if s.closed then 0 else 1) + (if s.recv then 0 else 1)
  fin _ := True

/-- What `fill` comes to. -/
structure Filled (s : GrpcStream) (r : Poll Bool) (s' : GrpcStream) : Prop where
  keeps : KeepsReading view s s'
  pending : r = .pending → view.left s' < view.left s
  more : r = .ready true → s'.payloadAt < s'.payload.length
  last : r = .ready false → view.den s = ⟨[], none⟩
  error : ∀ e, r = .failed e → e.sending = false ∧ view.den s = ⟨[], some e⟩

section Fill

variable {s s₁ s' : GrpcStream} {r : Poll Bool} {turns : Nat} {call : Poll Unit × GrpcStream}

theorem Filled.of_keeps (h : KeepsReading view s s₁) (hf : Filled s₁ r s') : Filled s r s' := by
  refine ⟨h.trans hf.keeps, fun hr => (hf.pending hr).trans_le h.le, hf.more, fun hr => ?_,
    fun e hr => ?_⟩
  · rw [← h.same]
    exact hf.last hr
  · rw [← h.same]
    exact hf.error e hr

/-- When the payload is used up, what is left are messages. -/
theorem den_of_done (h : s.payload.length ≤ s.payloadAt) : view.den s = s.behindPayload := by
  change Content.prepend _ _ = _
  rw [drop_eq_nil_iff.mpr h, Content.prepend_nil]

/-- A message is taken off the buffer. -/
theorem parse_keeps (hdone : s.payload.length ≤ s.payloadAt) {rest : Bytes}
    (h : takeMessage s.incoming = .ok (some (payload, rest))) :
    KeepsReading view s { s with incoming := rest, payload := payload, payloadAt := 0 } := by
  have hshorter := takeMessage_shorter h
  refine ⟨trivial, ?_, ?_⟩
  · have hfound : takeMessage s.incoming ≠ .ok none := by simp [h]
    have happend := takeMessage_append hfound s.coming.1
    rw [h] at happend
    rw [den_of_done hdone, behindPayload, messages_some happend]
    rfl
  · simp only [view]
    omega

/-- What a call before the next turn comes to: an error of it stands behind what has come. -/
structure Prepares (s : GrpcStream) (call : Poll Unit × GrpcStream) : Prop where
  bytes : call.2.incoming ++ call.2.coming.1 = s.incoming ++ s.coming.1
  ending : call.2.coming.2 = s.coming.2
  payload : call.2.payload.drop call.2.payloadAt = s.payload.drop s.payloadAt
  le : view.left call.2 ≤ view.left s
  pending : call.1 = .pending → view.left call.2 < view.left s
  error : ∀ e, call.1 = .failed e → e.sending = false ∧ s.coming = ([], some e)

theorem Prepares.keeps (h : Prepares s call) : KeepsReading view s call.2 := by
  refine ⟨trivial, ?_, h.le⟩
  simp only [view, behindPayload, h.bytes, h.ending, h.payload]

theorem Prepares.failed {message : String} (h : s.coming = ([], some (.other message))) :
    Prepares s (.failed (.other message), s) := by
  refine ⟨rfl, rfl, rfl, le_rfl, nofun, fun e he => ?_⟩
  cases he
  exact ⟨rfl, h⟩

/-- The turn goes on with `f` if the call is ready. -/
theorem Filled.andThen {f : GrpcStream → Poll Bool × GrpcStream}
    (h : Prepares s call) (hdone : s.payload.length ≤ s.payloadAt)
    (hparse : takeMessage s.incoming = .ok none)
    (hf : call.1 = .ready () → Filled call.2 (f call.2).1 (f call.2).2) :
    Filled s (Poll.andThen call fun _ => f).1 (Poll.andThen call fun _ => f).2 := by
  rcases call with ⟨_ | _ | e, s₁⟩
  · exact ⟨h.keeps, fun _ => h.pending rfl, nofun, nofun, nofun⟩
  · exact .of_keeps h.keeps (hf rfl)
  · obtain ⟨hown, hcoming⟩ := h.error e rfl
    refine ⟨h.keeps, nofun, nofun, nofun, fun e' he => ?_⟩
    cases he
    refine ⟨hown, ?_⟩
    rw [den_of_done hdone, behindPayload, hcoming, append_nil, messages_none hparse]

theorem awaitResponse_spec (hopen : s.closed = false) :
    Prepares s s.awaitResponse ∧
      (s.awaitResponse.1 = .ready () → s.awaitResponse.2 = { s with recv := true }) := by
  unfold awaitResponse
  split
  · next hrecv =>
    refine ⟨⟨rfl, rfl, rfl, le_rfl, nofun, nofun⟩, fun _ => ?_⟩
    rw [← hrecv]
  · next hrecv =>
    split
    · next hwaits =>
      refine ⟨⟨rfl, rfl, rfl, ?_, fun _ => ?_, nofun⟩, nofun⟩
      · simp only [view]
        omega
      · simp only [view]
        omega
    · have hcoming : s.coming = match s.response with
          | .success => bodyContent s.body
          | .rejected status => ([], some (.other ("gRPC transport rejected: " ++ status)))
          | .failed message => ([], some (.other message)) := by
        rw [coming, if_neg (by simp [hopen]), if_neg (by simp [hrecv])]
      split
      · next hresponse =>
        rw [hresponse] at hcoming
        have hsame : coming { s with recv := true } = s.coming := by
          rw [hcoming, coming, if_neg (by simp [hopen]), if_pos rfl]
        refine ⟨⟨by rw [hsame], by rw [hsame], rfl, ?_, nofun, nofun⟩, fun _ => rfl⟩
        simp only [view]
        simp
      · next hresponse =>
        rw [hresponse] at hcoming
        exact ⟨.failed hcoming, nofun⟩
      · next hresponse =>
        rw [hresponse] at hcoming
        exact ⟨.failed hcoming, nofun⟩

/-- What is found in the body moves into the buffer. -/
theorem pollData_spec (hopen : s.closed = false) (hrecv : s.recv = true) :
    Prepares s s.pollData ∧ (s.pollData.1 = .ready () →
      s.pollData.2.incoming.length + bodyBytes s.pollData.2.body +
          (if s.pollData.2.closed then 0 else 1) <
        s.incoming.length + bodyBytes s.body + (if s.closed then 0 else 1)) := by
  have hcoming : s.coming = bodyContent s.body := by
    rw [coming, if_neg (by simp [hopen]), if_pos hrecv]
  unfold pollData
  split
  · next hbody =>
    rw [hbody] at hcoming
    have hsame : coming { s with closed := true } = s.coming := by
      rw [hcoming]
      rfl
    refine ⟨⟨by rw [hsame], by rw [hsame], rfl, ?_, nofun, nofun⟩, fun _ => ?_⟩
    · simp [view]
    · simp [hopen]
  · next body hbody =>
    rw [hbody] at hcoming
    have hsame : coming { s with body := body } = s.coming := by
      rw [hcoming, coming, if_neg (by simp [hopen]), if_pos hrecv]
      rfl
    have hless : bodyBytes body < bodyBytes s.body := by
      simp [hbody, bodyBytes]
    refine ⟨⟨by rw [hsame], by rw [hsame], rfl, ?_, fun _ => ?_, nofun⟩, nofun⟩
    · simp only [view]
      omega
    · simp only [view]
      omega
  · next bytes body hbody =>
    rw [hbody] at hcoming
    have hsame : coming { s with body := body, incoming := s.incoming ++ bytes } =
        bodyContent body := by
      rw [coming, if_neg (by simp [hopen]), if_pos hrecv]
    have hless : bodyBytes s.body = bytes.length + 1 + bodyBytes body := by
      simp [hbody, bodyBytes]
    refine ⟨⟨?_, by rw [hsame, hcoming]; rfl, rfl, ?_, nofun, nofun⟩, fun _ => ?_⟩
    · rw [hsame, hcoming, bodyContent, append_assoc]
    · simp only [view, length_append]
      omega
    · dsimp only
      rw [length_append]
      omega
  · next hbody =>
    rw [hbody] at hcoming
    exact ⟨.failed hcoming, nofun⟩

/-- **What a read does before it delivers.** -/
theorem fill_spec (hturns : s.incoming.length + bodyBytes s.body + (if s.closed then 0 else 1) <
    turns) : Filled s (s.fill turns).1 (s.fill turns).2 := by
  induction turns generalizing s with
  | zero => omega
  | succ turns ih =>
    unfold fill
    split
    · next hleft =>
      exact ⟨⟨trivial, rfl, le_rfl⟩, nofun, fun _ => hleft, nofun, nofun⟩
    · next hdone =>
      replace hdone : s.payload.length ≤ s.payloadAt := by omega
      have hden := den_of_done hdone
      rcases hparse : takeMessage s.incoming with e | _ | ⟨payload, rest⟩
      · have hfound : takeMessage s.incoming ≠ .ok none := by simp [hparse]
        have hall := takeMessage_append hfound s.coming.1
        rw [hparse] at hall
        rw [parse, hparse]
        refine ⟨⟨trivial, rfl, le_rfl⟩, nofun, nofun, nofun, fun e' he => ?_⟩
        cases he
        exact ⟨rfl, hden.trans (messages_error hall)⟩
      · rw [parse, hparse]
        dsimp only
        split
        · next hclosed =>
          refine ⟨⟨trivial, rfl, le_rfl⟩, nofun, nofun, fun _ => ?_, nofun⟩
          rw [hden, behindPayload, coming, if_pos hclosed, append_nil, messages_none hparse]
        · next hopen =>
          rw [Bool.not_eq_true] at hopen
          obtain ⟨hresponse, hrecv⟩ := awaitResponse_spec hopen
          refine .andThen hresponse hdone hparse fun hready => ?_
          rw [hrecv hready]
          -- the rest of the turn, with the response there
          obtain ⟨hdata, hless⟩ := @pollData_spec { s with recv := true } hopen rfl
          refine .andThen hdata hdone hparse fun hready => ih ?_
          have := hless hready
          dsimp only at this ⊢
          omega
      · have hkeeps := parse_keeps hdone hparse
        have hshorter := takeMessage_shorter hparse
        rw [parse, hparse]
        refine .of_keeps hkeeps (ih ?_)
        dsimp only
        omega

end Fill

section Read

variable (s : GrpcStream)

theorem fill_filled : Filled s (s.fill (s.incoming.length + bodyBytes s.body + 3)).1
    (s.fill (s.incoming.length + bodyBytes s.body + 3)).2 := by
  refine fill_spec ?_
  split
  · omega
  · omega

theorem deliver_spec {n : Nat} (hleft : s.payloadAt < s.payload.length) (hn : 0 < n) :
    ReadStep view n s (s.deliver n).1 (s.deliver n).2 := by
  unfold deliver
  refine .data trivial ?_ (length_take_le _ _) ?_ ?_
  · rw [ne_eq, take_eq_nil_iff, drop_eq_nil_iff]
    omega
  · change s.behindPayload.prepend _ = (s.behindPayload.prepend _).prepend _
    rw [Content.prepend_prepend]
    rw [← drop_drop, take_eq_take_min, take_append_drop]
  · simp only [view, length_take, length_drop]
    omega

theorem pollRead_spec {n : Nat} (hn : 0 < n) :
    ReadStep view n s (s.pollRead n).1 (s.pollRead n).2 := by
  obtain ⟨hkeeps, hpending, hmore, hlast, herror⟩ := s.fill_filled
  unfold pollRead
  generalize s.fill (s.incoming.length + bodyBytes s.body + 3) = call
    at hkeeps hpending hmore hlast herror
  rcases call with ⟨_ | more | e, s₁⟩
  · exact .pending trivial hkeeps.same (hpending rfl)
  · cases more with
    | false => exact .eof trivial trivial (hlast rfl) hkeeps.same hkeeps.le
    | true =>
      have hleft : s₁.payloadAt < s₁.payload.length := hmore rfl
      exact (s₁.deliver_spec hleft hn).of_same hkeeps.same hkeeps.le
  · obtain ⟨hown, hden⟩ := herror e rfl
    exact .error trivial hown hden

/-- A read into an empty buffer takes nothing. -/
theorem pollRead_zero : KeepsReading view s (s.pollRead 0).2 := by
  have hkeeps := s.fill_filled.keeps
  unfold pollRead
  generalize s.fill (s.incoming.length + bodyBytes s.body + 3) = call at hkeeps
  rcases call with ⟨_ | more | e, s₁⟩
  · exact hkeeps
  · cases more with
    | false => exact hkeeps
    | true =>
      exact hkeeps
  · exact hkeeps

/-- Reading fails only with errors of its own. -/
theorem pollRead_aside (n : Nat) : (s.pollRead n).1.aside = false := by
  have herror := s.fill_filled.error
  unfold pollRead
  generalize s.fill (s.incoming.length + bodyBytes s.body + 3) = call at herror
  rcases call with ⟨_ | more | e, s₁⟩
  · rfl
  · cases more with
    | false => rfl
    | true => rfl
  · exact (herror e rfl).1

end Read

end GrpcStream

open GrpcStream

/-! ## Runs -/

/-- A read; what one into an empty buffer returns says nothing. -/
def readStep (n : Nat) : Option (Poll Bytes) × GrpcStream :=
  (if 0 < n then some (s.pollRead n).1 else none, (s.pollRead n).2)

theorem den_new {waits : Nat} {body : List Body} {ending : Option StreamError}
    (h : bodyContent body = (bytes, ending)) :
    view.den { waits := waits, response := .success, body := body } = messages ending bytes := by
  change (messages (bodyContent body).2 ([] ++ (bodyContent body).1)).prepend [] = _
  rw [h]
  rfl

theorem left_new (waits : Nat) (body : List Body) :
    view.left { waits := waits, response := .success, body := body } =
      bodyBytes body + waits + 2 := by
  simp [view]

/-- Reading any stream: the results are those of its content, and its end is reached. -/
theorem observe_readStep (sizes : List Nat) :
    Observed (view.den s) (observe readStep s sizes).1 ∧
      (view.left s < sizes.countP (0 < ·) →
        (view.den s).ending.elim (.ready []) .failed ∈ (observe readStep s sizes).1) := by
  have hstep : ∀ s n, view.inv s → CallStep view (decide (0 < n)) s (readStep s n) := by
    intro s n _
    by_cases hn : 0 < n
    · rw [readStep, if_pos hn]
      exact ⟨decide_eq_true hn, n, s.pollRead_spec hn⟩
    · obtain rfl : n = 0 := by omega
      exact ⟨rfl, s.pollRead_zero⟩
  have haside : ∀ r ∈ (observe readStep s sizes).1, r.aside = false := by
    refine observe_all (fun s n r s' h => ?_) _ sizes
    rw [readStep] at h
    split at h
    · cases h
      exact s.pollRead_aside n
    · cases h
  have hinv : view.inv s := trivial
  obtain ⟨hobs, -, -, hends⟩ := observe_spec hstep hinv sizes
  refine ⟨hobs, fun hmany => ?_⟩
  obtain ⟨r, hr, hlast⟩ := hends hmany haside
  rcases r with _ | bytes | e
  · cases hlast
  · obtain rfl : bytes = [] := isEmpty_iff.mp hlast
    rw [hobs.at_end hr]
    exact hr
  · rw [hobs.at_error e hr (haside _ hr)]
    exact hr

/-- **The Gun framing round trip.** Take payloads of at most 16 KiB, their frames cut into data
chunks in any way, and reads into buffers of any size. Until the end is reported the reads deliver
the payloads, in order; the end comes behind all of them, and it is reached. `decode_varint` inverts
`varint` on every `usize` and consumes its bytes only. A message is accepted only if the length of
its field is that of the bytes which are left in it. -/
theorem gun_round_trip :
    (∀ (payloads : List Bytes), (∀ payload ∈ payloads, payload.length ≤ 16 * 1024) →
      ∀ (waits : Nat) (body : List Body), bodyContent body = (payloads.flatMap gunFrame, none) →
      ∀ sizes : List Nat,
      let results :=
        (observe readStep { waits := waits, response := .success, body := body } sizes).1
      Observed ⟨payloads.flatten, none⟩ results ∧
        (bodyBytes body + waits + 2 < sizes.countP (0 < ·) → .ready [] ∈ results)) ∧
    (∀ n < 2 ^ 64, ∀ rest, decodeVarint (varint n ++ rest) = some (n, (varint n).length)) ∧
    ∀ bytes payload rest, takeMessage bytes = .ok (some (payload, rest)) →
      ∃ length size, beNat length = 1 + size.length + payload.length ∧ length.length = 4 ∧
        bytes = 0 :: (length ++ 0x0a :: (size ++ payload)) ++ rest ∧
        decodeVarint (size ++ payload) = some (payload.length, size.length) := by
  refine ⟨fun payloads hsmall waits body hbody sizes => ?_, fun n hn => decodeVarint_varint hn,
    fun bytes payload rest => takeMessage_eq_some⟩
  let s₀ : GrpcStream := { waits := waits, response := .success, body := body }
  have hden : view.den s₀ = ⟨payloads.flatten, none⟩ := by
    rw [den_new hbody]
    exact messages_gunFrame hsmall none
  obtain ⟨hobs, hends⟩ := observe_readStep s₀ sizes
  rw [hden] at hobs hends
  exact ⟨hobs, fun hmany => hends ((left_new waits body).trans_lt hmany)⟩

/-- One payload of two bytes, its frame cut inside both lengths. -/
theorem gun_round_trip_cut :
    Observed ⟨[7, 8], none⟩ (observe readStep { waits := 1, response := .success, body :=
      [.data [0, 0, 0], .pending, .data [0, 4, 0x0a], .data [2, 7, 8]] } [1, 1, 4, 4, 4]).1 := by
  have hframe : gunFrame [7, 8] = [0, 0, 0, 0, 4, 0x0a, 2, 7, 8] := by
    have hvarint : varint [(7 : UInt8), 8].length = [2] := varint_of_lt (by decide)
    simp only [gunFrame, hvarint]
    decide
  refine (gun_round_trip.1 [[7, 8]] (by decide) 1 _ ?_ _).1
  rw [flatMap_singleton, hframe]
  rfl

end Clyntis.Protocol.Gun
