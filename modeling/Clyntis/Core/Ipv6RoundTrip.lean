import Clyntis.Core.Ipv6Sound

/-!
# Fragmenting and reassembling an IPv6 packet

`fragment` cuts the packets that smoltcp generates for the TUN's MTU. Its frames, fed to
`Reassembly::accept` in any order and among any other packets, give the packet back.

- `fragment`: the source function; `frame` is one turn of its loop;
- `parse_frame`: what `accept` reads in a frame;
- `Progress`: the entry of the packet after some of its frames; one more frame adds its piece
  (`Progress.next`), and the last one yields the packet;
- `fragment_roundtrip`: the result.
-/

namespace Clyntis.Core.Ipv6

open Lib Net List Function Table AList

variable {asm : Assembler}

/-! ## The function -/

/-- Why a packet is not fragmented. -/
inductive FragmentError where
  /-- "IPv6 packet/MTU limit" -/
  | limit
  /-- smoltcp's `wire::Error` -/
  | malformed
  /-- "unexpected generated IPv6 extension headers" -/
  | extensionHeaders
  deriving DecidableEq, Repr

variable {packet bytes : Bytes} {offset : Nat}

/-- The size of the payload of every frame but the last. -/
def stepOf (mtu : Nat) : Nat := (mtu - 48) / 8 * 8

/-- How many frames a payload needs (`payload.chunks(step)`). -/
def countOf (step : Nat) (payload : Bytes) : Nat := (payload.length + (step - 1)) / step

/-- The payload of one frame. -/
def chunk (step : Nat) (payload : Bytes) (index : Nat) : Bytes :=
  (payload.drop (index * step)).take step

/-- The first 40 bytes of a frame with this much after them. -/
def frameHead (bytes : Bytes) (length : Nat) : Bytes :=
  withLength ((bytes.take 40).set 6 44) length

/-- `Ipv6FragmentRepr::emit`, without the reserved bits. -/
def fragmentHeader (fragOffset : Nat) (moreFrags : Bool) (ident : Nat) : Bytes :=
  beBytes 2 (fragOffset % 8192 * 8 + moreFrags.toNat) ++ beBytes 4 ident

/-- Whether more frames follow one. -/
def moreAfter (step : Nat) (payload : Bytes) (index : Nat) : Bool :=
  decide (index * step + (chunk step payload index).length < payload.length)

/-- What follows the first 40 bytes of a frame. -/
def frameTail (bytes : Bytes) (step ident : Nat) (payload : Bytes) (index : Nat) : Bytes :=
  [bytes.getD 6 0, 0] ++
    fragmentHeader (index * step / 8 % 65536) (moreAfter step payload index) ident ++
    chunk step payload index

/-- One turn of the loop of `fragment`. -/
def frame (bytes : Bytes) (step ident : Nat) (payload : Bytes) (index : Nat) : Bytes :=
  frameHead bytes (8 + (chunk step payload index).length) ++
    frameTail bytes step ident payload index

/-- `fragment`. -/
def fragment (bytes : Bytes) (mtu ident : Nat) : Except FragmentError (List Bytes) :=
  if bytes.length ≤ mtu ∨ bytes.head?.all (fun b : UInt8 => b >>> 4 != 6) then .ok [bytes]
  else if ¬ (1280 ≤ mtu ∧ bytes.length ≤ maxPacket) then .error .limit
  else if !checked bytes then .error .malformed
  else if bytes.getD 6 0 ≠ 17 ∧ bytes.getD 6 0 ≠ 6 ∧ bytes.getD 6 0 ≠ 58 then
    .error .extensionHeaders
  else
    let payload := (bytes.drop 40).take (payloadLen bytes)
    .ok ((List.range (countOf (stepOf mtu) payload)).map
      (frame bytes (stepOf mtu) ident payload))

/-! ## What `accept` reads in the packet and in its frames -/

/-- A packet that is its header and its payload, carries UDP, TCP or ICMPv6 and has no extension
headers. -/
structure WellFormed (packet : Bytes) : Prop where
  version : packet.head?.map (fun b : UInt8 => b >>> 4) = some 6
  header : 40 ≤ packet.length
  length_eq : packet.length = 40 + payloadLen packet
  length_le : packet.length ≤ 65535
  transport : packet.getD 6 0 = 17 ∨ packet.getD 6 0 = 6 ∨ packet.getD 6 0 = 58

/-- A packet by the parts of its header: the first four bytes, the payload length, the next
header and what follows it. -/
def assembled (first : Fin 4 → UInt8) (length : Nat) (next : UInt8) (rest : Bytes) : Bytes :=
  first 0 :: first 1 :: first 2 :: first 3 :: (beBytes 2 length ++ next :: rest)

theorem payloadLen_assembled (first : Fin 4 → UInt8) (length : Nat) (next : UInt8)
    (rest : Bytes) : payloadLen (assembled first length next rest) = length % 65536 :=
  beNat_beBytes 2 length

theorem WellFormed.assembled (h : WellFormed packet) :
    ∃ first,
    packet = assembled first (packet.drop 40).length (packet.getD 6 0) (packet.drop 7) := by
  have hheader := h.header
  have hlength := h.length_eq
  rcases packet with _ | ⟨a, _ | ⟨b, _ | ⟨c, _ | ⟨d, _ | ⟨x, _ | ⟨y, _ | ⟨next, rest⟩⟩⟩⟩⟩⟩⟩
  iterate 7 · simp at hheader
  have hbytes : beBytes 2 (payloadLen (a :: b :: c :: d :: x :: y :: next :: rest)) = [x, y] :=
    beBytes_beNat [x, y]
  refine ⟨[a, b, c, d].get, ?_⟩
  rw [length_drop, Nat.sub_eq_of_eq_add' hlength, Ipv6.assembled, hbytes]
  rfl

/-- Reading a packet without extension headers. -/
theorem parse_of_header
    (hversion : bytes.head?.map (fun b : UInt8 => b >>> 4) = some 6) (hheader : 40 ≤ bytes.length)
    (hlength : bytes.length = 40 + payloadLen bytes)
    (hnext : bytes.getD 6 0 ≠ 0 ∧ bytes.getD 6 0 ≠ 60 ∧ bytes.getD 6 0 ≠ 43) :
    parse bytes =
      if bytes.getD 6 0 ≠ 44 then .ok (.passed bytes) else parseFragment bytes 40 6 := by
  cases bytes with
  | nil => cases hversion
  | cons first rest =>
    have hfirst : first >>> 4 = 6 := by simpa using hversion
    have hchecked : checked (first :: rest) = true := by
      simp only [checked, Bool.and_eq_true, decide_eq_true_eq]
      omega
    have hext : extensions 8 (first :: rest) ((first :: rest).getD 6 0) 40 6 =
        some ((first :: rest).getD 6 0, 40, 6) := by
      unfold extensions
      rw [if_neg (by tauto)]
    unfold parse
    simp only [hfirst, hchecked, Bool.not_true, Bool.false_eq_true, if_false, ne_eq,
      not_true_eq_false]
    rw [getRange, if_pos ⟨Nat.zero_le _, by omega⟩, drop_zero, take_of_length_le (by omega)]
    dsimp only
    rw [index_ok (by omega), Exec.ok_bind, show (default : UInt8) = 0 from rfl, hext]

/-- A packet that is not fragmented passes. -/
theorem WellFormed.accept (h : WellFormed packet) (r : Reassembly asm)
    (now : Nat) : r.accept packet now = .ok (some (.borrowed packet), r) := by
  have htransport := h.transport
  have hparse : parse packet = .ok (.passed packet) := by
    rw [parse_of_header h.version h.header h.length_eq (by
      rcases htransport with h | h | h <;> rw [h] <;> decide), if_pos]
    rcases htransport with h | h | h <;> rw [h] <;> decide
  unfold Reassembly.accept
  rw [hparse]
  rfl

/-- The key of the fragments of a packet. -/
def keyOf (packet : Bytes) (ident : Nat) : Key :=
  ⟨(packet.drop 8).take 16, (packet.drop 24).take 16, ident⟩

/-- One frame of a packet, as `accept` reads it. -/
def fragmentOf (packet : Bytes) (step ident index : Nat) : Fragment where
  bytes := frame packet step ident (packet.drop 40) index
  offset := 40
  previous := 6
  next := packet.getD 6 0
  key := keyOf packet ident
  start := index * step
  more := moreAfter step (packet.drop 40) index
  payload := chunk step (packet.drop 40) index

section Frames

variable {step ident index : Nat}

theorem length_fragmentHeader (fragOffset : Nat) (moreFrags : Bool) (ident : Nat) :
    (fragmentHeader fragOffset moreFrags ident).length = 6 := by
  simp [fragmentHeader]

theorem length_chunk (step : Nat) (payload : Bytes) (index : Nat) :
    (chunk step payload index).length = min step (payload.length - index * step) := by
  simp [chunk]

section Parts

variable {first : Fin 4 → UInt8}
  (hp : packet = assembled first (packet.drop 40).length (packet.getD 6 0) (packet.drop 7))

include hp

theorem take_header : packet.take 40 =
    assembled first (packet.drop 40).length (packet.getD 6 0) ((packet.drop 7).take 33) :=
  congrArg (List.take 40) hp

theorem frameHead_eq (length : Nat) :
    frameHead packet length = assembled first length 44 ((packet.drop 7).take 33) := by
  rw [frameHead, take_header hp]
  rfl

/-- A frame differs from the packet in its length, its next header and what follows. -/
theorem frame_eq (payload : Bytes) : frame packet step ident payload index =
    assembled first (8 + (chunk step payload index).length) 44
      ((packet.drop 7).take 33 ++ frameTail packet step ident payload index) := by
  rw [frame, frameHead_eq hp]
  rfl

end Parts

section

variable (h : WellFormed packet)

include h

theorem length_addresses : ((packet.drop 7).take 33).length = 33 := by
  have hheader := h.header
  rw [length_take, length_drop]
  omega

theorem length_frameHead (length : Nat) : (frameHead packet length).length = 40 := by
  obtain ⟨first, hp⟩ := h.assembled
  rw [frameHead_eq hp]
  exact congrArg (· + 7) (length_addresses h)

theorem length_frame (step ident : Nat) (payload : Bytes) (index : Nat) :
    (frame packet step ident payload index).length = 48 + (chunk step payload index).length := by
  simp [frame, frameTail, length_frameHead h, length_fragmentHeader]
  omega

theorem drop_frame (payload : Bytes) (i : Nat) :
    (frame packet step ident payload index).drop (40 + i) =
      (frameTail packet step ident payload index).drop i := by
  rw [frame, ← drop_drop, drop_left' (length_frameHead h _)]

/-- The addresses of a frame are the packet's. -/
theorem slice_frame {payload : Bytes} {a n : Nat} (hn : a + n ≤ 33) :
    ((frame packet step ident payload index).drop (a + 7)).take n =
      (packet.drop (a + 7)).take n := by
  obtain ⟨first, hp⟩ := h.assembled
  have hlen := length_addresses h
  rw [frame_eq hp]
  show (((packet.drop 7).take 33 ++ _).drop a).take n = _
  rw [drop_append_of_le_length (by omega), take_append_of_le_length (by rw [length_drop]; omega),
    drop_take, take_take, drop_drop, Nat.min_eq_left (by omega), Nat.add_comm]

theorem take_frame (payload : Bytes) :
    (frame packet step ident payload index).take 40 =
      frameHead packet (8 + (chunk step payload index).length) :=
  take_left' (length_frameHead h _)

/-- The header of a frame, with the transport header and the whole length, is the packet's. -/
theorem rewritten_frameHead (length : Nat) :
    rewritten (frameHead packet length) 6 (packet.getD 6 0) (packet.drop 40).length =
      packet.take 40 := by
  obtain ⟨first, hp⟩ := h.assembled
  rw [rewritten, length_frameHead h, Nat.add_sub_cancel_left, frameHead_eq hp, take_header hp]
  rfl

end

/-- The offset field holds the offset of a chunk, and the flag beside it. -/
theorem word_of_offset (ident : Nat) (more : Bool) (hdvd : 8 ∣ offset)
    (hlt : offset < 65536) :
    beNat ((fragmentHeader (offset / 8 % 65536) more ident).take 2) = offset + more.toNat := by
  have hmore : more.toNat ≤ 1 := Bool.toNat_le _
  unfold fragmentHeader
  rw [take_append_of_le_length (by simp), take_of_length_le (by simp), beNat_beBytes]
  omega

/-- Offset and flag are read back. -/
theorem offset_of_word (more : Bool) (hdvd : 8 ∣ offset) :
    (offset + more.toNat) / 8 * 8 = offset ∧ ((offset + more.toNat) % 2 == 1) = more := by
  cases more with
  | false =>
    refine ⟨by rw [Bool.toNat_false]; omega, beq_eq_false_iff_ne.mpr ?_⟩
    rw [Bool.toNat_false]
    omega
  | true =>
    refine ⟨by rw [Bool.toNat_true]; omega, beq_iff_eq.mpr ?_⟩
    rw [Bool.toNat_true]
    omega

theorem ident_of_header {fragOffset : Nat} {more : Bool} (hident : ident < 2 ^ 32) :
    beNat ((fragmentHeader fragOffset more ident).drop 2) = ident := by
  unfold fragmentHeader
  rw [drop_append_of_le_length (by simp), drop_eq_nil_of_le (by simp), nil_append, beNat_beBytes]
  exact Nat.mod_eq_of_lt hident

/-- The header of a frame announces a fragment. -/
theorem parse_frame_header (h : WellFormed packet) (payload : Bytes)
    (hpayload : payload.length ≤ 65495) :
    parse (frame packet step ident payload index) =
      parseFragment (frame packet step ident payload index) 40 6 := by
  obtain ⟨first, hp⟩ := h.assembled
  have hframe := length_frame h step ident payload index
  have hclen := length_chunk step payload index
  have hnext : (frame packet step ident payload index).getD 6 0 = 44 := by
    rw [frame_eq hp]
    rfl
  have hversion : (frame packet step ident payload index).head?.map
      (fun b : UInt8 => b >>> 4) = some 6 := by
    have hversion := h.version
    rw [hp] at hversion
    rw [frame_eq hp]
    exact hversion
  have hlength : (frame packet step ident payload index).length =
      40 + payloadLen (frame packet step ident payload index) := by
    rw [hframe, frame_eq hp, payloadLen_assembled]
    omega
  rw [parse_of_header hversion (by omega) hlength (by rw [hnext]; decide), hnext, if_neg (by simp)]

/-- **What `accept` reads in a frame** is the chunk it was made for. -/
theorem parse_frame (h : WellFormed packet) (hstep : 8 ∣ step) (hident : ident < 2 ^ 32)
    (hindex : index * step < (packet.drop 40).length) :
    parse (frame packet step ident (packet.drop 40) index) =
      .ok (.fragment (fragmentOf packet step ident index)) := by
  have hpayload : (packet.drop 40).length ≤ 65495 := by
    have := h.length_le
    rw [length_drop]
    omega
  have hframe := length_frame h step ident (packet.drop 40) index
  have hfields : ((frame packet step ident (packet.drop 40) index).drop 42).take 6 =
      fragmentHeader (index * step / 8 % 65536) (moreAfter step (packet.drop 40) index) ident := by
    rw [drop_frame h _ 2]
    simp [frameTail, length_fragmentHeader]
  have hnext : (frame packet step ident (packet.drop 40) index).getD 40 0 = packet.getD 6 0 := by
    rw [getD_eq_getElem?_getD, show (40 : Nat) = 40 + 0 from rfl, ← getElem?_drop, drop_frame h _ 0]
    simp [frameTail]
  have hchunk : (frame packet step ident (packet.drop 40) index).drop 48 =
      chunk step (packet.drop 40) index := by
    rw [drop_frame h _ 8]
    simp [frameTail, length_fragmentHeader]
  have hother : packet.getD 6 0 ≠ 44 := by
    rcases h.transport with h | h | h <;> rw [h] <;> decide
  have hdvd : 8 ∣ index * step := Dvd.dvd.mul_left hstep index
  obtain ⟨hstart, hflag⟩ := offset_of_word (moreAfter step (packet.drop 40) index) hdvd
  rw [parse_frame_header h _ hpayload]
  unfold parseFragment
  rw [getRange, if_pos ⟨by omega, by omega⟩]
  dsimp only
  rw [hfields, index_ok (by omega), show (default : UInt8) = 0 from rfl, hnext, Exec.ok_bind,
    if_neg hother, getFrom, if_pos (by omega), hchunk, slice_ok (by decide) (by omega),
    slice_ok (by decide) (by omega), slice_frame h (by decide), slice_frame h (by decide),
    word_of_offset ident _ hdvd (by omega), ident_of_header hident, hstart, hflag]
  rfl

end Frames

/-! ## The chunks of a payload -/

section

variable {packet payload : Bytes} {step ident i j x : Nat}

/-- The piece of the payload that a chunk is. -/
def pieceOf (step : Nat) (payload : Bytes) (i : Nat) : Nat × Bytes :=
  (i * step, chunk step payload i)

theorem stop_pieceOf_le_mul : Pieces.stop (pieceOf step payload i) ≤ (i + 1) * step := by
  unfold Pieces.stop pieceOf
  rw [length_chunk, Nat.succ_mul]
  omega

theorem disjoint_pieceOf (hne : i ≠ j) :
    Pieces.Disjoint (pieceOf step payload i) (pieceOf step payload j) := by
  rcases Nat.lt_or_gt_of_ne hne with hlt | hlt
  · exact .inl (stop_pieceOf_le_mul.trans (Nat.mul_le_mul_right step hlt))
  · exact .inr (stop_pieceOf_le_mul.trans (Nat.mul_le_mul_right step hlt))

theorem holds_pieceOf : Pieces.Holds payload (pieceOf step payload i) := by
  unfold Pieces.Holds pieceOf chunk
  simp

variable (hpos : 0 < step)

include hpos

theorem lt_countOf : i < countOf step payload ↔ i * step < payload.length := by
  unfold countOf
  rw [← Nat.succ_le_iff, Nat.le_div_iff_mul_le hpos, Nat.succ_mul]
  omega

theorem chunk_ne_nil (hi : i < countOf step payload) : chunk step payload i ≠ [] := by
  rw [← length_pos_iff, length_chunk]
  have := (lt_countOf hpos).mp hi
  omega

/-- Chunks before the last have the full size. -/
theorem length_chunk_of_lt (hi : i + 1 < countOf step payload) :
    (chunk step payload i).length = step ∧ i * step + step < payload.length := by
  have hlt := (lt_countOf hpos).mp hi
  rw [Nat.succ_mul] at hlt
  rw [length_chunk]
  omega

theorem stop_chunk_of_last (hi : i + 1 = countOf step payload) :
    i * step + (chunk step payload i).length = payload.length := by
  have hlt := (lt_countOf hpos).mp (show i < countOf step payload by omega)
  have hge : ¬ (i + 1) * step < payload.length := fun h => by
    have := (lt_countOf hpos).mpr h
    omega
  rw [Nat.succ_mul] at hge
  rw [length_chunk]
  omega

theorem stop_pieceOf_le (hi : i < countOf step payload) :
    Pieces.stop (pieceOf step payload i) ≤ payload.length := by
  have := (lt_countOf hpos).mp hi
  unfold Pieces.stop pieceOf
  rw [length_chunk]
  omega

/-- Every place of the payload is in the chunk with its number. -/
theorem mem_pieceOf (hx : x < payload.length) :
    x / step < countOf step payload ∧ (pieceOf step payload (x / step)).1 ≤ x ∧
      x < Pieces.stop (pieceOf step payload (x / step)) := by
  have hle := Nat.div_mul_le_self x step
  have hlt := Nat.lt_div_mul_add (a := x) hpos
  refine ⟨(lt_countOf hpos).mpr (by omega), hle, ?_⟩
  unfold Pieces.stop pieceOf
  rw [length_chunk]
  show x < x / step * step + _
  omega

/-- Some of the chunks cover the payload exactly when they are all of them. -/
theorem covers_pieceOf_iff {taken : List Nat} (htaken : ∀ k ∈ taken, k < countOf step payload) :
    (∀ x, Pieces.Covers (taken.map (pieceOf step payload)) x ↔ x < payload.length) ↔
      ∀ k < countOf step payload, k ∈ taken := by
  constructor
  · intro hcover k hk
    obtain ⟨p, hp, hp₁, hp₂⟩ := (hcover (k * step)).mpr ((lt_countOf hpos).mp hk)
    obtain ⟨k', hk', rfl⟩ := mem_map.mp hp
    have hlt := Nat.lt_of_lt_of_le hp₂ stop_pieceOf_le_mul
    have hle : k' * step ≤ k * step := hp₁
    obtain rfl : k' = k := by
      have h₁ := Nat.le_of_mul_le_mul_right hle hpos
      have h₂ := Nat.lt_of_mul_lt_mul_right hlt
      omega
    exact hk'
  · intro hall x
    constructor
    · rintro ⟨p, hp, -, hx⟩
      obtain ⟨k, hk, rfl⟩ := mem_map.mp hp
      exact Nat.lt_of_lt_of_le hx (stop_pieceOf_le hpos (htaken k hk))
    · intro hx
      obtain ⟨hk, hx₁, hx₂⟩ := mem_pieceOf hpos hx
      exact ⟨_, mem_map_of_mem (hall _ hk), hx₁, hx₂⟩

end

/-! ## The entry of the packet -/

section

variable {step ident i : Nat} {value : Assembly asm} {taken : List Nat}

/-- The entry after the frames with these numbers. -/
structure Entry (packet : Bytes) (step : Nat) (value : Assembly asm) (taken : List Nat) : Prop where
  rep : value.Rep (taken.map (pieceOf step (packet.drop 40)))
  rejected : value.rejected = false
  length : value.prefixBytes.length = 40
  previous : value.previous = 6
  next : value.next = packet.getD 6 0
  head : 0 ∈ taken → ∃ length, value.prefixBytes = frameHead packet length
  total : value.total =
    if countOf step (packet.drop 40) - 1 ∈ taken then some (packet.drop 40).length else none

/-- The packet is cut into several frames. -/
structure Cut (packet : Bytes) (step ident : Nat) : Prop where
  wellFormed : WellFormed packet
  pos : 0 < step
  aligned : 8 ∣ step
  ident_lt : ident < 2 ^ 32
  many : 1 < countOf step (packet.drop 40)

variable (h : Cut packet step ident) (hi : i < countOf step (packet.drop 40))

include h hi

/-- A frame says that more follow unless it is the last one. -/
theorem more_fragmentOf :
    (fragmentOf packet step ident i).more = decide (i + 1 < countOf step (packet.drop 40)) := by
  show decide _ = decide _
  refine decide_eq_decide.mpr ?_
  constructor
  · by_contra hlast
    have := stop_chunk_of_last h.pos (show i + 1 = countOf step (packet.drop 40) by omega)
    omega
  · intro hlt
    have := length_chunk_of_lt h.pos hlt
    omega

theorem Cut.parse_eq : parse (frame packet step ident (packet.drop 40) i) =
    .ok (.fragment (fragmentOf packet step ident i)) :=
  parse_frame h.wellFormed h.aligned h.ident_lt ((lt_countOf h.pos).mp hi)

theorem wellFormed_fragmentOf : (fragmentOf packet step ident i).WellFormed :=
  wellFormed_of_parse (h.parse_eq hi)

/-- A frame of several is offered to the queue. -/
theorem Cut.joins (now : Nat) :
    (Event.packet (frame packet step ident (packet.drop 40) i) now).joins =
      some (fragmentOf packet step ident i) := by
  have hatomic : (fragmentOf packet step ident i).atomic = false := by
    unfold Fragment.atomic
    rw [more_fragmentOf h hi, Bool.and_eq_false_iff]
    by_cases hlast : i + 1 < countOf step (packet.drop 40)
    · exact .inl (by simp [hlast])
    · refine .inr (beq_eq_false_iff_ne.mpr ?_)
      have hmany := h.many
      exact Nat.mul_ne_zero (by omega) (by have := h.pos; omega)
  simp [Event.joins, h.parse_eq hi, hatomic]

/-- The entry that the first frame makes. -/
theorem Entry.fresh (now : Nat) :
    Entry packet step ((fragmentOf packet step ident i).fresh now : Assembly asm) [] where
  rep := (wellFormed_fragmentOf h hi).rep_fresh (by decide : 40 < maxPacket) now
  rejected := rfl
  length := by
    show ((frame packet step ident (packet.drop 40) i).take 40).length = 40
    rw [take_frame h.wellFormed, length_frameHead h.wellFormed]
  previous := rfl
  next := rfl
  head hmem := by cases hmem
  total := by simp [Fragment.fresh]

variable (hentry : Entry packet step value taken)
  (htaken : ∀ k ∈ taken, k < countOf step (packet.drop 40)) (hnew : i ∉ taken)

include hentry htaken hnew

/-- A frame that has not come yet belongs to the entry. -/
theorem Entry.valid : value.invalid (fragmentOf packet step ident i) = false := by
  have hmore := more_fragmentOf h hi
  have hcover : ∀ x, Runs.Covers value.runs x → ∃ k ∈ taken,
      (pieceOf step (packet.drop 40) k).1 ≤ x ∧
        x < Pieces.stop (pieceOf step (packet.drop 40) k) := by
    intro x hx
    obtain ⟨p, hp, hx₁, hx₂⟩ := (hentry.rep.covers x).mp hx
    obtain ⟨k, hk, rfl⟩ := mem_map.mp hp
    exact ⟨k, hk, hx₁, hx₂⟩
  rw [← Bool.not_eq_true, Assembly.invalid_iff]
  rintro (⟨x, hx₁, hx₂, hx⟩ | ⟨hmore', hmis⟩ | hbad)
  · -- the chunks are disjoint
    obtain ⟨k, hk, hk₁, hk₂⟩ := hcover x hx
    have hne : i ≠ k := fun heq => hnew (heq ▸ hk)
    have hx₁' : (pieceOf step (packet.drop 40) i).1 ≤ x := hx₁
    have hx₂' : x < Pieces.stop (pieceOf step (packet.drop 40) i) := hx₂
    have hdisjoint : Pieces.Disjoint (pieceOf step (packet.drop 40) i)
        (pieceOf step (packet.drop 40) k) := disjoint_pieceOf hne
    rcases hdisjoint with hdis | hdis
    · omega
    · omega
  · -- a chunk before the last has the full size
    rw [hmore, decide_eq_true_eq] at hmore'
    refine hmis ?_
    show 8 ∣ (chunk step (packet.drop 40) i).length
    rw [(length_chunk_of_lt h.pos hmore').1]
    exact h.aligned
  · rcases hbad with hnil | hlong | hoffset | hprevious | hnext | ⟨total, htotal, hend⟩ |
      ⟨hlast, x, hx, hcov⟩
    · exact chunk_ne_nil h.pos hi hnil
    · have hsize := hentry.rep.size
      have hstop : (fragmentOf packet step ident i).stop ≤ (packet.drop 40).length :=
        stop_pieceOf_le h.pos hi
      have hlen := hentry.length
      have hle := h.wellFormed.length_le
      rw [length_drop] at hstop
      unfold maxPacket at hsize
      omega
    · exact hoffset hentry.length
    · exact hprevious hentry.previous
    · exact hnext hentry.next
    · -- the end is known from the last frame, and this is another one
      rw [hentry.total] at htotal
      split at htotal
      · next hmem =>
        obtain rfl := Option.some.inj htotal
        have hlt : i + 1 < countOf step (packet.drop 40) := by
          rcases Nat.lt_or_ge (i + 1) (countOf step (packet.drop 40)) with hlt | hge
          · exact hlt
          · refine absurd hmem ?_
            rw [show countOf step (packet.drop 40) - 1 = i by omega]
            exact hnew
        rw [hmore, if_pos (by simpa using hlt)] at hend
        have hstop := length_chunk_of_lt h.pos hlt
        have hend' : (packet.drop 40).length ≤ i * step + (chunk step (packet.drop 40) i).length :=
          hend
        omega
      · cases htotal
    · rw [hmore, decide_eq_false_iff_not] at hlast
      have hstop := stop_chunk_of_last h.pos (show i + 1 = countOf step (packet.drop 40) by omega)
      obtain ⟨k, hk, -, hk₂⟩ := hcover x hcov
      have hle := stop_pieceOf_le h.pos (htaken k hk)
      have hx' : i * step + (chunk step (packet.drop 40) i).length ≤ x := hx
      omega

/-- **One more frame.** -/
theorem Entry.take {received : asm.State}
    (hadd : asm.add value.received (i * step) (chunk step (packet.drop 40) i).length
      = some received) :
    Entry packet step (value.taken received (fragmentOf packet step ident i)) (i :: taken) where
  rep := (hentry.rep.take (wellFormed_fragmentOf h hi) (hentry.valid h hi htaken hnew) hadd).2
  rejected := hentry.rejected
  length := by
    show List.length (ite _ ((frame packet step ident (packet.drop 40) i).take 40) _) = 40
    split
    · rw [take_frame h.wellFormed, length_frameHead h.wellFormed]
    · exact hentry.length
  previous := hentry.previous
  next := hentry.next
  head hmem := by
    show ∃ length, ite (i * step = 0) ((frame packet step ident (packet.drop 40) i).take 40) _ = _
    split
    · exact ⟨_, take_frame h.wellFormed _⟩
    · next hstart =>
      rcases mem_cons.mp hmem with rfl | hmem
      · exact absurd (Nat.zero_mul step) hstart
      · exact hentry.head hmem
  total := by
    show (if (fragmentOf packet step ident i).more then value.total else
      some (i * step + (chunk step (packet.drop 40) i).length)) = _
    rw [more_fragmentOf h hi]
    by_cases hlt : i + 1 < countOf step (packet.drop 40)
    · have hne : countOf step (packet.drop 40) - 1 ≠ i := by omega
      simp [hlt, hentry.total, hne]
    · have heq : countOf step (packet.drop 40) - 1 = i := by omega
      have hstop := stop_chunk_of_last h.pos (show i + 1 = countOf step (packet.drop 40) by omega)
      simp [hlt, heq, hstop]

omit hi hnew

/-- The entry is complete when every frame has come. -/
theorem Entry.complete_iff :
    value.Complete ↔ ∀ k < countOf step (packet.drop 40), k ∈ taken := by
  constructor
  · rintro ⟨total, htotal, hfront⟩
    have hcover := hentry.rep.covers_total htotal hfront
    rw [hentry.total] at htotal
    split at htotal
    · obtain rfl := Option.some.inj htotal
      exact (covers_pieceOf_iff h.pos htaken).mp hcover
    · cases htotal
  · intro hall
    have hcover := (covers_pieceOf_iff h.pos htaken).mpr hall
    refine ⟨(packet.drop 40).length, ?_, ?_⟩
    · have hmany := h.many
      rw [hentry.total, if_pos (hall _ (by omega))]
    · rw [asm.peekFront_eq]
      exact Runs.front_eq (asm.separated value.received) fun x =>
        (hentry.rep.covers x).trans (hcover x)

/-- A complete entry is the packet. -/
theorem Entry.packet_eq (hall : ∀ k < countOf step (packet.drop 40), k ∈ taken) :
    rewritten value.prefixBytes value.previous value.next (packet.drop 40).length ++
      value.bytes.take (packet.drop 40).length = packet := by
  have hcover := (covers_pieceOf_iff h.pos htaken).mpr hall
  obtain ⟨us, hperm, htiles⟩ := Pieces.tiles_of_cover (pieceOf step (packet.drop 40))
    hentry.rep.disjoint (fun k hk => chunk_ne_nil h.pos (htaken k hk)) hcover
  -- the buffer and the payload hold the same tiling
  have hbuffer := Pieces.take_of_tiles
    (fun p hp => hentry.rep.holds p ((hperm.map _).mem_iff.mp hp)) htiles
  have hpayload : (packet.drop 40).take _ = _ := Pieces.take_of_tiles (fun p hp => by
    obtain ⟨k, -, rfl⟩ := mem_map.mp hp
    exact holds_pieceOf) htiles
  obtain ⟨length, hhead⟩ := hentry.head (hall 0 (Nat.lt_trans Nat.one_pos h.many))
  rw [hentry.previous, hentry.next, hhead, rewritten_frameHead h.wellFormed, hbuffer, ← hpayload,
    take_length, take_append_drop]

end

/-! ## Feeding the frames -/

/-- The packet of an event that offers the queue a fragment of this key. -/
def Event.own (key : Key) (e : Event) : Option Bytes :=
  match e with
  | .packet bytes _ => if e.joins.any fun f => f.key == key then some bytes else none
  | .expire _ => none

/-- What the events of this key return. -/
def ownOutputs (key : Key) (events : List Event) (outs : List (Option Cow)) : List (Option Cow) :=
  (events.zip outs).filterMap fun p => if (p.1.own key).isSome then some p.2 else none

/-- How many packets of other keys are pending. -/
def Reassembly.others (r : Reassembly asm) (key : Key) : Nat :=
  r.pending.count fun k _ => k != key

/-- Whenever an event of this key comes, fewer than 64 other packets are pending. -/
def Room (key : Key) (r : Reassembly asm) (events : List Event) : Prop :=
  ∀ (before : List Event) (e : Event) (after : List Event) (outs : List (Option Cow))
    (r' : Reassembly asm), events = before ++ e :: after → (e.own key).isSome →
    r.run before = .ok (outs, r') → r'.others key < 64

section Feeding

variable {step ident i : Nat} {key : Key} {r r' : Reassembly asm} {e : Event}
  {events : List Event} {out : Option Cow}

theorem Room.head (h : Room key r (e :: events)) (hown : (e.own key).isSome) :
    r.others key < 64 := h [] e events [] r rfl hown rfl

theorem Reassembly.run_cons (hstep : r.step e = .ok (out, r')) :
    r.run (e :: events) = (r'.run events).map fun rest => (out :: rest.1, rest.2) :=
  feed_cons hstep

theorem Room.tail (h : Room key r (e :: events)) (hstep : r.step e = .ok (out, r')) :
    Room key r' events := by
  intro before e' after outs r'' hevents hown hrun
  refine h (e :: before) e' after (out :: outs) r'' (by rw [hevents]; rfl) hown ?_
  rw [Reassembly.run_cons hstep, hrun]
  rfl

theorem own_eq_none (h : e.own key = none) : ∀ f, e.joins = some f → f.key ≠ key := by
  intro f hjoins hkey
  obtain ⟨bytes, he, -, -⟩ := Event.joins_eq_some hjoins
  rw [he] at h hjoins
  simp [Event.own, hjoins, hkey] at h

theorem own_eq_some (h : e.own key = some bytes) : e = .packet bytes e.time := by
  cases e with
  | expire now => cases h
  | packet bytes' now =>
    unfold Event.own at h
    dsimp only at h
    split at h
    · obtain rfl := Option.some.inj h
      rfl
    · cases h

theorem Reassembly.notMem_expire (hkey : key ∉ r.pending) (now : Nat) :
    key ∉ (r.expire now).pending := by
  intro hmem
  obtain ⟨value, hvalue⟩ := mem_iff_lookup.mp hmem
  exact hkey (mem_iff_lookup.mpr ⟨value, (lookup_expire.mp hvalue).1⟩)

/-- An event of another key makes no entry for this one. -/
theorem Reassembly.notMem_step (hother : e.own key = none) (hkey : key ∉ r.pending)
    (hstep : r.step e = .ok (out, r')) : key ∉ r'.pending := by
  intro hmem
  obtain ⟨value, hvalue⟩ := mem_iff_lookup.mp hmem
  rcases lookup_step_of_ne (own_eq_none hother) hstep with h | h
  · exact hkey (mem_iff_lookup.mpr ⟨value, h.symm.trans hvalue⟩)
  · exact notMem_expire hkey e.time (mem_iff_lookup.mpr ⟨value, h.symm.trans hvalue⟩)

/-- A queue that is fed with packets of one key only has room for them. -/
theorem Room.of_alone (hpending : ∀ k, k ≠ key → k ∉ r.pending)
    (hevents : ∀ e ∈ events, ∀ k, k ≠ key → e.own k = none) : Room key r events := by
  intro before
  induction before generalizing r events with
  | nil =>
    intro e after outs r' _ _ hrun
    cases hrun
    have hzero : r.others key = 0 := by
      refine count_eq_zero.mpr fun k value hlookup => ?_
      by_contra hne
      exact hpending k (by simpa using hne) (mem_iff_lookup.mpr ⟨value, hlookup⟩)
    omega
  | cons e₀ before ih =>
    rintro e after outs r' rfl hown hrun
    obtain ⟨out, r₁, outs', hstep, hrest, -⟩ := feed_cons_inv hrun
    exact ih (fun k hk => Reassembly.notMem_step (hevents e₀ mem_cons_self k hk)
      (hpending k hk) hstep) (fun e' he' => hevents e' (mem_cons_of_mem _ he'))
      e after outs' r' rfl hown hrest

theorem ownOutputs_eq_nil (h : events.filterMap (Event.own key) = [])
    (outs : List (Option Cow)) : ownOutputs key events outs = [] := by
  unfold ownOutputs
  rw [filterMap_eq_nil_iff] at h ⊢
  intro p hp
  have hnone := h p.1 (of_mem_zip hp).1
  simp [hnone]

/-- What the queue has of the packet after these frames. -/
def Progress (packet : Bytes) (step ident start : Nat) (r : Reassembly asm)
    (taken : List Nat) (runs : List (Nat × Nat)) : Prop :=
  (taken = [] ∧ runs = [] ∧ keyOf packet ident ∉ r.pending) ∨
  ∃ value, r.pending.lookup (keyOf packet ident) = some value ∧ start ≤ value.created ∧
    value.runs = runs ∧ Entry packet step value taken

/-- The runs after a frame has been received. -/
def addFrame (packet : Bytes) (step : Nat) (runs : List (Nat × Nat)) (i : Nat) : List (Nat × Nat) :=
  Runs.insert (i * step) (i * step + (chunk step (packet.drop 40) i).length) runs

variable {start now : Nat} {taken : List Nat} {runs : List (Nat × Nat)}

section

variable (hprogress : Progress packet step ident start r taken runs)
  (h : Cut packet step ident) (hi : i < countOf step (packet.drop 40)) (hstart : start ≤ now)
  (hnow : now < start + lifetime) (hroom : r.others (keyOf packet ident) < 64)

include hprogress h hi hstart hnow hroom

/-- A frame finds the entry of its packet, or makes it. -/
theorem Progress.enter :
    ∃ r₁ value, (r.expire now).enter (fragmentOf packet step ident i) now = .ok (some r₁) ∧
      r₁.pending.lookup (keyOf packet ident) = some value ∧ start ≤ value.created ∧
      value.runs = runs ∧ Entry packet step value taken := by
  have hf := wellFormed_fragmentOf h hi
  rcases hprogress with ⟨rfl, rfl, hnot⟩ | ⟨value, hvalue, hcreated, hruns, hentry⟩
  · have hexpire := Reassembly.notMem_expire hnot now
    have hsize : (r.expire now).pending.size < maxPackets := by
      have hcount : r.others (keyOf packet ident) = r.pending.size := by
        have hsplit := count_add_count_not
          (fun (k : Key) (_ : Assembly asm) => k != keyOf packet ident) r.pending
        have hzero : r.pending.count (fun k _ => !(k != keyOf packet ident)) = 0 := by
          refine count_eq_zero.mpr fun k value hvalue => ?_
          have hne : k ≠ keyOf packet ident := fun heq =>
            hnot (heq ▸ mem_iff_lookup.mpr ⟨value, hvalue⟩)
          simp [hne]
        unfold Reassembly.others
        omega
      have hle : (r.expire now).pending.size ≤ r.pending.size := length_filter_le _ _
      unfold maxPackets
      omega
    obtain ⟨hmem, -⟩ | ⟨-, hfull, -⟩ | ⟨-, -, -, henter⟩ := (r.expire now).enter_cases hf now
    · exact absurd hmem hexpire
    · rcases hfull with hfull | hfull
      · omega
      · exact absurd (show maxPacket ≤ 40 from hfull) (by decide)
    · refine ⟨_, _, henter, lookup_insert _, hstart, asm.iterData_new, ?_⟩
      exact .fresh h hi now
  · have hexpire : (r.expire now).pending.lookup (keyOf packet ident) = some value :=
      Reassembly.lookup_expire.mpr ⟨hvalue, by omega⟩
    have hmem : (fragmentOf packet step ident i).key ∈ (r.expire now).pending :=
      mem_iff_lookup.mpr ⟨value, hexpire⟩
    exact ⟨_, value, if_pos hmem, hexpire, hcreated, hruns, hentry⟩

/-- **One frame**: it is one more of those that have come; the last one yields the packet. -/
theorem Progress.next (htaken : ∀ k ∈ taken, k < countOf step (packet.drop 40)) (hnew : i ∉ taken)
    (hcapacity : (addFrame packet step runs i).length ≤ asm.capacity) :
    ∃ out r', r.step (.packet (frame packet step ident (packet.drop 40) i) now) = .ok (out, r') ∧
      if ∀ k < countOf step (packet.drop 40), k ∈ i :: taken then out = some (.owned packet)
      else out = none ∧
        Progress packet step ident start r' (i :: taken) (addFrame packet step runs i) := by
  obtain ⟨r₁, value, henter, hvalue, hcreated, hruns, hentry⟩ :=
    hprogress.enter h hi hstart hnow hroom
  have hf := wellFormed_fragmentOf h hi
  have hvalid := hentry.valid h hi htaken hnew
  have hsize : 0 < (chunk step (packet.drop 40) i).length :=
    length_pos_of_ne_nil (chunk_ne_nil h.pos hi)
  obtain ⟨received, hadd⟩ := Option.isSome_iff_exists.mp (asm.add_isSome hsize (hruns ▸ hcapacity))
  have hentry' := hentry.take h hi htaken hnew hadd
  have htaken' : ∀ k ∈ i :: taken, k < countOf step (packet.drop 40) := by
    intro k hk
    rcases mem_cons.mp hk with rfl | hk
    · exact hi
    · exact htaken k hk
  have hstep := Reassembly.step_of_joins (r := r) (h.joins hi now)
  by_cases hall : ∀ k < countOf step (packet.drop 40), k ∈ i :: taken
  · obtain ⟨total, htotal, hfront⟩ := (hentry'.complete_iff h htaken').mpr hall
    have hjoin := hentry.rep.join_complete hentry.rejected hf hvalid hadd htotal hfront
    have heq : total = (packet.drop 40).length := by
      have htotal' := hentry'.total
      rw [htotal, if_pos (hall _ (by omega))] at htotal'
      exact Option.some.inj htotal'
    have hpacket := hentry'.packet_eq h htaken' hall
    rw [heq] at hjoin
    change value.join (fragmentOf packet step ident i) = .ok (some (rewritten
      (value.taken received (fragmentOf packet step ident i)).prefixBytes
      (value.taken received (fragmentOf packet step ident i)).previous
      (value.taken received (fragmentOf packet step ident i)).next _ ++ _), none) at hjoin
    rw [hpacket] at hjoin
    refine ⟨_, _, hstep.trans (Reassembly.queue_of_join henter hvalue hjoin), ?_⟩
    rw [if_pos hall]
    rfl
  · have hincomplete := mt (hentry'.complete_iff h htaken').mp hall
    have hjoin := hentry.rep.join_incomplete hentry.rejected hf hvalid hadd hincomplete
    refine ⟨_, _, hstep.trans (Reassembly.queue_of_join henter hvalue hjoin), ?_⟩
    rw [if_neg hall]
    refine ⟨rfl, .inr ⟨_, Reassembly.lookup_put_some, hcreated, ?_, hentry'⟩⟩
    rw [← hruns]
    exact asm.iterData_of_add hsize hadd

end

/-- Another packet leaves the entry as it is. -/
theorem Progress.step_other (hprogress : Progress packet step ident start r taken runs)
    (hother : e.own (keyOf packet ident) = none) (hnow : e.time < start + lifetime)
    (hstep : r.step e = .ok (out, r')) : Progress packet step ident start r' taken runs := by
  rcases hprogress with ⟨htaken, hruns, hnot⟩ | ⟨value, hvalue, hcreated, hruns, hentry⟩
  · exact .inl ⟨htaken, hruns, Reassembly.notMem_step hother hnot hstep⟩
  · have halive : e.time - value.created < lifetime := by
      unfold lifetime at hnow ⊢
      omega
    refine .inr ⟨value, ?_, hcreated, hruns, hentry⟩
    exact Reassembly.lookup_step_of_alive (own_eq_none hother) hvalue halive hstep

/-- The frames that have not come yet, among other events, give the packet with the last of
them. -/
theorem Progress.feed {hist : List Event} {order : List Nat} (hinv : Inv hist r)
    (hprogress : Progress packet step ident start r taken runs) (h : Cut packet step ident)
    (hfed : events.filterMap (Event.own (keyOf packet ident)) =
      order.map (frame packet step ident (packet.drop 40)))
    (hperm : (taken ++ order).Perm (List.range (countOf step (packet.drop 40))))
    (hne : order ≠ [])
    (htime : ∀ e ∈ events, start ≤ e.time ∧ e.time < start + lifetime)
    (hroom : Room (keyOf packet ident) r events)
    (hruns : ∀ k, ((order.take k).foldl (addFrame packet step) runs).length ≤ asm.capacity) :
    ∃ outs r', r.run events = .ok (outs, r') ∧
      ownOutputs (keyOf packet ident) events outs =
        List.replicate (order.length - 1) none ++ [some (.owned packet)] := by
  induction events generalizing r hist taken runs order with
  | nil =>
    rw [filterMap_nil, eq_comm, map_eq_nil_iff] at hfed
    exact absurd hfed hne
  | cons e events ih =>
    have htime' : ∀ e' ∈ events, start ≤ e'.time ∧ e'.time < start + lifetime :=
      fun e' he' => htime e' (mem_cons_of_mem _ he')
    obtain ⟨hstart, hnow⟩ := htime e mem_cons_self
    obtain ⟨out, r₁, hstep, hinv₁, -⟩ := hinv.step e
    cases hown : e.own (keyOf packet ident) with
    | none =>
      rw [filterMap_cons_none hown] at hfed
      obtain ⟨outs, r', hrun, houts⟩ := ih hinv₁ (hprogress.step_other hown hnow hstep) hfed hperm
        hne htime' (hroom.tail hstep) hruns
      refine ⟨out :: outs, r', ?_, ?_⟩
      · rw [Reassembly.run_cons hstep, hrun]
        rfl
      · rw [← houts]
        simp [ownOutputs, hown]
    | some bytes =>
      rw [filterMap_cons_some hown] at hfed
      cases order with
      | nil => exact absurd rfl hne
      | cons i order =>
        obtain ⟨rfl, hrest⟩ := List.cons.inj hfed
        have he := own_eq_some hown
        have hmem : ∀ k, k ∈ taken ++ i :: order ↔ k < countOf step (packet.drop 40) := fun k =>
          hperm.mem_iff.trans mem_range
        have hnodup : (taken ++ i :: order).Nodup := hperm.nodup_iff.mpr nodup_range
        have hperm' : (i :: taken ++ order).Perm (List.range (countOf step (packet.drop 40))) :=
          perm_middle.symm.trans hperm
        have hi : i < countOf step (packet.drop 40) := (hmem i).mp (by simp)
        have hnew : i ∉ taken := fun hmem =>
          (nodup_append.mp hnodup).2.2 i hmem i mem_cons_self rfl
        obtain ⟨out', r₂, hstep', hnext⟩ := hprogress.next h hi hstart hnow
          (hroom.head (by simp [hown])) (fun k hk => (hmem k).mp (by simp [hk])) hnew (hruns 1)
        rw [← he, hstep] at hstep'
        cases hstep'
        -- the frame is the last one when no other is left to come
        cases order with
        | nil =>
          rw [if_pos fun k hk => by simpa [or_comm] using (hmem k).mpr hk] at hnext
          obtain ⟨outs, r', hrun, -⟩ := hinv₁.feed events
          refine ⟨out :: outs, r', ?_, ?_⟩
          · rw [Reassembly.run_cons hstep, hrun]
            rfl
          · have hnone := ownOutputs_eq_nil hrest outs
            unfold ownOutputs at hnone ⊢
            simp [hown, hnone, hnext]
        | cons j order =>
          have hj : j ∉ i :: taken := by
            have hnodup' := hperm'.nodup_iff.mpr nodup_range
            exact fun hmem => (nodup_append.mp hnodup').2.2 j hmem j mem_cons_self rfl
          rw [if_neg fun hall => hj (hall j ((hmem j).mp (by simp)))] at hnext
          obtain ⟨rfl, hprogress'⟩ := hnext
          obtain ⟨outs, r', hrun, houts⟩ := ih hinv₁ hprogress' hrest hperm' (by simp) htime'
            (hroom.tail hstep) (fun k => hruns (k + 1))
          refine ⟨none :: outs, r', ?_, ?_⟩
          · rw [Reassembly.run_cons hstep, hrun]
            rfl
          · unfold ownOutputs at houts ⊢
            simp [hown, houts, replicate_succ]

end Feeding

/-! ## The round trip -/

/-- The part of the packet that a frame says it carries. -/
def rangeOf (frame : Bytes) : Option (Nat × Nat) :=
  match parse frame with
  | .ok (.fragment f) => some (f.start, f.stop)
  | _ => none

/-- The runs that these frames form. -/
def runsOf (frames : List Bytes) : List (Nat × Nat) :=
  (frames.filterMap rangeOf).foldl (fun runs range => Runs.insert range.1 range.2 runs) []

section RoundTrip

variable {mtu ident : Nat}

theorem stepOf_spec (hmtu : 1280 ≤ mtu) :
    0 < stepOf mtu ∧ 8 ∣ stepOf mtu ∧ stepOf mtu + 48 ≤ mtu := by
  unfold stepOf
  exact ⟨by omega, Dvd.intro_left _ rfl, by omega⟩

/-- A packet longer than the MTU is cut into several frames. -/
theorem WellFormed.cut (h : WellFormed packet) (hmtu : 1280 ≤ mtu) (hident : ident < 2 ^ 32)
    (hlong : mtu < packet.length) : Cut packet (stepOf mtu) ident := by
  obtain ⟨hpos, hdvd, hle⟩ := stepOf_spec hmtu
  refine ⟨h, hpos, hdvd, hident, (lt_countOf hpos).mpr ?_⟩
  rw [length_drop]
  omega

theorem WellFormed.fragment_eq (h : WellFormed packet) (hmtu : 1280 ≤ mtu) :
    fragment packet mtu ident = .ok (if packet.length ≤ mtu then [packet] else
      (List.range (countOf (stepOf mtu) (packet.drop 40))).map
        (frame packet (stepOf mtu) ident (packet.drop 40))) := by
  have hversion : (packet.head?.all fun b : UInt8 => b >>> 4 != 6) = false := by
    obtain ⟨b, hb, hversion⟩ := Option.map_eq_some_iff.mp h.version
    rw [hb, Option.all_some, hversion]
    rfl
  have hchecked : checked packet = true := by
    have := h.length_eq
    simp only [checked, Bool.and_eq_true, decide_eq_true_eq]
    omega
  have htransport : ¬ (packet.getD 6 0 ≠ 17 ∧ packet.getD 6 0 ≠ 6 ∧ packet.getD 6 0 ≠ 58) := by
    have := h.transport
    tauto
  have hpayload : (packet.drop 40).take (payloadLen packet) = packet.drop 40 := by
    have := h.length_eq
    exact take_of_length_le (by rw [length_drop]; omega)
  have hlimit : 1280 ≤ mtu ∧ packet.length ≤ maxPacket := ⟨hmtu, h.length_le⟩
  unfold fragment
  by_cases hle : packet.length ≤ mtu
  · rw [if_pos (.inl hle), if_pos hle]
  · simp only [hle, hversion, Bool.false_eq_true, or_self, if_false, hlimit, and_self,
      not_true_eq_false, hchecked, Bool.not_true, htransport, hpayload]

/-- **The round trip**: for a well-formed packet, every frame is at most `mtu` bytes. A packet
that fits is its only frame, and passes. A longer one comes back, byte for byte, with the last of
its frames, when these are fed once each, in any order and among any other packets, to the queue of
any history that has nothing of the same key: within 30 seconds, with fewer than 64 other packets
pending and never more runs than the assembler can hold. -/
theorem fragment_roundtrip (h : WellFormed packet) (hmtu : 1280 ≤ mtu) (hident : ident < 2 ^ 32) :
    ∃ frames, fragment packet mtu ident = .ok frames ∧ (∀ frame ∈ frames, frame.length ≤ mtu) ∧
      (packet.length ≤ mtu → frames = [packet] ∧
        ∀ (r : Reassembly asm) (now : Nat),
          r.accept packet now = .ok (some (.borrowed packet), r)) ∧
      (mtu < packet.length →
        ∀ (hist : List Event) (before : List (Option Cow)) (r : Reassembly asm)
          (start : Nat) (events : List Event),
          (Reassembly.default asm).run hist = .ok (before, r) →
          keyOf packet ident ∉ r.pending →
          (events.filterMap (Event.own (keyOf packet ident))).Perm frames →
          (∀ e ∈ events, start ≤ e.time ∧ e.time < start + lifetime) →
          Room (keyOf packet ident) r events →
          (∀ k, (runsOf ((events.filterMap (Event.own (keyOf packet ident))).take k)).length ≤
            asm.capacity) →
          ∃ outs r', r.run events = .ok (outs, r') ∧
            ownOutputs (keyOf packet ident) events outs =
              List.replicate (frames.length - 1) none ++ [some (.owned packet)]) := by
  obtain ⟨hpos, hdvd, hle⟩ := stepOf_spec hmtu
  refine ⟨_, h.fragment_eq hmtu, ?_, ?_, ?_⟩
  · split
    · next hfits => simpa using hfits
    · intro frame hframe
      obtain ⟨i, -, rfl⟩ := mem_map.mp hframe
      rw [length_frame h, length_chunk]
      omega
  · intro hfits
    rw [if_pos hfits]
    exact ⟨rfl, fun r now => h.accept r now⟩
  · intro hlong hist before r start events hrun hnew hfed htime hroom hruns
    have hcut := h.cut hmtu hident hlong
    rw [if_neg (by omega)] at hfed ⊢
    obtain ⟨order, horder, hperm⟩ := (congrFun₂ (eq_map_comp_perm _) _ _).mpr hfed
    have hlen : order.length = countOf (stepOf mtu) (packet.drop 40) := by
      rw [hperm.length_eq, length_range]
    have hne : order ≠ [] := by
      intro hnil
      have hmany := hcut.many
      rw [hnil] at hlen
      rw [← hlen] at hmany
      cases hmany
    have hframes : ∀ k, runsOf ((order.map (frame packet (stepOf mtu) ident
        (packet.drop 40))).take k) = (order.take k).foldl (addFrame packet (stepOf mtu)) [] := by
      intro k
      have hrange : ∀ i ∈ order.take k, (rangeOf ∘ frame packet (stepOf mtu) ident
          (packet.drop 40)) i = some (i * stepOf mtu,
            i * stepOf mtu + (chunk (stepOf mtu) (packet.drop 40) i).length) := by
        intro i hi
        have hlt := mem_range.mp (hperm.mem_iff.mp (mem_of_mem_take hi))
        rw [comp_apply, rangeOf, parse_frame h hdvd hident ((lt_countOf hpos).mp hlt)]
        rfl
      unfold runsOf
      rw [← map_take, filterMap_map, filterMap_congr hrange,
        ← comp_def some, filterMap_eq_map, foldl_map]
      rfl
    have hnone : Progress packet (stepOf mtu) ident start r [] [] := .inl ⟨rfl, rfl, hnew⟩
    obtain ⟨outs, r', hfeed, houts⟩ := hnone.feed (Inv.of_run hrun) hcut horder hperm hne
      htime hroom (fun k => by
        rw [← hframes k, ← horder]
        exact hruns k)
    refine ⟨outs, r', hfeed, ?_⟩
    rw [houts, length_map, length_range, hlen]

/-- A UDP packet of 1281 bytes. -/
def sample : Bytes :=
  [96, 0, 0, 0, 4, 217, 17, 64] ++ List.replicate 16 1 ++ List.replicate 16 2 ++
    List.replicate 1241 7

theorem wellFormed_sample : WellFormed sample :=
  ⟨by decide, by decide +kernel, by decide +kernel, by decide +kernel, by decide⟩

/-- The frames of the sample for an MTU of 1280. -/
def sampleFrame (i : Nat) : Bytes := frame sample (stepOf 1280) 7 (sample.drop 40) i

theorem fragment_sample : fragment sample 1280 7 = .ok [sampleFrame 0, sampleFrame 1] := by
  have hcount : countOf (stepOf 1280) (sample.drop 40) = 2 := by decide +kernel
  rw [wellFormed_sample.fragment_eq (by decide), if_neg (by decide +kernel), hcount]
  rfl

theorem own_sampleFrame {i : Nat} (hi : i < 2) (now : Nat) (k : Key) :
    Event.own k (.packet (sampleFrame i) now) =
      if keyOf sample 7 = k then some (sampleFrame i) else none := by
  have hcut : Cut sample (stepOf 1280) 7 :=
    wellFormed_sample.cut (by decide) (by decide) (by decide +kernel)
  have hcount : countOf (stepOf 1280) (sample.drop 40) = 2 := by decide +kernel
  have hjoins := hcut.joins (i := i) (by rw [hcount]; exact hi) now
  simp [Event.own, sampleFrame, hjoins, fragmentOf]

/-- Two frames, the last one first. -/
theorem fragment_roundtrip_reversed :
    ∃ outs r', fragment sample 1280 7 = .ok [sampleFrame 0, sampleFrame 1] ∧
      (Reassembly.default (RunSet.assembler 4)).run
        [.packet (sampleFrame 1) 0, .packet (sampleFrame 0) 5] = .ok (outs, r') ∧
      ownOutputs (keyOf sample 7) [.packet (sampleFrame 1) 0, .packet (sampleFrame 0) 5] outs =
        [none, some (.owned sample)] := by
  obtain ⟨frames, hframes, -, -, hlong⟩ :=
    @fragment_roundtrip (RunSet.assembler 4) sample 1280 7 wellFormed_sample (by decide) (by decide)
  cases fragment_sample.symm.trans hframes
  have hown : [Event.packet (sampleFrame 1) 0, .packet (sampleFrame 0) 5].filterMap
      (Event.own (keyOf sample 7)) = [sampleFrame 1, sampleFrame 0] := by
    simp [own_sampleFrame]
  obtain ⟨outs, r', hrun, houts⟩ := hlong (by decide +kernel) [] [] (.default _) 0
    [.packet (sampleFrame 1) 0, .packet (sampleFrame 0) 5] rfl (notMem_empty _)
    (by rw [hown]; exact .swap _ _ _)
    (by simp [Event.time, lifetime])
    (.of_alone (fun k _ => notMem_empty k) (by
      intro e he k hk
      simp only [mem_cons, not_mem_nil, or_false] at he
      rcases he with rfl | rfl <;> simp [own_sampleFrame, hk.symm]))
    (by
      rw [hown]
      rintro (_ | _ | k)
      · decide
      · decide +kernel
      · rw [take_of_length_le (by simp)]
        decide +kernel)
  exact ⟨outs, r', fragment_sample, hrun, houts⟩

end RoundTrip

end Clyntis.Core.Ipv6
