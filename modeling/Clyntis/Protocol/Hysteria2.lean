import Clyntis.Lib.Exec
import Clyntis.Lib.Pieces
import Clyntis.Net.Addr

/-!
# UDP over Hysteria2 (`hysteria2/mod.rs`)

A UDP packet travels in QUIC datagrams. One that does not fit is split, and `Defragger` puts the
fragments together again, for one packet of a session at a time.

- `putVarint`, `parseVarint`: QUIC's integers, of 62 bits at most;
- `Message`, `encode`, `decode`, `split`: a packet or a fragment of one;
- `Defragger`, `feed`: the buffer. A fragment of another packet discards what it holds;
- `Filling`: the fragments of a packet that the buffer holds. A fragment adds to them, and the last
  one yields the packet (`Filling.feed`);
- `udp_fragmentation`: whatever is lost, repeated or late, what comes out was sent.
-/

namespace Clyntis.Protocol.Hysteria2

open Lib Net List Option

/-! ## Integers -/

/-- `put_varint`. -/
def putVarint (value : Nat) : Bytes :=
  if value < 0x40 then [UInt8.ofNat value]
  else if value < 0x4000 then beBytes 2 (value ||| 0x4000)
  else if value < 0x40000000 then beBytes 4 (value ||| 0x80000000)
  else beBytes 8 (value ||| 0xc000000000000000)

/-- `parse_varint`: the value and how many bytes it takes. -/
def parseVarint (input : Bytes) : Option (Nat × Nat) :=
  match input with
  | [] => none
  | first :: _ =>
    let len := 1 <<< (first >>> 6).toNat
    match getRange input 0 len with
    | none => none
    | some bytes =>
      some ((bytes.drop 1).foldl (fun value byte => value <<< 8 ||| byte.toNat)
        (first &&& 0x3f).toNat, len)

/-- The first byte: how many follow, and the high bits. -/
theorem first_byte : ∀ tag < 4, ∀ high < 64, (UInt8.ofNat (tag * 64 + high) >>> 6).toNat = tag ∧
    (UInt8.ofNat (tag * 64 + high) &&& 0x3f).toNat = high := by
  decide

theorem foldl_shift (first : UInt8) (bytes : Bytes) :
    bytes.foldl (fun value byte => value <<< 8 ||| byte.toNat) first.toNat =
      beNat (first :: bytes) := by
  have hstep : (fun (value : Nat) (byte : UInt8) => value <<< 8 ||| byte.toNat) =
      fun value byte => value * 256 + byte.toNat := by
    funext value byte
    rw [← Nat.shiftLeft_add_eq_or_of_lt (show byte.toNat < 2 ^ 8 from byte.toNat_lt),
      Nat.shiftLeft_eq]
  rw [hstep, beNat, foldl_cons, Nat.zero_add]

/-- An integer whose first two bits say how long it is. -/
theorem parseVarint_beBytes {tag extra value : Nat} (htag : tag < 4)
    (hlen : 1 <<< tag = extra + 1) (hvalue : value < 64 * 256 ^ extra) (rest : Bytes) :
    parseVarint (beBytes (extra + 1) (value ||| tag * (64 * 256 ^ extra)) ++ rest) =
      some (value, extra + 1) := by
  have hpow : 64 * 256 ^ extra = 2 ^ (6 + 8 * extra) := by
    rw [Nat.pow_add, Nat.pow_mul]
  have hor : value ||| tag * (64 * 256 ^ extra) = tag * (64 * 256 ^ extra) + value := by
    rw [hpow, Nat.mul_comm tag, Nat.or_comm, Nat.two_pow_add_eq_or_of_lt (hpow ▸ hvalue)]
  have hpos : 0 < 256 ^ extra := Nat.pow_pos (by decide)
  have hhigh : value / 256 ^ extra < 64 := (Nat.div_lt_iff_lt_mul hpos).mpr hvalue
  have hdiv : (tag * (64 * 256 ^ extra) + value) / 256 ^ extra =
      tag * 64 + value / 256 ^ extra := by
    rw [← Nat.mul_assoc, Nat.add_comm, Nat.add_mul_div_right _ _ hpos, Nat.add_comm]
  have hmod : (tag * (64 * 256 ^ extra) + value) % 256 ^ extra = value % 256 ^ extra := by
    rw [← Nat.mul_assoc, Nat.add_comm, Nat.add_mul_mod_self_right]
  obtain ⟨hsize, hbits⟩ := first_byte tag htag _ hhigh
  rw [hor, beBytes_succ, hdiv, cons_append, parseVarint, hsize, hlen, getRange,
    if_pos ⟨Nat.zero_le _, by simp⟩]
  dsimp only
  rw [foldl_shift, beNat_cons, hbits]
  simp [beNat_beBytes, hmod, Nat.div_add_mod']

/-- **`parse_varint` inverts `put_varint`** for integers of 62 bits, whatever follows. -/
theorem parseVarint_putVarint {value : Nat} (h : value < 2 ^ 62) (rest : Bytes) :
    parseVarint (putVarint value ++ rest) = some (value, (putVarint value).length) := by
  unfold putVarint
  split
  · next h₁ =>
    have hbyte : beBytes 1 (value ||| 0 * (64 * 256 ^ 0)) = [UInt8.ofNat value] := by
      simp [beBytes]
    rw [← hbyte]
    exact parseVarint_beBytes (by decide) (by decide) h₁ rest
  · split
    · next h₂ =>
      exact @parseVarint_beBytes 1 1 value (by decide) (by decide) h₂ rest
    · split
      · next h₃ =>
        exact @parseVarint_beBytes 2 3 value (by decide) (by decide) h₃ rest
      · exact @parseVarint_beBytes 3 7 value (by decide) (by decide) h rest

theorem length_putVarint_le (value : Nat) : (putVarint value).length ≤ 8 := by
  unfold putVarint
  split
  · exact Nat.one_le_iff_ne_zero.mpr (by decide)
  · split
    · simp
    · split <;> simp

/-! ## Messages -/

/-- `Message`. -/
structure Message where
  session : UInt32
  packet : UInt16
  fragment : UInt8
  fragments : UInt8
  address : Text
  payload : Bytes
  deriving DecidableEq, Repr

variable (session : UInt32)

namespace Message

/-- `Message::header_len`. -/
def headerLen (address : Text) : Nat :=
  8 + (putVarint address.byteLen).length + address.byteLen

variable (m : Message)

/-- The part of the header that has a fixed length. -/
def fixed : Bytes :=
  beBytes 4 m.session.toNat ++ beBytes 2 m.packet.toNat ++ [m.fragment, m.fragments]

/-- `Message::encode`. -/
def encode : Bytes :=
  m.fixed ++ putVarint m.address.byteLen ++ m.address.bytes ++ m.payload

/-- `Message::decode`; `usize` has 64 bits. -/
def decode (datagram : Bytes) : Option Message := do
  let header ← getRange datagram 0 8
  let (len, size) ← parseVarint (datagram.drop 8)
  let start := 8 + size
  let stop ← if start + len < 2 ^ 64 then some (start + len) else none
  let address ← (getRange datagram start stop).bind Text.fromUtf8
  let message : Message :=
    { session := UInt32.ofNat (beNat (header.take 4))
      packet := UInt16.ofNat (beNat ((header.drop 4).take 2))
      fragment := header.getD 6 0
      fragments := header.getD 7 0
      address := address
      payload := datagram.drop stop }
  if 0 < message.fragments ∧ message.fragment < message.fragments then some message else none

/-- The part of a payload that fragment `i` carries: `payload[(i * room).min(payload.len())..]`, up
to `((i + 1) * room).min(payload.len())`. -/
def part (room : Nat) (payload : Bytes) (i : Nat) : Bytes :=
  (payload.take (min ((i + 1) * room) payload.length)).drop (min (i * room) payload.length)

/-- How many fragments there are: `payload.len().div_ceil(room).max(1)`. -/
def countOf (room : Nat) (payload : Bytes) : Nat := max ((payload.length + room - 1) / room) 1

/-- `Message::split`. -/
def split (packet : UInt16) (address : Text) (payload : Bytes)
    (max : Nat) : Except Text (List Message) :=
  if headerLen address < max then
    let room := max - headerLen address
    let count := countOf room payload
    if count ≤ 255 then
      .ok ((List.range count).map fun i =>
        { session := session
          packet := packet
          fragment := UInt8.ofNat i
          fragments := UInt8.ofNat count
          address := address
          payload := part room payload i })
    else .error "UDP packet too large".toList
  else .error "UDP address too long for a datagram".toList

@[simp] theorem length_fixed : m.fixed.length = 8 := by simp [fixed]

theorem length_encode :
    m.encode.length = headerLen m.address + m.payload.length := by
  simp [encode, headerLen, Text.length_bytes]
  omega

theorem getRange_append {xs ys zs : Bytes} :
    getRange (xs ++ ys ++ zs) xs.length (xs.length + ys.length) = some ys := by
  rw [getRange]
  simp

/-- **A message decodes to itself**, if its address is no longer than a QUIC integer can say. -/
theorem decode_encode {m : Message} (hfragment : m.fragment < m.fragments)
    (haddress : m.address.byteLen < 2 ^ 62) : decode m.encode = some m := by
  have hheader : getRange m.encode 0 8 = some m.fixed := by
    exact @getRange_append [] m.fixed _
  have hvarint : parseVarint (m.encode.drop 8) =
      some (m.address.byteLen, (putVarint m.address.byteLen).length) := by
    rw [encode, append_assoc, append_assoc, drop_left' (length_fixed m),
      parseVarint_putVarint haddress]
  have hshort := length_putVarint_le m.address.byteLen
  have hstop : 8 + (putVarint m.address.byteLen).length + m.address.byteLen < 2 ^ 64 := by
    omega
  have hhead : (m.fixed ++ putVarint m.address.byteLen).length =
      8 + (putVarint m.address.byteLen).length := by
    rw [length_append, length_fixed]
  have hbytes : getRange m.encode (8 + (putVarint m.address.byteLen).length)
      (8 + (putVarint m.address.byteLen).length + m.address.byteLen) = some m.address.bytes := by
    have hrange := @getRange_append (m.fixed ++ putVarint m.address.byteLen) m.address.bytes
      m.payload
    rwa [hhead, Text.length_bytes] at hrange
  have hpayload : m.encode.drop (8 + (putVarint m.address.byteLen).length + m.address.byteLen) =
      m.payload := by
    rw [encode, drop_left']
    rw [length_append, hhead, Text.length_bytes]
  have hsession : UInt32.ofNat (beNat (m.fixed.take 4)) = m.session := by
    have htake : m.fixed.take 4 = beBytes 4 m.session.toNat := by simp [fixed]
    rw [htake, beNat_beBytes, Nat.mod_eq_of_lt (by exact m.session.toNat_lt), UInt32.ofNat_toNat]
  have hpacket : UInt16.ofNat (beNat ((m.fixed.drop 4).take 2)) = m.packet := by
    have htake : (m.fixed.drop 4).take 2 = beBytes 2 m.packet.toNat := by simp [fixed]
    rw [htake, ofNat_beNat_beBytes]
  have hnumbers : m.fixed.getD 6 0 = m.fragment ∧ m.fixed.getD 7 0 = m.fragments := by
    simp [fixed]
  have hsome : 0 < m.fragments := by
    exact Nat.lt_of_le_of_lt (Nat.zero_le _) hfragment
  simp only [decode, hheader, hvarint, hstop, hbytes, hpayload, hsession, hpacket, hnumbers,
    bind_eq_bind, bind_some, Text.fromUtf8_bytes, if_true, hsome, hfragment, and_self]

/-! ### Fragments -/

variable {room i k : Nat} {payload : Bytes}

theorem length_part_le : (part room payload i).length ≤ room := by
  have hsucc : (i + 1) * room = i * room + room := Nat.succ_mul i room
  rw [part, length_drop, length_take]
  omega

/-- The first parts are the beginning of the payload. -/
theorem flatten_parts (k : Nat) :
    ((List.range k).map (part room payload)).flatten = payload.take (k * room) := by
  induction k with
  | zero => simp
  | succ k ih =>
    have hsucc : (k + 1) * room = k * room + room := Nat.succ_mul k room
    have hshort : payload.take (k * room) =
        (payload.take (min ((k + 1) * room) payload.length)).take
          (min (k * room) payload.length) := by
      rw [take_take, take_eq_take_iff]
      omega
    rw [range_succ, map_append, flatten_append, ih, map_singleton,
      flatten_singleton, part, hshort, take_append_drop, take_eq_take_iff]
    omega

/-- All of them are the payload. -/
theorem flatten_parts_countOf (hroom : 0 < room) :
    ((List.range (countOf room payload)).map (part room payload)).flatten = payload := by
  rw [flatten_parts, take_of_length_le]
  have hceil : payload.length ≤ (payload.length + room - 1) / room * room := by
    have := Nat.div_add_mod (payload.length + room - 1) room
    have := Nat.mod_lt (payload.length + room - 1) hroom
    rw [Nat.mul_comm]
    omega
  exact hceil.trans (Nat.mul_le_mul_right _ (Nat.le_max_left _ _))

end Message

/-- A packet that is sent, and the limit it is sent with. -/
structure Packet where
  id : UInt16
  address : Text
  payload : Bytes
  limit : Nat
  deriving DecidableEq, Repr

/-- The messages of a packet. -/
def Packet.split (session : UInt32) (p : Packet) : Except Text (List Message) :=
  Message.split session p.id p.address p.payload p.limit

/-- The messages of one packet, numbered. -/
structure Fragments (p : Packet) (ms : List Message) : Prop where
  packet : ∀ m ∈ ms, m.packet = p.id ∧ m.address = p.address ∧ m.fragments.toNat = ms.length
  fragment : ∀ i, ∀ m : Message, ms[i]? = some m → m.fragment.toNat = i
  whole : (ms.map Message.payload).flatten = p.payload
  nonempty : 0 < ms.length

variable {m : Message} {p : Packet}

section Split

variable {session : UInt32} {ms : List Message}

/-- A packet that is split, with room for a part in each message. -/
theorem split_eq_ok (h : p.split session = .ok ms) :
    ∃ room, 0 < room ∧ Message.headerLen p.address + room = p.limit ∧
      Message.countOf room p.payload ≤ 255 ∧
      ms = (List.range (Message.countOf room p.payload)).map fun i =>
        ⟨session, p.id, UInt8.ofNat i, UInt8.ofNat (Message.countOf room p.payload), p.address,
          Message.part room p.payload i⟩ := by
  unfold Packet.split Message.split at h
  split at h
  · next hroom =>
    dsimp only at h
    split at h
    · next hcount => exact ⟨_, by omega, by omega, hcount, (Except.ok.inj h).symm⟩
    · cases h
  · cases h

theorem Fragments.of_split (h : p.split session = .ok ms) : Fragments p ms := by
  obtain ⟨room, hroom, -, hcount, rfl⟩ := split_eq_ok h
  have hbyte : ∀ i ≤ 255, (UInt8.ofNat i).toNat = i := fun i hi =>
    UInt8.toNat_ofNat_of_lt (Nat.lt_succ_of_le hi)
  refine ⟨fun m hm => ?_, fun i m hm => ?_, ?_, ?_⟩
  · obtain ⟨i, -, rfl⟩ := List.mem_map.mp hm
    exact ⟨rfl, rfl, by simp [hbyte _ hcount]⟩
  · rw [List.getElem?_map, map_eq_some_iff] at hm
    obtain ⟨j, hj, rfl⟩ := hm
    obtain ⟨hi, rfl⟩ := List.getElem?_eq_some_iff.mp hj
    rw [List.length_range] at hi
    rw [List.getElem_range]
    exact hbyte i (by omega)
  · rw [List.map_map]
    exact Message.flatten_parts_countOf hroom
  · simp [Message.countOf]

/-- No message is longer than the limit. -/
theorem length_encode_le (h : p.split session = .ok ms) (hm : m ∈ ms) :
    m.encode.length ≤ p.limit := by
  obtain ⟨room, -, hlimit, -, rfl⟩ := split_eq_ok h
  obtain ⟨i, -, rfl⟩ := mem_map.mp hm
  rw [Message.length_encode, ← hlimit]
  exact Nat.add_le_add_left Message.length_part_le _

theorem Fragments.lt (h : Fragments p ms) (hm : m ∈ ms) :
    m.fragment.toNat < ms.length ∧ ms[m.fragment.toNat]? = some m := by
  obtain ⟨i, hi, rfl⟩ := getElem_of_mem hm
  have hget : ms[i]? = some ms[i] := getElem?_eq_getElem hi
  rw [h.fragment i _ hget]
  exact ⟨hi, hget⟩

end Split

/-! ## Reassembly -/

/-- `Defragger`. -/
structure Defragger where
  packet : UInt16 := 0
  parts : List (Option Bytes) := []
  received : Nat := 0
  deriving DecidableEq, Repr

namespace Defragger

variable (d : Defragger)

/-- A fragment of another packet discards the unfinished one. -/
def restart (m : Message) : Defragger :=
  if m.packet ≠ d.packet ∨ d.parts.length ≠ m.fragments.toNat then
    ⟨m.packet, List.replicate m.fragments.toNat none, 0⟩
  else d

/-- `slot` takes the payload if it is empty. -/
def put (m : Message) (slot : Option Bytes) : Defragger :=
  if slot.isNone then
    { d with
      parts := d.parts.set m.fragment.toNat (some m.payload)
      received := d.received + 1 }
  else d

/-- The packet, once all its fragments are there. -/
def finish (m : Message) : Option (Text × Bytes) × Defragger :=
  if d.received < d.parts.length then (none, d)
  else (some (m.address, (d.parts.filterMap id).flatten), { d with parts := [], received := 0 })

/-- `Defragger::feed`. -/
def feed (m : Message) : Exec (Option (Text × Bytes) × Defragger) :=
  if m.fragments = 1 then .ok (some (m.address, m.payload), d)
  else do
    let d := d.restart m
    let slot ← index d.parts m.fragment.toNat
    return (d.put m slot).finish m

end Defragger

/-- The buffer holds the fragments of the packet with these numbers. -/
structure Filling (p : Packet) (ms : List Message) (got : List Nat) (d : Defragger) : Prop where
  packet : d.packet = p.id
  parts : d.parts = slots (ms.map Message.payload) got
  received : d.received = d.parts.countP Option.isSome

section Feed

variable {ms : List Message} {got : List Nat} {d : Defragger}

/-- A fragment is put where it belongs. -/
theorem Filling.put (h : Filling p ms got d) (hms : Fragments p ms) (hm : m ∈ ms) :
    ∃ slot, index d.parts m.fragment.toNat = .ok slot ∧
      Filling p ms (m.fragment.toNat :: got) (d.put m slot) := by
  obtain ⟨hlt, hget⟩ := hms.lt hm
  have hlt' : m.fragment.toNat < (ms.map Message.payload).length := by
    rwa [length_map]
  have hpayload : (ms.map Message.payload)[m.fragment.toNat]? = some m.payload := by
    rw [getElem?_map, hget]
    rfl
  have hslot : d.parts[m.fragment.toNat]? =
      some (if m.fragment.toNat ∈ got then some m.payload else none) := by
    rw [h.parts, getElem?_slots, hpayload]
    rfl
  refine ⟨_, by rw [index, hslot], ?_⟩
  unfold Defragger.put
  by_cases hgot : m.fragment.toNat ∈ got
  · rw [if_pos hgot, if_neg (by simp)]
    exact ⟨h.packet, by rw [slots_cons_of_mem hgot, h.parts], h.received⟩
  · rw [if_neg hgot]
    refine ⟨h.packet, ?_, ?_⟩
    · show d.parts.set _ _ = _
      rw [h.parts, slots_set hpayload]
    · show d.received + 1 = (d.parts.set _ _).countP _
      rw [h.received, h.parts, slots_set hpayload, countP_slots_cons hlt' hgot]

/-- The packet is returned when all its fragments are there. -/
theorem Filling.finish (h : Filling p ms got d) (hms : Fragments p ms) (hm : m ∈ ms) :
    d.finish m = if ∀ i < ms.length, i ∈ got then
        (some (p.address, p.payload), { d with parts := [], received := 0 })
      else (none, d) := by
  have hlen : (ms.map Message.payload).length = ms.length := length_map _
  have hiff : d.received < d.parts.length ↔ ¬ ∀ i < ms.length, i ∈ got := by
    have hle : d.parts.countP Option.isSome ≤ d.parts.length := countP_le_length
    rw [← hlen, ← countP_slots_eq_length, h.received, h.parts, length_slots]
    rw [h.parts, length_slots] at hle
    omega
  unfold Defragger.finish
  by_cases hall : ∀ i < ms.length, i ∈ got
  · rw [if_neg (fun hlt => hiff.mp hlt hall), if_pos hall, h.parts,
      filterMap_slots (fun i hi => hall i (hlen ▸ hi)), hms.whole, (hms.packet m hm).2.1]
  · rw [if_pos (hiff.mpr hall), if_neg hall]

/-- What the buffer holds so far of a packet, if it does not hold another one. -/
def Ready (p : Packet) (ms : List Message) (got : List Nat) (d : Defragger) : Prop :=
  Filling p ms got d ∨ got = [] ∧ (d.parts = [] ∨ d.packet ≠ p.id)

theorem Ready.restart (h : Ready p ms got d) (hms : Fragments p ms) (hm : m ∈ ms) :
    Filling p ms got (d.restart m) := by
  obtain ⟨hpacket, -, hfragments⟩ := hms.packet m hm
  unfold Defragger.restart
  rcases h with h | ⟨rfl, h⟩
  · rw [if_neg]
    · exact h
    · rw [hpacket, hfragments, h.packet, h.parts]
      simp
  · rw [if_pos]
    · refine ⟨hpacket, ?_, ?_⟩
      · rw [slots_nil, length_map, hfragments]
      · simp [countP_replicate]
    · rcases h with h | h
      · have hpos := hms.nonempty
        rw [h, hfragments]
        exact .inr (Nat.ne_of_lt hpos)
      · rw [hpacket]
        exact .inl (Ne.symm h)

/-- A fragment of a packet. The only one does not touch the buffer. -/
theorem Ready.feed (h : Ready p ms got d) (hms : Fragments p ms) (hm : m ∈ ms) :
    ∃ d', d.feed m = .ok (if ∀ i < ms.length, i ∈ m.fragment.toNat :: got
        then some (p.address, p.payload) else none, d') ∧
      if ∀ i < ms.length, i ∈ m.fragment.toNat :: got then d' = d ∨ d'.parts = []
      else Filling p ms (m.fragment.toNat :: got) d' := by
  obtain ⟨-, haddress, hfragments⟩ := hms.packet m hm
  unfold Defragger.feed
  by_cases hone : m.fragments = 1
  · rw [hone] at hfragments
    obtain ⟨x, rfl⟩ := length_eq_one_iff.mp hfragments.symm
    obtain rfl := mem_singleton.mp hm
    have hpayload : m.payload = p.payload := by
      simpa using hms.whole
    have hnumber : m.fragment.toNat = 0 := hms.fragment 0 m rfl
    have hall : ∀ i < [m].length, i ∈ m.fragment.toNat :: got := by simp [hnumber]
    rw [if_pos hone, if_pos hall, haddress, hpayload]
    exact ⟨d, rfl, by rw [if_pos hall]; exact .inl rfl⟩
  · obtain ⟨slot, hslot, hput⟩ := (h.restart hms hm).put hms hm
    rw [if_neg hone]
    dsimp only
    rw [hslot, Exec.ok_bind, hput.finish hms hm]
    split
    · exact ⟨_, rfl, .inr rfl⟩
    · exact ⟨_, rfl, hput⟩

end Feed

/-! ## Arrivals -/

/-- The buffer holds nothing, or fragments of a packet that was sent. -/
def Holds (sent : List Packet) (d : Defragger) : Prop :=
  d.parts = [] ∨ ∃ p ∈ sent, ∃ ms, p.split session = .ok ms ∧ ∃ got, Filling p ms got d

/-- The message is one of a packet that was sent. -/
def Sent (sent : List Packet) (m : Message) : Prop :=
  ∃ p ∈ sent, ∃ ms, p.split session = .ok ms ∧ m ∈ ms

section Arrivals

variable {session : UInt32} {sent : List Packet} {ms arrivals : List Message} {d t : Defragger}
  {outs : List (Option (Text × Bytes))}

theorem Holds.ready (h : Holds session sent d) (hids : (sent.map Packet.id).Nodup) (hp : p ∈ sent)
    (hsplit : p.split session = .ok ms) : ∃ got, Ready p ms got d := by
  rcases h with h | ⟨q, hq, ms', hsplit', got, h⟩
  · exact ⟨[], .inr ⟨rfl, .inl h⟩⟩
  · by_cases hid : d.packet = p.id
    · obtain rfl : q = p := inj_on_of_nodup_map hids hq hp (h.packet.symm.trans hid)
      obtain rfl : ms' = ms := Except.ok.inj (hsplit'.symm.trans hsplit)
      exact ⟨got, .inl h⟩
    · exact ⟨[], .inr ⟨rfl, .inr hid⟩⟩

/-- One arrival. -/
theorem Holds.feed (h : Holds session sent d) (hids : (sent.map Packet.id).Nodup)
    (hm : Sent session sent m) :
    ∃ out d', d.feed m = .ok (out, d') ∧ Holds session sent d' ∧
      ∀ x, out = some x → ∃ p ∈ sent, p.id = m.packet ∧ x = (p.address, p.payload) := by
  obtain ⟨p, hp, ms, hsplit, hm⟩ := hm
  have hms := Fragments.of_split hsplit
  have hid : p.id = m.packet := (hms.packet m hm).1.symm
  obtain ⟨got, hready⟩ := h.ready hids hp hsplit
  obtain ⟨d', hfeed, hd'⟩ := hready.feed hms hm
  refine ⟨_, d', hfeed, ?_, fun x hx => ⟨p, hp, hid, ?_⟩⟩
  · split at hd'
    · rcases hd' with rfl | hempty
      · exact h
      · exact .inl hempty
    · exact .inr ⟨p, hp, ms, hsplit, _, hd'⟩
  · split at hx
    · exact (Option.some.inj hx).symm
    · cases hx

/-- Every arrival is answered, and what is returned was sent. -/
theorem feed_sent (hids : (sent.map Packet.id).Nodup)
    (harrivals : ∀ m ∈ arrivals, Sent session sent m) (hd : Holds session sent d) :
    ∃ outs t, feed Defragger.feed d arrivals = .ok (outs, t) ∧ Holds session sent t ∧
      List.Forall₂ (fun m out => ∀ x, out = some x →
        ∃ p ∈ sent, p.id = m.packet ∧ x = (p.address, p.payload)) arrivals outs :=
  feed_returns (fun _ hs m hm => hs.feed hids (harrivals m hm)) hd

/-- What is returned when messages of a packet arrive. -/
def returned (id : UInt16) : List Message → List (Option (Text × Bytes)) → List (Text × Bytes)
  | m :: ms, out :: outs => (if m.packet = id then out.toList else []) ++ returned id ms outs
  | _, _ => []

theorem returned_append {id : UInt16} {arrivals' : List Message}
    {outs' : List (Option (Text × Bytes))} (hlen : outs.length = arrivals.length) :
    returned id (arrivals ++ arrivals') (outs ++ outs') =
      returned id arrivals outs ++ returned id arrivals' outs' := by
  induction arrivals generalizing outs with
  | nil =>
    obtain rfl := eq_nil_of_length_eq_zero hlen
    rfl
  | cons m ms ih =>
    obtain ⟨out, outs, rfl⟩ := exists_cons_of_length_eq_add_one hlen
    rw [cons_append, cons_append, returned, returned, ih (Nat.succ.inj hlen), append_assoc]

theorem returned_eq_nil {id : UInt16} (h : ∀ m ∈ arrivals, m.packet ≠ id) :
    returned id arrivals outs = [] := by
  induction arrivals generalizing outs with
  | nil => cases outs <;> rfl
  | cons m ms ih =>
    cases outs with
    | nil => rfl
    | cons out outs =>
      rw [returned, if_neg (h m mem_cons_self), ih fun m hm => h m (mem_cons_of_mem _ hm)]
      rfl

/-- The numbers of the fragments of a packet. -/
def numbers (id : UInt16) (ms : List Message) : List Nat :=
  (ms.filter fun m => m.packet = id).map fun m => m.fragment.toNat

/-- A packet is returned when the last of its fragments has arrived. -/
theorem returned_window (hms : Fragments p ms) {got : List Nat} (hready : Ready p ms got d)
    (hmem : ∀ m ∈ arrivals, m.packet = p.id → m ∈ ms)
    (hothers : ∀ m ∈ arrivals, m.packet ≠ p.id → m.fragments = 1)
    (hnodup : (numbers p.id arrivals ++ got).Nodup)
    (hall : ∀ i < ms.length, i ∈ numbers p.id arrivals ++ got)
    (hmissing : ¬ ∀ i < ms.length, i ∈ got)
    (h : feed Defragger.feed d arrivals = .ok (outs, t)) :
    returned p.id arrivals outs = [(p.address, p.payload)] := by
  induction arrivals generalizing d outs got with
  | nil => exact absurd hall hmissing
  | cons m w ih =>
    obtain ⟨out, d₁, outs', hstep, hrest, rfl⟩ := feed_cons_inv h
    have hmem' : ∀ m ∈ w, m.packet = p.id → m ∈ ms := fun m hm =>
      hmem m (mem_cons_of_mem _ hm)
    have hothers' : ∀ m ∈ w, m.packet ≠ p.id → m.fragments = 1 := fun m hm =>
      hothers m (mem_cons_of_mem _ hm)
    by_cases hid : m.packet = p.id
    · have hm := hmem m mem_cons_self hid
      have hnumbers : numbers p.id (m :: w) = m.fragment.toNat :: numbers p.id w := by
        simp [numbers, hid]
      obtain ⟨d', hfeed, hd'⟩ := hready.feed hms hm
      rw [hfeed] at hstep
      cases hstep
      rw [hnumbers] at hnodup hall
      rw [returned, if_pos hid]
      split at hd'
      · -- the last one: no other number is left
        next hlast =>
        rw [if_pos hlast, returned_eq_nil]
        · rfl
        · intro m' hm' hid'
          have hin : m'.fragment.toNat ∈ numbers p.id w :=
            mem_map_of_mem (mem_filter.mpr ⟨hm', by simpa using hid'⟩)
          have hnodup' := (perm_middle.nodup_iff.mpr hnodup : (numbers p.id w ++ _).Nodup)
          exact disjoint_of_nodup_append hnodup' hin
            (hlast _ (hms.lt (hmem' m' hm' hid')).1)
      · next hmore =>
        rw [if_neg hmore]
        refine ih (.inl hd') hmem' hothers' (perm_middle.nodup_iff.mpr hnodup)
          (fun i hi => perm_middle.mem_iff.mpr (hall i hi)) hmore hrest
    · have hnumbers : numbers p.id (m :: w) = numbers p.id w := by
        simp [numbers, hid]
      rw [Defragger.feed, if_pos (hothers m mem_cons_self hid)] at hstep
      cases hstep
      rw [hnumbers] at hnodup hall
      rw [returned, if_neg hid]
      exact ih hready hmem' hothers' hnodup hall hmissing hrest

/-- The fragments of a packet that all arrive once each have all the numbers. -/
theorem numbers_of_perm (hms : Fragments p ms)
    (hperm : (arrivals.filter fun m => m.packet = p.id).Perm ms) :
    (numbers p.id arrivals).Perm (List.range ms.length) := by
  have hrange : ms.map (fun m => m.fragment.toNat) = List.range ms.length := by
    refine ext_getElem (by simp) fun i hi hi' => ?_
    rw [length_map] at hi
    rw [getElem_map, getElem_range]
    exact hms.fragment i _ (getElem?_eq_getElem hi)
  rw [← hrange]
  exact hperm.map _

end Arrivals

/-- **UDP over Hysteria2.** The messages of a packet fit into the limit, and each decodes to itself
(a longer address than QUIC can say would not fit into memory). Of the messages of packets with
different ids, in whatever order and number they arrive, what `Defragger` returns is a packet that
was sent, the one whose message has arrived; and a packet whose fragments all arrive once, with no
fragment of another packet between them, is returned once. -/
theorem udp_fragmentation (session : UInt32) :
    (∀ p ms, Packet.split session p = .ok ms → ∀ m ∈ ms, m.encode.length ≤ p.limit ∧
      (p.address.byteLen < 2 ^ 62 → Message.decode m.encode = some m)) ∧
    ∀ (sent : List Packet) (arrivals : List Message), (sent.map Packet.id).Nodup →
      (∀ m ∈ arrivals, Sent session sent m) →
      ∃ outs t, feed Defragger.feed {} arrivals = .ok (outs, t) ∧
        List.Forall₂ (fun m out => ∀ x, out = some x →
          ∃ p ∈ sent, p.id = m.packet ∧ x = (p.address, p.payload)) arrivals outs ∧
        ∀ p ∈ sent, ∀ ms before window after, p.split session = .ok ms →
          arrivals = before ++ window ++ after →
          (∀ m ∈ before, m.packet ≠ p.id) → (∀ m ∈ after, m.packet ≠ p.id) →
          (window.filter fun m => m.packet = p.id).Perm ms →
          (∀ m ∈ window, m.packet ≠ p.id → m.fragments = 1) →
          returned p.id arrivals outs = [(p.address, p.payload)] := by
  constructor
  · intro p ms hsplit m hm
    have hms := Fragments.of_split hsplit
    obtain ⟨-, haddress, hfragments⟩ := hms.packet m hm
    refine ⟨length_encode_le hsplit hm, fun hshort => Message.decode_encode ?_ (haddress ▸ hshort)⟩
    rw [UInt8.lt_iff_toNat_lt, hfragments]
    exact (hms.lt hm).1
  · intro sent arrivals hids harrivals
    have hempty : ∀ sent, Holds session sent {} := fun _ => .inl rfl
    obtain ⟨outs, t, hrun, -, houts⟩ := feed_sent hids harrivals (hempty sent)
    refine ⟨outs, t, hrun, houts, ?_⟩
    intro p hp ms before window after hsplit hcut hbefore hafter hperm hothers
    subst hcut
    have hms := Fragments.of_split hsplit
    obtain ⟨outs₂, t₂, outs₃, hrun₂, hrun₃, rfl⟩ := feed_append_inv hrun
    obtain ⟨outs₀, t₀, outs₁, hrun₀, hrun₁, rfl⟩ := feed_append_inv hrun₂
    rw [returned_append (length_of_feed hrun₂), returned_append (length_of_feed hrun₀),
      returned_eq_nil hbefore, returned_eq_nil hafter, append_nil]
    have hnumbers := numbers_of_perm hms hperm
    have hmem : ∀ m ∈ window, m.packet = p.id → m ∈ ms := fun m hm hid =>
      hperm.mem_iff.mp (mem_filter.mpr ⟨hm, by simpa using hid⟩)
    -- what came before is about other packets
    have hids' : ((sent.filter fun q => q.id ≠ p.id).map Packet.id).Nodup :=
      hids.sublist (filter_sublist.map _)
    have hsent : ∀ m ∈ before, Sent session (sent.filter fun q => q.id ≠ p.id) m := by
      intro m hm
      obtain ⟨q, hq, ms', hsplit', hm'⟩ := harrivals m (by simp [hm])
      have hid : q.id ≠ p.id := fun hid => hbefore m hm
        (((Fragments.of_split hsplit').packet m hm').1.trans hid)
      exact ⟨q, mem_filter.mpr ⟨hq, by simpa using hid⟩, ms', hsplit', hm'⟩
    obtain ⟨outs', t', hrun', hholds, -⟩ := feed_sent hids' hsent (hempty _)
    rw [hrun₀] at hrun'
    obtain ⟨rfl, rfl⟩ := Prod.mk.inj (Except.ok.inj hrun')
    have hready : Ready p ms [] t₀ := by
      rcases hholds with hempty | ⟨q, hq, ms', -, got, hfill⟩
      · exact .inr ⟨rfl, .inl hempty⟩
      · rw [mem_filter] at hq
        exact .inr ⟨rfl, .inr (hfill.packet ▸ by simpa using hq.2)⟩
    refine returned_window hms hready hmem hothers ?_ ?_ ?_ hrun₁
    · rw [append_nil]
      exact hnumbers.nodup_iff.mpr nodup_range
    · intro i hi
      rw [append_nil]
      exact hnumbers.mem_iff.mpr (mem_range.mpr hi)
    · intro hall
      exact absurd (hall 0 hms.nonempty) not_mem_nil

/-- A packet in three fragments, and one that fits into a message. -/
def long : Packet := ⟨7, ['a'], [1, 2, 3, 4, 5], 12⟩
def short : Packet := ⟨8, ['b'], [6], 12⟩

/-- The fragments of `long`. -/
def longPart (i : UInt8) (payload : Bytes) : Message := ⟨1, 7, i, 3, ['a'], payload⟩

/-- They arrive in disorder, with `short` between them. -/
theorem udp_fragmentation_late :
    ∃ outs t, feed Defragger.feed {}
        [longPart 2 [5], longPart 0 [1, 2], ⟨1, 8, 0, 1, ['b'], [6]⟩, longPart 1 [3, 4]] =
        .ok (outs, t) ∧ returned 7 [longPart 2 [5], longPart 0 [1, 2], ⟨1, 8, 0, 1, ['b'], [6]⟩,
          longPart 1 [3, 4]] outs = [(['a'], [1, 2, 3, 4, 5])] := by
  have hlong : long.split 1 = .ok [longPart 0 [1, 2], longPart 1 [3, 4], longPart 2 [5]] := by
    rfl
  have hshort : short.split 1 = .ok [⟨1, 8, 0, 1, ['b'], [6]⟩] := rfl
  obtain ⟨outs, t, hrun, -, honce⟩ := (udp_fragmentation 1).2 [long, short]
    [longPart 2 [5], longPart 0 [1, 2], ⟨1, 8, 0, 1, ['b'], [6]⟩, longPart 1 [3, 4]] (by decide) (by
      intro m hm
      simp only [mem_cons, not_mem_nil, or_false] at hm
      rcases hm with rfl | rfl | rfl | rfl
      · exact ⟨long, by decide, _, hlong, by decide⟩
      · exact ⟨long, by decide, _, hlong, by decide⟩
      · exact ⟨short, by decide, _, hshort, by decide⟩
      · exact ⟨long, by decide, _, hlong, by decide⟩)
  exact ⟨outs, t, hrun, honce long (by decide) _ [] _ [] hlong (append_nil _).symm (by decide)
    (by decide) (by decide) (by decide)⟩

end Clyntis.Protocol.Hysteria2
