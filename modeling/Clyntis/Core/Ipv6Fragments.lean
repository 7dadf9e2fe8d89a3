import Clyntis.Lib.Exec
import Clyntis.Lib.Pieces
import Clyntis.Lib.Table
import Clyntis.Net.Addr

/-!
# IPv6 reassembly (`packet_ipv6.rs`)

The TUN hands raw IPv6 packets to the loop, and smoltcp does not reassemble IPv6
fragments: `Reassembly` does, for at most 64 packets at a time and for 30 seconds each.

- `parse`: the part of `accept` that reads the headers and finds a fragment;
- `Assembly`, `Reassembly`, `expire`, `enter`, `join`, `accept`: the queue. `join` is what one
  fragment does to the entry of its key;
- `invalid_iff`: which fragments do not belong to an entry;
- `Rep`: an entry and the pieces it has taken so far. A fragment that belongs to it becomes one
  more piece (`Rep.take`), one that does not poisons it (`join_poisoned`), and the last one
  yields the packet (`Rep.join_complete`);
- `queue_of_join`, `lookup_queue_of_ne`: what a fragment does to the queue, and to the other
  entries.

smoltcp's `Assembler` is any that does what its documentation says; its checked views
(`new_checked`) test lengths, its getters read bytes. Times are in nanoseconds;
`duration_since` does not go below zero.
-/

namespace Clyntis.Core.Ipv6

open Lib Net List AList

def maxPackets : Nat := 64
def maxPacket : Nat := 65535
def lifetime : Nat := 30 * 10 ^ 9

/-- `Key`: the addresses (16 octets each) and the identification. -/
structure Key where
  source : Bytes
  destination : Bytes
  ident : Nat
  deriving DecidableEq, Repr

/-! ## Reading a packet -/

/-- `packet.payload_len()`. -/
def payloadLen (bytes : Bytes) : Nat := beNat ((bytes.drop 4).take 2)

/-- `Ipv6Packet::new_checked(bytes).is_ok()`. -/
def checked (bytes : Bytes) : Bool :=
  decide (40 ≤ bytes.length) && decide (40 + payloadLen bytes ≤ bytes.length)

/-- `Ipv6ExtHeader::new_checked(data)`: the next header and the header's length field. -/
def extHeader : Bytes → Option (UInt8 × UInt8)
  | next :: len :: rest =>
    if 6 ≤ rest.length ∧ len.toNat * 8 + 8 ≤ rest.length + 2 then some (next, len) else none
  | _ => none

/-- The loop over the extension headers: the protocol it stops at, its offset, and where the
byte is that announces it. -/
def extensions : Nat → Bytes → UInt8 → Nat → Nat → Option (UInt8 × Nat × Nat)
  | 0, _, protocol, offset, previous => some (protocol, offset, previous)
  | n + 1, bytes, protocol, offset, previous =>
    if protocol = 0 ∨ protocol = 60 ∨ protocol = 43 then
      match (getFrom bytes offset).bind extHeader with
      | none => none
      | some (next, len) => extensions n bytes next (offset + (len.toNat + 1) * 8) offset
    else some (protocol, offset, previous)

/-- A fragment, as `accept` reads it. -/
structure Fragment where
  /-- the packet, cut to the length its header states -/
  bytes : Bytes
  /-- where the fragment header starts -/
  offset : Nat
  previous : Nat
  next : UInt8
  key : Key
  start : Nat
  more : Bool
  payload : Bytes
  deriving DecidableEq, Repr

/-- `end`. -/
def Fragment.stop (f : Fragment) : Nat := f.start + f.payload.length

/-- The only fragment of its packet. -/
def Fragment.atomic (f : Fragment) : Bool := !f.more && f.start == 0

/-- What the headers of a packet say. -/
inductive Parsed where
  | dropped
  | passed (bytes : Bytes)
  | fragment (f : Fragment)
  deriving DecidableEq, Repr

/-- The fragment header at `offset`. -/
def parseFragment (bytes : Bytes) (offset previous : Nat) : Exec Parsed :=
  match getRange bytes (offset + 2) (offset + 8) with
  | none => .ok .dropped
  | some header => do
    let next ← index bytes offset
    if next = 44 then .ok .dropped
    else
      match getFrom bytes (offset + 8) with
      | none => .ok .dropped
      | some payload => do
        let source ← slice bytes 8 24
        let destination ← slice bytes 24 40
        let word := beNat (header.take 2)
        return .fragment
          { bytes := bytes
            offset := offset
            previous := previous
            next := next
            key := ⟨source, destination, beNat (header.drop 2)⟩
            start := word / 8 * 8
            more := word % 2 == 1
            payload := payload }

/-- The first part of `Reassembly::accept`. -/
def parse (bytes : Bytes) : Exec Parsed :=
  match bytes with
  | [] => .ok .dropped
  | first :: _ =>
    if first >>> 4 ≠ 6 then .ok (.passed bytes)
    else if !checked bytes then .ok .dropped
    else
      match getRange bytes 0 (40 + payloadLen bytes) with
      | none => .ok .dropped
      | some bytes => do
        let protocol ← index bytes 6
        match extensions 8 bytes protocol 40 6 with
        | none => .ok .dropped
        | some (protocol, offset, previous) =>
          if protocol ≠ 44 then .ok (.passed bytes) else parseFragment bytes offset previous

/-! ## The queue -/

/-- `Assembly`. -/
structure Assembly (asm : Assembler) where
  created : Nat
  prefixBytes : Bytes
  previous : Nat
  next : UInt8
  bytes : Bytes
  received : asm.State
  total : Option Nat
  rejected : Bool

/-- `received.iter_data()`. -/
abbrev Assembly.runs {asm : Assembler} (value : Assembly asm) : List (Nat × Nat) :=
  asm.iterData value.received

/-- `Reassembly`. -/
structure Reassembly (asm : Assembler) where
  pending : Table Key (Assembly asm)

/-- `Cow<[u8]>`: the packet as it came, or a new one. -/
inductive Cow where
  | borrowed (bytes : Bytes)
  | owned (bytes : Bytes)
  deriving DecidableEq, Repr

variable {asm : Assembler} {previous : Nat} {bytes prefixBytes : Bytes} {received : asm.State}
  {total : Nat} {f : Fragment} {length : Nat}

/-- `Ipv6Packet::set_payload_len`. -/
def setPayloadLen (bytes : Bytes) (length : Nat) : Exec Bytes :=
  copyInto bytes 4 6 (beBytes 2 length)

/-- The packet with this unfragmentable part and payload. -/
def reassemble (prefixBytes : Bytes) (previous : Nat) (next : UInt8) (payload : Bytes) :
    Exec Bytes := do
  let result ← store prefixBytes previous next
  let result := result ++ payload
  setPayloadLen result (result.length - 40)

/-- `Reassembly::expire`. -/
def Reassembly.expire (r : Reassembly asm) (now : Nat) : Reassembly asm :=
  ⟨r.pending.retain fun _ value => decide (now - value.created < lifetime)⟩

/-- The queue with an entry for the fragment's key; `none` when there is no room for it. -/
def Reassembly.enter (r : Reassembly asm) (f : Fragment) (now : Nat) :
    Exec (Option (Reassembly asm)) :=
  if f.key ∈ r.pending then .ok (some r)
  else if maxPackets ≤ r.pending.size ∨ maxPacket ≤ f.offset then .ok none
  else do
    let prefixBytes ← slice f.bytes 0 f.offset
    return some ⟨r.pending.insert f.key
      { created := now
        prefixBytes := prefixBytes
        previous := f.previous
        next := f.next
        bytes := List.replicate (maxPacket - f.offset) 0
        received := asm.new
        total := none
        rejected := false }⟩

/-- `invalid`. -/
def Assembly.invalid (value : Assembly asm) (f : Fragment) : Bool :=
  f.payload.isEmpty ||
  (f.more && f.payload.length % 8 != 0) ||
  decide (value.bytes.length < f.stop) ||
  value.prefixBytes.length != f.offset ||
  value.previous != f.previous ||
  value.next != f.next ||
  (value.total.any fun total => decide (total < f.stop) ||
    (!f.more && f.stop != total) || (f.more && decide (total ≤ f.stop))) ||
  (!f.more && value.runs.any fun run => decide (f.stop < run.2)) ||
  value.runs.any fun run => decide (f.start < run.2) && decide (run.1 < f.stop)

/-- The unfragmentable part of the packet is the one of its first fragment. -/
def Assembly.prefixOf (value : Assembly asm) (f : Fragment) : Exec Bytes :=
  if f.start = 0 then do
    let head ← slice f.bytes 0 f.offset
    copyInto value.prefixBytes 0 value.prefixBytes.length head
  else .ok value.prefixBytes

/-- A fragment is copied into its entry. -/
def Assembly.take (value : Assembly asm) (received : asm.State) (f : Fragment) :
    Exec (Assembly asm) := do
  let prefixBytes ← value.prefixOf f
  let bytes ← copyInto value.bytes f.start f.stop f.payload
  return { value with
    prefixBytes := prefixBytes
    bytes := bytes
    received := received
    total := if f.more then value.total else some f.stop }

/-- What a fragment does to the entry of its key: the packet it completes, and the entry that
stays. -/
def Assembly.join (value : Assembly asm) (f : Fragment) :
    Exec (Option Bytes × Option (Assembly asm)) :=
  if value.rejected then .ok (none, some value)
  else
    match if value.invalid f then none else asm.add value.received f.start f.payload.length with
    | none => .ok (none, some { value with rejected := true, bytes := [] })
    | some received => do
      let value ← value.take received f
      match value.total with
      | none => return (none, some value)
      | some total =>
        if asm.peekFront value.received ≠ total then return (none, some value)
        else do
          let payload ← slice value.bytes 0 total
          let packet ← reassemble value.prefixBytes value.previous value.next payload
          return (some packet, none)

/-- The second part of `Reassembly::accept`, for a fragment that is not atomic. -/
def Reassembly.queue (r : Reassembly asm) (f : Fragment) (now : Nat) :
    Exec (Option Cow × Reassembly asm) := do
  let r := r.expire now
  match ← r.enter f now with
  | none => return (none, r)
  | some r =>
    match r.pending.lookup f.key with
    | none => return (none, r)
    | some value =>
      let out ← value.join f
      return (out.1.map .owned,
        ⟨match out.2 with
          | some value => r.pending.insert f.key value
          | none => r.pending.erase f.key⟩)

/-- `Reassembly::accept`. -/
def Reassembly.accept (r : Reassembly asm) (bytes : Bytes) (now : Nat) :
    Exec (Option Cow × Reassembly asm) := do
  match ← parse bytes with
  | .dropped => return (none, r)
  | .passed bytes => return (some (.borrowed bytes), r)
  | .fragment f =>
    if f.atomic then do
      let head ← slice f.bytes 0 f.offset
      let packet ← reassemble head f.previous f.next f.payload
      return (some (.owned packet), r)
    else r.queue f now

/-! ## What `parse` finds -/

/-- What `accept` relies on in the fragments it reads. -/
structure Fragment.WellFormed (f : Fragment) : Prop where
  offset_ge : 40 ≤ f.offset
  previous_lt : f.previous < f.offset
  length_eq : f.bytes.length = f.offset + 8 + f.payload.length

theorem extHeader_length {data : Bytes} {next len : UInt8}
    (h : extHeader data = some (next, len)) : (len.toNat + 1) * 8 ≤ data.length := by
  unfold extHeader at h
  split at h
  · split at h
    · next hlen =>
      obtain ⟨rfl, rfl⟩ := Prod.mk.inj (Option.some.inj h)
      simp only [length_cons]
      omega
    · cases h
  · cases h

/-- The loop over the extension headers stays inside the packet. -/
theorem extensions_offset {n : Nat} {protocol protocol' : UInt8} {offset offset' previous' : Nat}
    (h : extensions n bytes protocol offset previous = some (protocol', offset', previous'))
    (hprevious : previous < offset) (hoffset : offset ≤ bytes.length) :
    offset ≤ offset' ∧ offset' ≤ bytes.length ∧ previous' < offset' := by
  induction n generalizing protocol offset previous with
  | zero =>
    cases h
    exact ⟨le_rfl, hoffset, hprevious⟩
  | succ n ih =>
    unfold extensions at h
    split at h
    · split at h
      · cases h
      · next next len hheader =>
        obtain ⟨data, hdata, hext⟩ := Option.bind_eq_some_iff.mp hheader
        have hlen := extHeader_length hext
        have hdrop : data = bytes.drop offset := by
          unfold getFrom at hdata
          rw [if_pos hoffset] at hdata
          exact (Option.some.inj hdata).symm
        rw [hdrop, length_drop] at hlen
        obtain ⟨h₁, h₂, h₃⟩ := ih h (by omega) (by omega)
        exact ⟨by omega, h₂, h₃⟩
    · cases h
      exact ⟨le_rfl, hoffset, hprevious⟩

theorem parseFragment_ok {offset : Nat} (hoffset : 40 ≤ offset) (hprevious : previous < offset) :
    ∃ p, parseFragment bytes offset previous = .ok p ∧ ∀ f, p = .fragment f → f.WellFormed := by
  unfold parseFragment
  split
  · exact ⟨.dropped, rfl, by simp⟩
  · next header hheader =>
    have hroom : offset + 8 ≤ bytes.length := by
      unfold getRange at hheader
      split at hheader
      · next h => exact h.2
      · cases hheader
    rw [index_ok (by omega), Exec.ok_bind]
    split
    · exact ⟨.dropped, rfl, by simp⟩
    · rw [getFrom, if_pos hroom, slice_ok (by omega) (by omega), slice_ok (by omega) (by omega)]
      refine ⟨_, rfl, fun f hf => ?_⟩
      cases hf
      refine ⟨hoffset, hprevious, ?_⟩
      simp only [length_drop]
      omega

/-- Reading a packet never panics. -/
theorem parse_ok (bytes : Bytes) :
    ∃ p, parse bytes = .ok p ∧ ∀ f, p = .fragment f → f.WellFormed := by
  unfold parse
  split
  · exact ⟨.dropped, rfl, by simp⟩
  · next first rest =>
    split
    · exact ⟨.passed _, rfl, by simp⟩
    · split
      · exact ⟨.dropped, rfl, by simp⟩
      · next hchecked =>
        simp only [checked, Bool.not_eq_true', Bool.and_eq_false_iff, decide_eq_false_iff_not,
          not_or, not_not] at hchecked
        obtain ⟨-, htotal⟩ := hchecked
        rw [getRange, if_pos ⟨Nat.zero_le _, htotal⟩]
        generalize hcut : ((first :: rest).drop 0).take (40 + payloadLen (first :: rest) - 0) = cut
        have hlen : cut.length = 40 + payloadLen (first :: rest) := by
          rw [← hcut, length_take, length_drop]
          omega
        dsimp only
        rw [index_ok (by omega), Exec.ok_bind]
        split
        · exact ⟨.dropped, rfl, by simp⟩
        · next protocol offset previous hext =>
          obtain ⟨hoffset, -, hprevious⟩ := extensions_offset hext (by decide) (by omega)
          split
          · exact ⟨.passed _, rfl, by simp⟩
          · exact parseFragment_ok hoffset hprevious

theorem wellFormed_of_parse
    (h : parse bytes = .ok (.fragment f)) : f.WellFormed := by
  obtain ⟨p, hp, hwf⟩ := parse_ok bytes
  rw [h] at hp
  exact hwf f (Except.ok.inj hp).symm

/-- A header with another payload length. -/
def withLength (bytes : Bytes) (length : Nat) : Bytes :=
  bytes.take 4 ++ beBytes 2 length ++ bytes.drop 6

theorem length_withLength (h : 6 ≤ bytes.length) :
    (withLength bytes length).length = bytes.length := by
  simp [withLength]
  omega

/-- The unfragmentable part of a packet that had `length` bytes in fragments: the byte that
announced the fragment header announces what followed it, and the length is the whole one. -/
def rewritten (prefixBytes : Bytes) (previous : Nat) (next : UInt8) (length : Nat) : Bytes :=
  withLength (prefixBytes.set previous next) (prefixBytes.length + length - 40)

theorem length_rewritten {next : UInt8} (h : 40 ≤ prefixBytes.length) :
    (rewritten prefixBytes previous next length).length = prefixBytes.length := by
  unfold rewritten
  rw [length_withLength (by rw [length_set]; omega), length_set]

/-- Building a packet does not panic. -/
theorem reassemble_ok (next : UInt8) (payload : Bytes) (hpre : 40 ≤ prefixBytes.length)
    (hprevious : previous < prefixBytes.length) :
    reassemble prefixBytes previous next payload =
      .ok (rewritten prefixBytes previous next payload.length ++ payload) := by
  have hset : 6 ≤ (prefixBytes.set previous next).length := by
    rw [length_set]
    omega
  unfold reassemble setPayloadLen
  rw [store_ok hprevious, Exec.ok_bind]
  rw [copyInto_ok (by decide) (by rw [length_append]; omega) (by simp),
    take_append_of_le_length (by omega), drop_append_of_le_length hset]
  simp [rewritten, withLength]

/-! ## Which fragments an entry takes -/

/-- The part of the packet's payload that a fragment carries. -/
def Fragment.piece (f : Fragment) : Nat × Bytes := (f.start, f.payload)

@[simp] theorem Fragment.stop_piece (f : Fragment) : Pieces.stop f.piece = f.stop := rfl

/-- Some of the fragment has been received before. -/
def Assembly.Overlapping (value : Assembly asm) (f : Fragment) : Prop :=
  ∃ x, f.start ≤ x ∧ x < f.stop ∧ Runs.Covers value.runs x

/-- More fragments follow, and the next offset is not a multiple of 8. -/
def Fragment.Misaligned (f : Fragment) : Prop := f.more = true ∧ ¬ 8 ∣ f.payload.length

/-- The fragment carries nothing, does not fit into a packet, has other headers than the
fragments before it, or contradicts them about where the packet ends. -/
def Assembly.Inconsistent (value : Assembly asm) (f : Fragment) : Prop :=
  f.payload = [] ∨ value.bytes.length < f.stop ∨
  value.prefixBytes.length ≠ f.offset ∨ value.previous ≠ f.previous ∨ value.next ≠ f.next ∨
  (∃ total, value.total = some total ∧
    (if f.more then total ≤ f.stop else f.stop ≠ total)) ∨
  (f.more = false ∧ ∃ x, f.stop ≤ x ∧ Runs.Covers value.runs x)

/-- The code's test is the specification's. -/
theorem Assembly.invalid_iff {value : Assembly asm} :
    value.invalid f = true ↔
      value.Overlapping f ∨ f.Misaligned ∨ value.Inconsistent f := by
  have hsep := (asm.separated value.received)
  have hruns : (value.runs.any fun run => decide (f.stop < run.2)) = true ↔
      ∃ x, f.stop ≤ x ∧ Runs.Covers value.runs x := by
    rw [Runs.exists_ge_covers_iff hsep]
    simp
  have htotal : (value.total.any fun total => decide (total < f.stop) ||
      (!f.more && f.stop != total) || (f.more && decide (total ≤ f.stop))) = true ↔
      ∃ total, value.total = some total ∧
        (if f.more then total ≤ f.stop else f.stop ≠ total) := by
    cases value.total with
    | none => simp
    | some total =>
      cases f.more with
      | false | true =>
        simp
        omega
  by_cases hne : f.payload = []
  · simp [invalid, Inconsistent, hne]
  have hover : (value.runs.any fun run =>
      decide (f.start < run.2) && decide (run.1 < f.stop)) = true ↔ value.Overlapping f := by
    have hlt : f.start < f.stop := by
      have := List.length_pos_of_ne_nil hne
      unfold Fragment.stop
      omega
    unfold Overlapping
    rw [Runs.exists_covers_iff hsep hlt]
    simp
  unfold invalid Inconsistent Fragment.Misaligned
  simp only [Bool.or_eq_true, hover, Bool.and_eq_true, hruns, htotal, List.isEmpty_iff, hne,
    false_or, bne_iff_ne, decide_eq_true_eq, Bool.not_eq_true', Nat.dvd_iff_mod_eq_zero]
  rw [or_comm]
  simp only [or_assoc]

/-- An entry that has not been rejected, and the pieces it has taken. -/
structure Assembly.Rep (value : Assembly asm) (ps : List (Nat × Bytes)) : Prop where
  covers : ∀ x, Runs.Covers value.runs x ↔ Pieces.Covers ps x
  disjoint : ps.Pairwise Pieces.Disjoint
  nonempty : ∀ p ∈ ps, p.2 ≠ []
  holds : ∀ p ∈ ps, Pieces.Holds value.bytes p
  size : value.bytes.length + value.prefixBytes.length = maxPacket
  header : 40 ≤ value.prefixBytes.length ∧ value.previous < value.prefixBytes.length
  within : ∀ {total}, value.total = some total → ∀ p ∈ ps, Pieces.stop p ≤ total

namespace Assembly

variable {value value' : Assembly asm} {f : Fragment} {ps : List (Nat × Bytes)}

/-- A fragment meets no piece of an entry that it does not overlap. -/
theorem Rep.disjoint_piece (h : value.Rep ps) (hover : ¬ value.Overlapping f)
    (hne : f.payload ≠ []) : ∀ p ∈ ps, Pieces.Disjoint f.piece p := by
  intro p hp
  have hpos := length_pos_of_ne_nil (h.nonempty p hp)
  have hfpos := length_pos_of_ne_nil hne
  by_contra hmeet
  simp only [Pieces.Disjoint, Pieces.stop, Fragment.piece] at hmeet
  refine hover ⟨max f.start p.1, by omega, ?_, (h.covers _).mpr ⟨p, hp, by omega, ?_⟩⟩
  · unfold Fragment.stop
    omega
  · unfold Pieces.stop
    omega

/-- The prefix keeps its length, and is the first fragment's once that has come. -/
theorem prefixOf_ok (hf : f.WellFormed) (hlen : value.prefixBytes.length = f.offset) :
    value.prefixOf f =
      .ok (if f.start = 0 then f.bytes.take f.offset else value.prefixBytes) := by
  have hbytes := hf.length_eq
  unfold prefixOf
  split
  · rw [slice_ok (Nat.zero_le _) (by omega), Exec.ok_bind, copyInto_ok (Nat.zero_le _) le_rfl]
    · simp
    · simp only [drop_zero, length_take]
      omega
  · rfl

/-- An entry with one more fragment. -/
def taken (value : Assembly asm) (received : asm.State) (f : Fragment) :
    Assembly asm :=
  { value with
    prefixBytes := if f.start = 0 then f.bytes.take f.offset else value.prefixBytes
    bytes := Pieces.write value.bytes f.piece
    received := received
    total := if f.more then value.total else some f.stop }

/-- **One more piece**: a fragment that is not invalid is copied into its entry. -/
theorem Rep.take (h : value.Rep ps) (hf : f.WellFormed) (hvalid : value.invalid f = false)
    (hadd : asm.add value.received f.start f.payload.length = some received) :
    value.take received f = .ok (value.taken received f) ∧
      (value.taken received f).Rep (f.piece :: ps) := by
  have hnot := mt invalid_iff.mpr (Bool.eq_false_iff.mp hvalid)
  simp only [Inconsistent, not_or, not_exists, not_and] at hnot
  obtain ⟨hover, -, hne, hroom, hlen, -, -, htotal, hlast⟩ := hnot
  have hlen' : value.prefixBytes.length = f.offset := not_not.mp hlen
  have hstop : f.stop ≤ value.bytes.length := not_lt.mp hroom
  have hpos : 0 < f.payload.length := length_pos_of_ne_nil hne
  have hpre : (if f.start = 0 then f.bytes.take f.offset else value.prefixBytes).length =
      value.prefixBytes.length := by
    have hbytes := hf.length_eq
    split
    · rw [length_take]
      omega
    · rfl
  refine ⟨?_, ?_⟩
  · unfold Assembly.take
    rw [prefixOf_ok hf hlen',
      copyInto_ok (by unfold Fragment.stop; omega) hstop (by unfold Fragment.stop; omega)]
    rfl
  · have hdisjoint := h.disjoint_piece hover hne
    have hruns := asm.iterData_of_add hpos hadd
    constructor
    case covers =>
      intro x
      show Runs.Covers (asm.iterData received) x ↔ _
      rw [hruns, Runs.covers_insert (by omega) (asm.separated value.received).nonempty, h.covers]
      unfold Pieces.Covers
      simp only [mem_cons, exists_eq_or_imp]
      rfl
    case disjoint => exact pairwise_cons.mpr ⟨hdisjoint, h.disjoint⟩
    case nonempty =>
      intro p hp
      rcases mem_cons.mp hp with rfl | hp
      · exact hne
      · exact h.nonempty p hp
    case holds =>
      intro p hp
      rcases mem_cons.mp hp with rfl | hp
      · exact Pieces.holds_write_self hstop
      · exact (h.holds p hp).write hstop (hdisjoint p hp)
    case size =>
      show (Pieces.write value.bytes f.piece).length + List.length (ite _ _ _) = _
      rw [Pieces.length_write (p := f.piece) hstop, hpre]
      exact h.size
    case header =>
      show 40 ≤ List.length (ite _ _ _) ∧ _ < List.length (ite _ _ _)
      rw [hpre]
      exact h.header
    case within =>
      intro total htotal' p hp
      have hmore : (if f.more then value.total else some f.stop) = some total := htotal'
      cases hfmore : f.more with
      | true =>
        rw [hfmore] at hmore
        have hlt := htotal total hmore
        rw [hfmore, if_pos rfl] at hlt
        rcases mem_cons.mp hp with rfl | hp
        · rw [Fragment.stop_piece]
          omega
        · exact h.within hmore p hp
      | false =>
        rw [hfmore] at hmore
        obtain rfl := Option.some.inj hmore
        rcases mem_cons.mp hp with rfl | hp
        · exact le_rfl
        · -- the last fragment ends where nothing comes after it
          have hppos := length_pos_of_ne_nil (h.nonempty p hp)
          by_contra hbeyond
          refine hlast hfmore (Pieces.stop p - 1) (by omega) ((h.covers _).mpr ⟨p, hp, ?_, ?_⟩)
          · unfold Pieces.stop
            omega
          · omega

/-- A complete entry is covered up to its total, and nothing lies beyond. -/
theorem Rep.covers_total (h : value.Rep ps) (htotal : value.total = some total)
    (hfront : asm.peekFront value.received = total) : ∀ x, Pieces.Covers ps x ↔ x < total := by
  intro x
  constructor
  · rintro ⟨p, hp, -, hx⟩
    exact Nat.lt_of_lt_of_le hx (h.within htotal p hp)
  · intro hx
    rw [← hfront, asm.peekFront_eq] at hx
    exact (h.covers x).mp (Runs.covers_of_lt_front hx)

/-- The pieces of a complete entry fit into its buffer. -/
theorem Rep.total_le (h : value.Rep ps) (hcover : ∀ x, Pieces.Covers ps x ↔ x < total) :
    total ≤ value.bytes.length := by
  by_contra hlt
  obtain ⟨p, hp, hp₁, hp₂⟩ := (hcover (total - 1)).mpr (by omega)
  have hlen := congrArg List.length (h.holds p hp)
  rw [length_take, length_drop] at hlen
  unfold Pieces.stop at hp₂
  omega

/-- Everything up to the end has come. -/
def Complete (value : Assembly asm) : Prop :=
  ∃ total, value.total = some total ∧ asm.peekFront value.received = total

/-- An entry after a fragment that does not belong to it. -/
def poisoned (value : Assembly asm) : Assembly asm :=
  { value with rejected := true, bytes := [] }

/-- A fragment that is invalid, or for which there are too many runs, poisons its entry. -/
theorem join_poisoned (hrejected : value.rejected = false)
    (h : value.invalid f = true ∨ asm.add value.received f.start f.payload.length = none) :
    value.join f = .ok (none, some value.poisoned) := by
  unfold join
  rw [hrejected]
  rcases h with h | h
  · simp [h, poisoned]
  · simp [h, poisoned]

theorem join_rejected (hrejected : value.rejected = true) :
    value.join f = .ok (none, some value) := by
  unfold join
  rw [hrejected]
  rfl

/-- A fragment that belongs to an entry is taken. -/
theorem Rep.join_incomplete (h : value.Rep ps) (hrejected : value.rejected = false)
    (hf : f.WellFormed) (hvalid : value.invalid f = false)
    (hadd : asm.add value.received f.start f.payload.length = some received)
    (hincomplete : ¬ (value.taken received f).Complete) :
    value.join f = .ok (none, some (value.taken received f)) := by
  unfold join
  rw [hrejected, hvalid]
  simp only [Bool.false_eq_true, if_false, hadd]
  rw [(h.take hf hvalid hadd).1, Exec.ok_bind]
  cases htotal : (value.taken received f).total with
  | none => rfl
  | some total =>
    have hfront : asm.peekFront (value.taken received f).received ≠ total :=
      fun hfront => hincomplete ⟨total, htotal, hfront⟩
    simp [hfront]

/-- The fragment that completes an entry yields the packet. -/
theorem Rep.join_complete (h : value.Rep ps) (hrejected : value.rejected = false)
    (hf : f.WellFormed) (hvalid : value.invalid f = false)
    (hadd : asm.add value.received f.start f.payload.length = some received)
    (htotal : (value.taken received f).total = some total)
    (hfront : asm.peekFront received = total) : value.join f = .ok (some
      (rewritten (value.taken received f).prefixBytes value.previous value.next total ++
        (value.taken received f).bytes.take total), none) := by
  obtain ⟨htake, hrep⟩ := h.take hf hvalid hadd
  have hle := hrep.total_le (hrep.covers_total htotal hfront)
  have hfront' : asm.peekFront (value.taken received f).received = total := hfront
  have hlen : ((value.taken received f).bytes.take total).length = total := by
    rw [length_take]
    omega
  unfold join
  rw [hrejected, hvalid]
  simp only [Bool.false_eq_true, if_false, hadd]
  rw [htake, Exec.ok_bind]
  simp only [htotal, hfront', ne_eq]
  rw [slice_ok (Nat.zero_le _) hle, Exec.ok_bind, drop_zero, Nat.sub_zero,
    reassemble_ok _ _ hrep.header.1 hrep.header.2, hlen]
  rfl

end Assembly

/-! ## The queue around an entry -/

variable {r r' : Reassembly asm} {f : Fragment} {now : Nat} {key : Key}
  {value : Assembly asm} {stays : Option (Assembly asm)}

/-- The entry a first fragment makes. -/
def Fragment.fresh (f : Fragment) (now : Nat) : Assembly asm where
  created := now
  prefixBytes := f.bytes.take f.offset
  previous := f.previous
  next := f.next
  bytes := List.replicate (maxPacket - f.offset) 0
  received := asm.new
  total := none
  rejected := false

theorem Fragment.WellFormed.rep_fresh (hf : f.WellFormed) (hoffset : f.offset < maxPacket)
    (now : Nat) : (f.fresh now : Assembly asm).Rep [] where
  covers x := by simp [Fragment.fresh, Assembly.runs, asm.iterData_new, Pieces.Covers]
  disjoint := .nil
  nonempty := by simp
  holds := by simp
  size := by
    have := hf.length_eq
    simp only [Fragment.fresh, length_replicate, length_take]
    omega
  header := by
    have := hf.length_eq
    have := hf.offset_ge
    have := hf.previous_lt
    simp only [Fragment.fresh, length_take]
    omega
  within := by simp

/-- What `enter` finds or makes for a fragment. -/
theorem Reassembly.enter_cases (r : Reassembly asm) (hf : f.WellFormed) (now : Nat) :
    (f.key ∈ r.pending ∧ r.enter f now = .ok (some r)) ∨
    (f.key ∉ r.pending ∧ (maxPackets ≤ r.pending.size ∨ maxPacket ≤ f.offset) ∧
      r.enter f now = .ok none) ∨
    (f.key ∉ r.pending ∧ r.pending.size < maxPackets ∧ f.offset < maxPacket ∧
      r.enter f now = .ok (some ⟨r.pending.insert f.key (f.fresh now)⟩)) := by
  have hlen := hf.length_eq
  unfold enter
  by_cases hmem : f.key ∈ r.pending
  · exact .inl ⟨hmem, if_pos hmem⟩
  · rw [if_neg hmem]
    by_cases hfull : maxPackets ≤ r.pending.size ∨ maxPacket ≤ f.offset
    · exact .inr (.inl ⟨hmem, hfull, if_pos hfull⟩)
    · rw [if_neg hfull, slice_ok (Nat.zero_le _) (by omega)]
      exact .inr (.inr ⟨hmem, by omega, by omega, rfl⟩)

/-- The queue after an entry was updated or finished. -/
def Reassembly.put (r : Reassembly asm) (key : Key) (stays : Option (Assembly asm)) :
    Reassembly asm :=
  ⟨match stays with
    | some value => r.pending.insert key value
    | none => r.pending.erase key⟩

theorem Reassembly.lookup_put_of_ne {key' : Key} (hne : key' ≠ key) :
    (r.put key stays).pending.lookup key' = r.pending.lookup key' := by
  cases stays with
  | none => exact lookup_erase_ne hne
  | some value => exact lookup_insert_ne hne

theorem Reassembly.lookup_put_some :
    (r.put key (some value)).pending.lookup key = some value := lookup_insert _

/-- A fragment whose key has an entry, found or made. -/
theorem Reassembly.queue_of_join {packet : Option Bytes}
    (henter : (r.expire now).enter f now = .ok (some r'))
    (hvalue : r'.pending.lookup f.key = some value) (hjoin : value.join f = .ok (packet, stays)) :
    r.queue f now = .ok (packet.map .owned, r'.put f.key stays) := by
  unfold queue
  simp only [henter, Exec.ok_bind, hvalue, hjoin]
  rfl

theorem Reassembly.queue_of_full (henter : (r.expire now).enter f now = .ok none) :
    r.queue f now = .ok (none, r.expire now) := by
  unfold queue
  simp only [henter]
  rfl

/-- An entry stays for its lifetime. -/
theorem Reassembly.lookup_expire :
    (r.expire now).pending.lookup key = some value ↔
      r.pending.lookup key = some value ∧ now - value.created < lifetime := by
  unfold expire
  rw [Table.lookup_retain_iff, decide_eq_true_eq]

/-- A fragment lets entries expire, and leaves those of other keys. -/
theorem Reassembly.lookup_queue_of_ne (hf : f.WellFormed) (hne : key ≠ f.key) {out : Option Cow}
    (hqueue : r.queue f now = .ok (out, r')) :
    r'.pending.lookup key = (r.expire now).pending.lookup key := by
  obtain ⟨entered, henter, hqueue⟩ := bind_eq_ok hqueue
  have hentered : ∀ r₁, entered = some r₁ →
      r₁.pending.lookup key = (r.expire now).pending.lookup key := by
    rintro r₁ rfl
    obtain ⟨-, hcase⟩ | ⟨-, -, hcase⟩ | ⟨-, -, -, hcase⟩ := (r.expire now).enter_cases hf now
    all_goals cases hcase.symm.trans henter
    · rfl
    · exact lookup_insert_ne hne
  cases entered with
  | none =>
    cases hqueue
    rfl
  | some r₁ =>
    dsimp only at hqueue
    split at hqueue
    · cases hqueue
      exact hentered _ rfl
    · obtain ⟨joined, -, hqueue⟩ := bind_eq_ok hqueue
      cases hqueue
      exact (lookup_put_of_ne hne).trans (hentered r₁ rfl)

end Clyntis.Core.Ipv6
