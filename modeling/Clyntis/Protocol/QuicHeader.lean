import Clyntis.Lib.Text

/-!
# QUIC header protection (`quic.rs`, `HeaderKey::apply`)

A mask computed from a sample of the packet hides the low bits of its first byte and the
packet number. How long the number is stands in those very bits, so the two directions
read it at different moments.

- `apply_eq`: one direction adds the same mask to the packet, byte by byte;
- `header_protection_inverts`: the other takes it away again, and nothing else changes.
-/

namespace Clyntis.Protocol.Quic

open Lib

/-- `SAMPLE_LEN`. -/
def sampleLen : Nat := 16

/-- The bits of the first byte that are masked, fewer with a long header. -/
def lowBits (first : UInt8) : UInt8 := if first &&& 0x80 ≠ 0 then 0x0f else 0x1f

/-- The length of the packet number, from an unprotected first byte. -/
def pnLen (first : UInt8) : Nat := (first &&& 0x03).toNat + 1

/-- `for (byte, mask) in packet[start..start + len].iter_mut().zip(mask)`: past the end of
the mask nothing is toggled. -/
def toggle (start len : Nat) (mask packet : Bytes) : Bytes :=
  packet.mapIdx fun i byte =>
    if start ≤ i ∧ i < start + len then byte ^^^ mask.getD (i - start) 0 else byte

section HeaderKey

/-! The key is any function of the sample, as `mask` is for AES and ChaCha20 alike. -/

variable (mask : Bytes → Vector UInt8 5)

/-- `HeaderKey::apply`; `none` where a slice or the first byte is out of bounds. -/
def apply (pnOffset : Nat) (packet : Bytes) (decrypt : Bool) : Option Bytes := do
  guard (pnOffset + 4 + sampleLen ≤ packet.length)
  let mask := mask ((packet.drop (pnOffset + 4)).take sampleLen)
  let first ← packet[0]?
  let masked := first ^^^ (mask[0] &&& lowBits first)
  let len := pnLen (if decrypt then masked else first)
  guard (pnOffset + len ≤ packet.length)
  return toggle pnOffset len mask.toList.tail (packet.set 0 masked)

def encrypt (pnOffset : Nat) (packet : Bytes) : Option Bytes :=
  apply mask pnOffset packet false

def decrypt (pnOffset : Nat) (packet : Bytes) : Option Bytes :=
  apply mask pnOffset packet true

end HeaderKey

/-- The two packets differ at most in the low bits of the first byte and in the packet
number, whose length stands in the unprotected one. -/
structure OnlyHeader (pnOffset : Nat) (plain hidden : Bytes) : Prop where
  length : hidden.length = plain.length
  first : ∃ x y, plain[0]? = some x ∧ hidden[0]? = some y ∧
    y &&& ~~~lowBits x = x &&& ~~~lowBits x
  rest : ∀ x, plain[0]? = some x → ∀ i, 0 < i → i < pnOffset ∨ pnOffset + pnLen x ≤ i →
    hidden[i]? = plain[i]?

section FirstByte

variable (first m : UInt8)

theorem xor_and_keeps {bits kept : UInt8} (h : bits &&& kept = 0) :
    (first ^^^ (m &&& bits)) &&& kept = first &&& kept := by
  have hxor : (first ^^^ (m &&& bits)) &&& kept = (first &&& kept) ^^^ (m &&& (bits &&& kept)) := by
    apply UInt8.toBitVec_inj.mp
    ext i hi
    simp [Bool.and_xor_distrib_right, Bool.and_assoc]
  rw [hxor, h, UInt8.and_zero, UInt8.xor_zero]

/-- Masking leaves the bit that tells a long header. -/
theorem lowBits_masked : lowBits (first ^^^ (m &&& lowBits first)) = lowBits first := by
  have hlong : lowBits first &&& 0x80 = 0 := by
    unfold lowBits
    split <;> rfl
  rw [lowBits, xor_and_keeps first m hlong, ← lowBits]

theorem pnLen_le : pnLen first ≤ 4 := by
  have h : (first &&& 0x03).toNat ≤ 3 := by
    exact Nat.and_le_right
  exact Nat.succ_le_succ h

end FirstByte

section Toggle

variable {start len : Nat} {mask packet : Bytes} {x : UInt8}

theorem getElem?_toggle {i : Nat} (h : i < start ∨ start + len ≤ i) :
    (toggle start len mask packet)[i]? = packet[i]? := by
  have hout : ¬ (start ≤ i ∧ i < start + len) := by omega
  simp [toggle, hout]

theorem toggle_set_zero (hpos : 1 ≤ start) :
    toggle start len mask (packet.set 0 x) = (toggle start len mask packet).set 0 x := by
  cases packet with
  | nil => rfl
  | cons b rest =>
    have hout : start ≠ 0 := by omega
    simp [toggle, hout]

theorem toggle_toggle : toggle start len mask (toggle start len mask packet) = packet := by
  apply List.ext_getElem?
  intro i
  rw [toggle, toggle, List.mapIdx_mapIdx, List.getElem?_mapIdx]
  cases packet[i]? with
  | none => rfl
  | some byte =>
    dsimp only [Option.map_some, Function.comp_apply]
    split
    · rw [UInt8.xor_assoc, UInt8.xor_self, UInt8.xor_zero]
    · rfl

/-- What was toggled is there again after the second time. -/
theorem toggle_back (hpos : 1 ≤ start) (hx : packet[0]? = some x) {y : UInt8} :
    toggle start len mask ((toggle start len mask (packet.set 0 y)).set 0 x) = packet := by
  rw [toggle_set_zero hpos, toggle_toggle, List.set_set]
  obtain ⟨hlt, rfl⟩ := List.getElem?_eq_some_iff.mp hx
  exact List.set_getElem_self hlt

theorem getElem?_toggle_zero (hpos : 1 ≤ start) (hx : packet[0]? = some x) {y : UInt8} :
    (toggle start len mask (packet.set 0 y))[0]? = some y := by
  obtain ⟨hlt, -⟩ := List.getElem?_eq_some_iff.mp hx
  rw [getElem?_toggle (.inl hpos), List.getElem?_set_self hlt]

theorem onlyHeader_toggle (hpos : 1 ≤ start) (hx : packet[0]? = some x) {y : UInt8}
    (hbits : y &&& ~~~lowBits x = x &&& ~~~lowBits x) :
    OnlyHeader start packet (toggle start (pnLen x) mask (packet.set 0 y)) where
  length := by rw [toggle, List.length_mapIdx, List.length_set]
  first := ⟨x, y, hx, getElem?_toggle_zero hpos hx, hbits⟩
  rest x' hx' i hi hout := by
    obtain rfl : x = x' := Option.some.inj (hx.symm.trans hx')
    rw [getElem?_toggle hout, List.getElem?_set_ne (by omega)]

theorem onlyHeader_untoggle (hpos : 1 ≤ start) (hx : packet[0]? = some x) {y : UInt8}
    (hbits : x &&& ~~~lowBits y = y &&& ~~~lowBits y) :
    OnlyHeader start (toggle start (pnLen y) mask (packet.set 0 y)) packet := by
  have honly : OnlyHeader start (toggle start (pnLen y) mask (packet.set 0 y))
      (toggle start (pnLen y) mask _) :=
    onlyHeader_toggle hpos (getElem?_toggle_zero hpos hx) hbits
  rwa [toggle_back hpos hx] at honly

end Toggle

section Apply

variable {mask : Bytes → Vector UInt8 5} {pnOffset : Nat} {packet : Bytes} {first : UInt8}

/-- The bytes that the mask is computed from lie behind the packet number. -/
theorem sample_toggle {m : Bytes} {len : Nat} {x : UInt8} (hlen : len ≤ 4) :
    (toggle pnOffset len m (packet.set 0 x)).drop (pnOffset + 4) = packet.drop (pnOffset + 4) := by
  apply List.ext_getElem?
  intro i
  rw [List.getElem?_drop, List.getElem?_drop, getElem?_toggle (by omega),
    List.getElem?_set_ne (by omega)]

/-- Both directions end, and toggle the first byte and as many of the packet number as the
unprotected first byte says. -/
theorem apply_eq (hlong : pnOffset + 20 ≤ packet.length) (hfirst : packet[0]? = some first)
    (way : Bool) {m : Vector UInt8 5} {masked : UInt8}
    (hm : mask ((packet.drop (pnOffset + 4)).take sampleLen) = m)
    (hmasked : first ^^^ (m[0] &&& lowBits first) = masked) :
    apply mask pnOffset packet way = some (toggle pnOffset
      (pnLen (if way then masked else first)) m.toList.tail (packet.set 0 masked)) := by
  have hlen := pnLen_le (if way then masked else first)
  have hsample : pnOffset + 4 + sampleLen ≤ packet.length := hlong
  have hnumber : pnOffset + pnLen (if way then masked else first) ≤ packet.length := by omega
  subst hm hmasked
  simp only [apply, hfirst, guard, if_pos hsample, if_pos hnumber, Option.bind_eq_bind,
    Option.bind_some, Option.pure_def]

/-- **Header protection is invertible**: with a first byte before the packet number and a
sample behind it, what `encrypt` makes of a packet `decrypt` turns back, whatever the mask;
either of them changes only the low bits of the first byte and the packet number. -/
theorem header_protection_inverts (mask : Bytes → Vector UInt8 5) (packet : Bytes)
    (pnOffset : Nat) (hpos : 1 ≤ pnOffset) (hlong : pnOffset + 20 ≤ packet.length) :
    (∃ hidden, encrypt mask pnOffset packet = some hidden ∧
      decrypt mask pnOffset hidden = some packet ∧ OnlyHeader pnOffset packet hidden) ∧
    ∃ plain, decrypt mask pnOffset packet = some plain ∧ OnlyHeader pnOffset plain packet := by
  obtain ⟨first, hfirst⟩ : ∃ first, packet[0]? = some first :=
    ⟨packet[0], List.getElem?_eq_getElem (by omega)⟩
  generalize hm : mask ((packet.drop (pnOffset + 4)).take sampleLen) = m
  generalize hmasked : first ^^^ (m[0] &&& lowBits first) = masked
  have hback : masked ^^^ (m[0] &&& lowBits masked) = first := by
    rw [← hmasked, lowBits_masked, UInt8.xor_assoc, UInt8.xor_self, UInt8.xor_zero]
  have hbits : masked &&& ~~~lowBits first = first &&& ~~~lowBits first := by
    rw [← hmasked, xor_and_keeps _ _ UInt8.and_not_self]
  constructor
  · refine ⟨_, apply_eq hlong hfirst false hm hmasked, ?_, onlyHeader_toggle hpos hfirst hbits⟩
    -- the number's length is read from the first byte once it is unmasked
    refine (apply_eq ?_ (getElem?_toggle_zero hpos hfirst) true ?_ hback).trans ?_
    · simpa [toggle] using hlong
    · rw [sample_toggle (pnLen_le _), hm]
    · exact congrArg some (toggle_back hpos hfirst)
  · have hkept : first &&& ~~~lowBits masked = masked &&& ~~~lowBits masked := by
      rw [← hmasked, lowBits_masked, hmasked, hbits]
    exact ⟨_, apply_eq hlong hfirst true hm hmasked, onlyHeader_untoggle hpos hfirst hkept⟩

/-- A long header with a packet number of four bytes. -/
theorem header_protection_inverts_long :
    ∃ hidden, encrypt (fun _ => #v[5, 1, 2, 3, 4]) 1 (List.replicate 21 0xc3) = some hidden ∧
      decrypt (fun _ => #v[5, 1, 2, 3, 4]) 1 hidden = some (List.replicate 21 0xc3) ∧
      hidden.take 6 = [0xc6, 0xc2, 0xc1, 0xc0, 0xc7, 0xc3] := by
  obtain ⟨⟨hidden, hsealed, hopened, -⟩, -⟩ := header_protection_inverts
    (fun _ => #v[5, 1, 2, 3, 4]) (List.replicate 21 0xc3) 1 (by decide) (by decide)
  obtain rfl := Option.some.inj hsealed
  exact ⟨_, rfl, hopened, rfl⟩

end Apply

end Clyntis.Protocol.Quic
