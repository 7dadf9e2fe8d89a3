import Clyntis.Lib.Exec
import Clyntis.Net.AddrText

/-!
# Targets and their wire form (`lib.rs`, `vless.rs`)

- `Target`: a host, which is a name or the text of an address, and a port;
- `Target.admits`: the two checks of `Target::new`;
- `Target.new`, `Target.Valid`: a valid target is one that `Target::new` returned; the text of
  its host is the one the standard library gives an address;
- `encodeAddress`, `decodeAddress`: a target in a VLESS or XUDP header, and how it is read back
  (`decodeAddress_append`).
-/

namespace Clyntis.Protocol

open Lib Net List

/-- `Target` of the protocol crate. -/
structure Target where
  host : Text
  port : UInt16
  deriving DecidableEq, Repr

/-- `ip`. -/
def Target.ip (t : Target) : Option IpAddr := IpAddr.parse t.host

/-- The checks of `Target::new`, with their errors. -/
def Target.admits (host : Text) (port : UInt16) : Except String Unit :=
  if host = [] ∨ 253 < host.byteLen ∨ port = 0 ∨
      host.any (fun c => isControl c || isWhiteSpace c) then
    .error "invalid target"
  else if (IpAddr.parse host).isNone ∧ host.any (":[]/?#@".toList.contains ·) then
    .error "invalid target host"
  else .ok ()

/-- `encode_address`: what it appends to the header. -/
def encodeAddress (t : Target) : Except String Bytes := do
  Target.admits t.host t.port
  let address := match t.ip with
    | some (.v4 ip) => 1 :: beBytes 4 ip.toNat
    | some (.v6 ip) => 3 :: beBytes 16 ip.toNat
    | none => 2 :: UInt8.ofNat t.host.byteLen :: t.host.bytes
  return beBytes 2 t.port.toNat ++ address

/-- `Target::new`. -/
def Target.new (host : Text) (port : UInt16) : Except String Target := do
  Target.admits host port
  return ⟨((IpAddr.parse host).map IpAddr.toText).getD host, port⟩

/-- A target that `Target::new` returned. -/
def Target.Valid (t : Target) : Prop := ∃ host port, Target.new host port = .ok t

/-- `decode_address`: the target and the length of its wire form. Rust's error for text that is
not UTF-8 also names the position. -/
def decodeAddress : Bytes → Except String (Target × Nat)
  | high :: low :: kind :: rest => do
    let port := UInt16.ofNat (beNat [high, low])
    if kind = 1 then
      if rest.length < 4 then throw "truncated IPv4 address"
      return (← Target.new (IpAddr.ofOctets4 (rest.take 4)).toText port, 7)
    else if kind = 3 then
      if rest.length < 16 then throw "truncated IPv6 address"
      return (← Target.new (IpAddr.ofOctets16 (rest.take 16)).toText port, 19)
    else if kind = 2 then
      match rest with
      | [] => throw "truncated domain length"
      | length :: name =>
        if name.length < length.toNat then throw "truncated domain"
        match Text.fromUtf8 (name.take length.toNat) with
        | none => throw "invalid utf-8 sequence"
        | some host => return (← Target.new host port, 4 + length.toNat)
    else throw "invalid VLESS address type"
  | _ => throw "truncated VLESS address"

/-! ## Valid targets -/

variable {port : UInt16} {t : Target}

theorem Target.admits_eq_ok {host : Text} :
    Target.admits host port = .ok () ↔ host ≠ [] ∧ host.byteLen ≤ 253 ∧ port ≠ 0 ∧
      (∀ c ∈ host, isControl c = false ∧ isWhiteSpace c = false) ∧
      ((IpAddr.parse host).isNone → ∀ c ∈ host, ":[]/?#@".toList.contains c = false) := by
  unfold Target.admits
  split
  · next h =>
    simp only [reduceCtorEq, false_iff]
    rintro ⟨hne, hlen, hport, hplain, -⟩
    rcases h with h | h | h | h
    · exact hne h
    · omega
    · exact hport h
    · obtain ⟨c, hc, hbad⟩ := any_eq_true.mp h
      simp [hplain c hc] at hbad
  · next h =>
    split
    · next h' =>
      simp only [reduceCtorEq, false_iff]
      rintro ⟨-, -, -, -, hchars⟩
      obtain ⟨c, hc, hbad⟩ := any_eq_true.mp h'.2
      rw [hchars h'.1 c hc] at hbad
      cases hbad
    · next h' =>
      simp only [true_iff]
      simp only [not_or, Nat.not_lt, Bool.not_eq_true, any_eq_false] at h
      refine ⟨h.1, h.2.1, h.2.2.1, fun c hc => ?_, fun hnone c hc => ?_⟩
      · simpa using h.2.2.2 c hc
      · by_contra hbad
        exact h' ⟨hnone, any_eq_true.mpr ⟨c, hc, Bool.eq_true_of_not_eq_false hbad⟩⟩

/-- The text of an address passes the checks. -/
theorem Target.admits_toText (ip : IpAddr) (hport : port ≠ 0) :
    Target.admits ip.toText port = .ok () := by
  have hplain := ip.toText_plain
  refine Target.admits_eq_ok.mpr ⟨?_, ?_, hport, fun c hc => ?_, fun hnone => ?_⟩
  · intro hnil
    have hparse := ip.parse_toText
    rw [hnil] at hparse
    cases hparse
  · have hsize : ip.toText.byteLen = ip.toText.length :=
      Text.byteLen_of_ascii fun c hc => (hplain c hc).2.trans (by decide)
    have hlen := ip.length_toText_le
    omega
  · obtain ⟨hlow, hhigh⟩ := hplain c hc
    simp only [isControl, isWhiteSpace, Bool.or_eq_false_iff, Bool.and_eq_false_iff,
      decide_eq_false_iff_not, beq_eq_false_iff_ne]
    omega
  · rw [ip.parse_toText] at hnone
    cases hnone

theorem Target.new_eq_ok {host : Text} (h : Target.new host port = .ok t) :
    Target.admits host port = .ok () ∧
      t = ⟨((IpAddr.parse host).map IpAddr.toText).getD host, port⟩ := by
  obtain ⟨⟨⟩, hadmits, h⟩ := bind_eq_ok h
  exact ⟨hadmits, (Except.ok.inj h).symm⟩

variable (h : t.Valid) {address : Bytes}
include h

/-- A valid target is made again from its host. -/
theorem Target.Valid.new_eq : Target.new t.host t.port = .ok t := by
  obtain ⟨host, port, hnew⟩ := h
  obtain ⟨hadmits, rfl⟩ := Target.new_eq_ok hnew
  cases hparse : IpAddr.parse host with
  | none =>
    rw [hparse] at hnew
    exact hnew
  | some ip =>
    have hport : port ≠ 0 := (Target.admits_eq_ok.mp hadmits).2.2.1
    simp [Target.new, Target.admits_toText ip hport, ip.parse_toText]

/-- The host of a valid target that is an address is that address's text. -/
theorem Target.Valid.host_eq {ip : IpAddr} (hip : t.ip = some ip) : t.host = ip.toText := by
  obtain ⟨-, heq⟩ := Target.new_eq_ok h.new_eq
  unfold Target.ip at hip
  rw [hip] at heq
  exact congrArg Target.host heq

/-! ## The codec -/

/-- The wire form of a valid target. -/
theorem Target.Valid.encodeAddress_eq :
    encodeAddress t = .ok (beBytes 2 t.port.toNat ++ match t.ip with
      | some (.v4 ip) => 1 :: beBytes 4 ip.toNat
      | some (.v6 ip) => 3 :: beBytes 16 ip.toNat
      | none => 2 :: UInt8.ofNat t.host.byteLen :: t.host.bytes) := by
  unfold encodeAddress
  rw [(Target.new_eq_ok h.new_eq).1]
  rfl

theorem Target.Valid.byteLen_le : t.host.byteLen ≤ 253 :=
  (Target.admits_eq_ok.mp (Target.new_eq_ok h.new_eq).1).2.1

theorem Target.Valid.length_le (henc : encodeAddress t = .ok address) : address.length ≤ 257 := by
  have hlen := h.byteLen_le
  rw [h.encodeAddress_eq] at henc
  obtain rfl := Except.ok.inj henc
  rw [length_append, length_beBytes]
  split
  · simp
  · simp
  · simp only [length_cons, Text.length_bytes]
    omega

/-- **The codec**: what `encode_address` wrote for a valid target is read back, whatever
follows it. -/
theorem decodeAddress_append (henc : encodeAddress t = .ok address) (rest : Bytes) :
    decodeAddress (address ++ rest) = .ok (t, address.length) := by
  have hport := ofNat_beNat_beBytes t.port
  obtain ⟨high, low, hbytes⟩ : ∃ high low, beBytes 2 t.port.toNat = [high, low] := ⟨_, _, rfl⟩
  have hnew := h.new_eq
  have hhost : ∀ ip, t.ip = some ip → t.host = ip.toText := fun ip hip => h.host_eq hip
  have hlen := h.byteLen_le
  rw [h.encodeAddress_eq, hbytes] at henc
  rw [hbytes] at hport
  obtain rfl := Except.ok.inj henc
  have hoctets {w n : Nat} (ip : BitVec w) (hw : 2 ^ w = 256 ^ n) :
      BitVec.ofNat w (beNat (beBytes n ip.toNat)) = ip := by
    rw [beNat_beBytes, ← hw, Nat.mod_eq_of_lt ip.isLt, BitVec.ofNat_toNat, BitVec.setWidth_eq]
  match hip : t.ip with
  | some (.v4 ip) =>
    rw [hhost _ hip] at hnew
    simp [decodeAddress, hport, IpAddr.ofOctets4, hoctets ip (n := 4) rfl, hnew]
  | some (.v6 ip) =>
    rw [hhost _ hip] at hnew
    simp [decodeAddress, hport, IpAddr.ofOctets16, hoctets ip (n := 16) rfl, hnew]
  | none =>
    have hsize : (UInt8.ofNat t.host.byteLen).toNat = t.host.bytes.length := by
      rw [UInt8.toNat_ofNat', Text.length_bytes]
      omega
    simp [decodeAddress, hport, hsize, Text.fromUtf8_bytes, hnew, Nat.add_comm 4]

omit h

/-- What was read lies inside the bytes, and does not depend on those behind it. -/
theorem decodeAddress_mono {bytes : Bytes} {n : Nat} (h : decodeAddress bytes = .ok (t, n))
    (more : Bytes) :
    t.Valid ∧ n ≤ bytes.length ∧ decodeAddress (bytes ++ more) = .ok (t, n) := by
  -- in every branch the target is made last
  have hmade : ∀ {host : Text} {port : UInt16} {size : Nat},
      (do return (← Target.new host port, size)) = Except.ok (t, n) → t.Valid ∧ n = size := by
    intro host port size h
    obtain ⟨t', hnew, h⟩ := bind_eq_ok h
    obtain ⟨rfl, rfl⟩ := Prod.mk.inj (Except.ok.inj h)
    exact ⟨⟨host, port, hnew⟩, rfl⟩
  match bytes, h with
  | high :: low :: kind :: rest, h =>
    have hsize : (rest ++ more).length = rest.length + more.length := length_append
    simp only [cons_append, decodeAddress, length_cons] at h ⊢
    by_cases h1 : kind = 1
    · rw [if_pos h1] at h ⊢
      by_cases hshort : rest.length < 4
      · rw [if_pos hshort] at h
        cases h
      · rw [if_neg hshort] at h
        rw [if_neg (by omega), take_append_of_le_length (by omega)]
        obtain ⟨hvalid, hn⟩ := hmade h
        exact ⟨hvalid, by omega, h⟩
    rw [if_neg h1] at h ⊢
    by_cases h3 : kind = 3
    · rw [if_pos h3] at h ⊢
      by_cases hshort : rest.length < 16
      · rw [if_pos hshort] at h
        cases h
      · rw [if_neg hshort] at h
        rw [if_neg (by omega), take_append_of_le_length (by omega)]
        obtain ⟨hvalid, hn⟩ := hmade h
        exact ⟨hvalid, by omega, h⟩
    rw [if_neg h3] at h ⊢
    by_cases h2 : kind = 2
    · rw [if_pos h2] at h ⊢
      match rest, h with
      | length :: name, h =>
        simp only [cons_append, length_cons, length_append] at h ⊢
        by_cases hshort : name.length < length.toNat
        · rw [if_pos hshort] at h
          cases h
        · rw [if_neg hshort] at h
          rw [if_neg (by omega), take_append_of_le_length (by omega)]
          rcases hutf : Text.fromUtf8 (name.take length.toNat) with _ | host
          · rw [hutf] at h
            cases h
          · rw [hutf] at h
            obtain ⟨hvalid, hn⟩ := hmade h
            exact ⟨hvalid, by omega, h⟩
    · rw [if_neg h2] at h
      cases h

/-- **The address codec.** A target that `Target::new` returned is encoded, and read back together
with the length of its encoding whatever follows; no proper prefix of the encoding is accepted.
What any bytes decode to is such a target: encoded again it decodes to itself. -/
theorem address_codec :
    (∀ t : Target, t.Valid → ∃ address, encodeAddress t = .ok address ∧
      (∀ rest, decodeAddress (address ++ rest) = .ok (t, address.length)) ∧
      ∀ part, part <+: address → part ≠ address → ∃ e, decodeAddress part = .error e) ∧
    ∀ bytes t n, decodeAddress bytes = .ok (t, n) → ∃ address, encodeAddress t = .ok address ∧
      decodeAddress address = .ok (t, address.length) := by
  refine ⟨fun t hvalid => ?_, fun bytes t n h => ?_⟩
  · refine ⟨_, hvalid.encodeAddress_eq, decodeAddress_append hvalid hvalid.encodeAddress_eq, ?_⟩
    rintro part ⟨more, hmore⟩ hshort
    rcases hpart : decodeAddress part with e | ⟨t', n⟩
    · exact ⟨e, rfl⟩
    · -- it would also be accepted with the rest of the encoding, and be too short for it
      exfalso
      obtain ⟨-, hle, hall⟩ := decodeAddress_mono hpart more
      have hwhole := decodeAddress_append hvalid hvalid.encodeAddress_eq []
      rw [append_nil, ← hmore, hall] at hwhole
      have hn : n = (part ++ more).length := congrArg Prod.snd (Except.ok.inj hwhole)
      rw [length_append] at hn
      have hnil : more = [] := length_eq_zero_iff.mp (by omega)
      rw [hnil, append_nil] at hmore
      exact hshort hmore
  · have hvalid := (decodeAddress_mono h []).1
    refine ⟨_, hvalid.encodeAddress_eq, ?_⟩
    have hwhole := decodeAddress_append hvalid hvalid.encodeAddress_eq []
    rwa [append_nil] at hwhole

/-- The name `a.b` and port 443: seven bytes. -/
theorem address_codec_name : ∃ address, encodeAddress ⟨"a.b".toList, 443⟩ = .ok address ∧
    address = [1, 187, 2, 3, 97, 46, 98] ∧
    decodeAddress (address ++ [9]) = .ok (⟨"a.b".toList, 443⟩, 7) ∧
    ∃ e, decodeAddress [1, 187, 2, 3, 97] = .error e := by
  have hvalid : Target.Valid ⟨"a.b".toList, 443⟩ := ⟨"a.b".toList, 443, by decide +kernel⟩
  obtain ⟨address, henc, happend, hcut⟩ := address_codec.1 _ hvalid
  have heq : address = [1, 187, 2, 3, 97, 46, 98] := by
    have hbytes : encodeAddress ⟨"a.b".toList, 443⟩ = .ok [1, 187, 2, 3, 97, 46, 98] := by
      decide +kernel
    exact Except.ok.inj (henc.symm.trans hbytes)
  subst heq
  exact ⟨_, henc, rfl, happend [9], hcut _ ⟨[46, 98], rfl⟩ (by decide)⟩

end Clyntis.Protocol
