import Clyntis.Lib.Exec
import Clyntis.Net.Addr

/-!
# STUN binding responses (`disco.rs`, `mod stun`)

The router learns its public UDP address from STUN responses. They arrive on the
shared UDP socket from anyone, so the reader has to cope with every byte string.

- `isStun`, `response`: the recognizer and the reader, with every index and slice
  of the source as a checked operation of `Exec`;
- `attributes`: the attribute loop. It is total, so the loop ends on every input:
  each round drops at least the four header bytes;
- `CutPadding`: an attribute area whose last attribute is complete but whose
  padding to four bytes is cut off by the end of the area.

The loop checks that the *value* of an attribute lies inside the area, and then
advances by the *padded* length. `response_panics_iff` shows that this is the
only way out of range: the reader panics exactly on a binding response whose
attribute area is `CutPadding`.
-/

namespace Clyntis.Tailscale.Stun

open Lib Net List Option

/-- The transaction ids `[u8; 12]`. -/
abbrev Tx : Type := Bytes

/-- `COOKIE`. -/
def cookie : Bytes := [0x21, 0x12, 0xa4, 0x42]

/-- `is_stun`: long enough for a header, with the magic cookie and two zero
bits in front. -/
def isStun (packet : Bytes) : Exec Bool := do
  if packet.length < 20 then return false
  if (← slice packet 4 8) ≠ cookie then return false
  return (← index packet 0) &&& 0xc0 == 0

/-- The address of a (XOR-)MAPPED-ADDRESS value of at least eight bytes; `none`
for an address family the reader does not know, which ends the whole reading. -/
def mappedAddress (xor : Bool) (tx : Tx) (value : Bytes) :
    Exec (Option SocketAddr) := do
  let port := UInt16.ofNat (beNat [← index value 2, ← index value 3])
  let port := if xor then port ^^^ 0x2112 else port
  let family ← index value 1
  if family = 0x01 then
    let b ← slice value 4 8
    let b := if xor then List.zipWith (· ^^^ ·) b cookie else b
    return some ⟨.ofOctets4 b, port⟩
  else if family = 0x02 ∧ 20 ≤ value.length then
    let b ← slice value 4 20
    let b := if xor then List.zipWith (· ^^^ ·) b (cookie ++ tx) else b
    return some ⟨.ofOctets16 b, port⟩
  else
    return none

variable (tx : Tx)

/-- What one attribute does to the address found so far; `none` is the early
`return None`. The XOR form overrides, the plain form only fills in. -/
def applyAttribute (kind : Nat) (value : Bytes)
    (mapped : Option SocketAddr) : Exec (Option (Option SocketAddr)) := do
  let xor := kind == 0x0020
  if (xor || kind == 0x0001) && decide (8 ≤ value.length) then
    match ← mappedAddress xor tx value with
    | none => return none
    | some found => return some (if xor || mapped.isNone then some found else mapped)
  else
    return some mapped

/-- The kind and the declared size of the attribute in front. -/
def attributeHeader (attrs : Bytes) : Exec (Nat × Nat) := do
  let kind := beNat [← index attrs 0, ← index attrs 1]
  let size := beNat [← index attrs 2, ← index attrs 3]
  return (kind, size)

/-- `(4 + size + 3) & !3`: header and value, rounded up to four bytes. -/
def paddedEnd (size : Nat) : Nat := (4 + size + 3) / 4 * 4

variable {attrs : Bytes}

theorem sliceFrom_paddedEnd_lt {rest : Bytes} {size : Nat}
    (h : sliceFrom attrs (paddedEnd size) = .ok rest) : rest.length < attrs.length := by
  unfold sliceFrom at h
  split at h
  · next hle =>
    obtain rfl := Except.ok.inj h
    rw [length_drop]
    unfold paddedEnd at hle ⊢
    omega
  · cases h

/-- The attribute loop: `while attrs.len() >= 4`. -/
def attributes (tx : Tx) (attrs : Bytes) (mapped : Option SocketAddr) : Exec (Option SocketAddr) :=
  if 4 ≤ attrs.length then
    match attributeHeader attrs with
    | .error p => .error p
    | .ok (kind, size) =>
      match getRange attrs 4 (4 + size) with
      | none => .ok none
      | some value =>
        match applyAttribute tx kind value mapped with
        | .error p => .error p
        | .ok none => .ok none
        | .ok (some mapped) =>
          match _h : sliceFrom attrs (paddedEnd size) with
          | .error p => .error p
          | .ok rest => attributes tx rest mapped
  else .ok mapped
termination_by attrs.length
decreasing_by exact sliceFrom_paddedEnd_lt _h

/-- `response`: the transaction id and the mapped address of a binding success
response. -/
def response (packet : Bytes) : Exec (Option (Tx × SocketAddr)) := do
  if !(← isStun packet) then return none
  if (← slice packet 0 2) ≠ [0x01, 0x01] then return none
  let tx ← slice packet 8 20
  let len := beNat [← index packet 2, ← index packet 3]
  match getRange packet 20 (20 + len) with
  | none => return none
  | some attrs =>
    let mapped ← attributes tx attrs none
    return mapped.map fun m => (tx, m)

/-! ## The parts that cannot panic -/

variable {packet value : Bytes}

/-- The recognizer on a packet that is long enough. -/
theorem isStun_ok (h : 20 ≤ packet.length) :
    isStun packet = .ok (if (packet.drop 4).take 4 ≠ cookie then false
      else packet.getD 0 default &&& 0xc0 == 0) := by
  unfold isStun
  rw [if_neg (by omega), slice_ok (by omega) (by omega), index_ok (by omega)]
  simp only [Exec.ok_bind]
  split
  · rfl
  · rfl

/-- `is_stun` returns on every byte string. -/
theorem isStun_returns (packet : Bytes) : ∃ b, isStun packet = .ok b := by
  by_cases hlen : packet.length < 20
  · exact ⟨false, if_pos hlen⟩
  · exact ⟨_, isStun_ok (by omega)⟩

/-- The attribute header is in range while the loop runs. -/
theorem attributeHeader_ok (h : 4 ≤ attrs.length) : attributeHeader attrs
      = .ok (beNat (attrs.take 2), beNat ((attrs.drop 2).take 2)) := by
  match attrs, h with
  | a :: b :: c :: d :: rest, _ => rfl

/-- The reader knows the address family of a mapped-address value. -/
def KnownFamily (value : Bytes) : Prop :=
  value[1]? = some 0x01 ∨ value[1]? = some 0x02 ∧ 20 ≤ value.length

instance (value : Bytes) : Decidable (KnownFamily value) :=
  inferInstanceAs (Decidable (_ ∨ _))

/-- A mapped-address value of eight bytes is read in range; the reading goes on
exactly when its family is known. -/
theorem mappedAddress_ok (xor : Bool) (tx : Tx) (h : 8 ≤ value.length) :
    ∃ found, mappedAddress xor tx value = .ok found ∧
      (found.isSome ↔ KnownFamily value) := by
  have h1 : value[1]? = some (value.getD 1 default) := by
    rw [List.getD, getElem?_eq_getElem (by omega), getD_some]
  unfold mappedAddress KnownFamily
  rw [index_ok (i := 2) (by omega), index_ok (i := 3) (by omega),
    index_ok (i := 1) (by omega), slice_ok (a := 4) (b := 8) (by omega) (by omega), h1]
  simp only [Exec.ok_bind]
  generalize value.getD 1 default = family
  by_cases hv4 : family = 0x01
  · exact ⟨_, if_pos hv4, by simp [hv4]⟩
  · rw [if_neg hv4]
    by_cases hv6 : family = 0x02 ∧ 20 ≤ value.length
    · rw [if_pos hv6, slice_ok (by omega) hv6.2]
      exact ⟨_, rfl, by simp [hv6]⟩
    · rw [if_neg hv6]
      refine ⟨none, rfl, ?_⟩
      simp only [isSome_none, Bool.false_eq_true, false_iff, not_or, Option.some.injEq]
      exact ⟨hv4, hv6⟩

/-! ## Attributes on the wire -/

/-- An attribute without its padding: a four-byte header whose second half is
the length of the value. -/
structure Attribute where
  header : Bytes
  value : Bytes
  header_length : header.length = 4
  size_eq : beNat (header.drop 2) = value.length

namespace Attribute

variable (a : Attribute)

/-- The attribute's type field. -/
def kind : Nat := beNat (a.header.take 2)

/-- The attribute on the wire, up to its padding. -/
def bytes : Bytes := a.header ++ a.value

/-- How many padding bytes follow the value. -/
def padding : Nat := (4 - a.value.length % 4) % 4

/-- The reader goes on past the attribute: it is not a mapped address, too short
to be one, or of a known family. -/
def Acceptable : Prop :=
  (a.kind = 0x0020 ∨ a.kind = 0x0001) ∧ 8 ≤ a.value.length → KnownFamily a.value

@[simp] theorem length_bytes :
    a.bytes.length = 4 + a.value.length := by
  simp [bytes, a.header_length]

theorem paddedEnd_eq :
    paddedEnd a.value.length = a.bytes.length + a.padding := by
  rw [length_bytes]
  unfold paddedEnd padding
  omega

/-- The header of an attribute area that starts with `a`. -/
theorem attributeHeader_bytes (rest : Bytes) :
    attributeHeader (a.bytes ++ rest) = .ok (a.kind, a.value.length) := by
  have hlen := a.header_length
  have hsize := a.size_eq
  have h4 : 4 ≤ (a.bytes ++ rest).length := by
    rw [length_append, length_bytes]
    omega
  have hdrop : (a.header.drop 2).length = 2 := by
    rw [length_drop, hlen]
  rw [attributeHeader_ok h4]
  unfold bytes kind
  rw [append_assoc, take_append_of_le_length (by omega), drop_append_of_le_length (by omega),
    take_append_of_le_length (by omega), take_of_length_le hdrop.le, hsize]

/-- The value of the attribute in front is in range. -/
theorem getRange_bytes (rest : Bytes) :
    getRange (a.bytes ++ rest) 4 (4 + a.value.length) = some a.value := by
  have hlen := a.header_length
  unfold getRange
  simp [bytes, hlen]

end Attribute

/-- An attribute area whose value range is in bounds starts with an attribute. -/
theorem exists_attribute (h4 : 4 ≤ attrs.length)
    (hget : getRange attrs 4 (4 + beNat ((attrs.drop 2).take 2)) = some value) :
    ∃ a : Attribute, attrs = a.bytes ++ attrs.drop a.bytes.length := by
  have hlen := getRange_length hget
  unfold getRange at hget
  split at hget
  · next hle =>
    have hval := Option.some.inj hget
    refine ⟨⟨attrs.take 4, value, by simp [h4], ?_⟩, ?_⟩
    · rw [drop_take]
      show beNat ((attrs.drop 2).take 2) = value.length
      omega
    · simp only [Attribute.bytes]
      conv_lhs => rw [← take_append_drop 4 attrs]
      rw [append_assoc]
      congr 1
      conv_lhs => rw [← take_append_drop value.length (attrs.drop 4)]
      congr 1
      · rw [hlen]
        exact hval
      · simp [h4]
  · cases hget

/-- The reader goes on past an attribute exactly when it is acceptable, and
never panics inside one. -/
theorem applyAttribute_ok (a : Attribute) (mapped : Option SocketAddr) :
    ∃ r, applyAttribute tx a.kind a.value mapped = .ok r ∧
      (r.isSome ↔ a.Acceptable) := by
  unfold applyAttribute Attribute.Acceptable
  by_cases h : (a.kind = 0x0020 ∨ a.kind = 0x0001) ∧ 8 ≤ a.value.length
  · obtain ⟨found, hfound, hknown⟩ := mappedAddress_ok (a.kind == 0x0020) tx h.2
    have hcond : ((a.kind == 0x0020 || a.kind == 0x0001) &&
        decide (8 ≤ a.value.length)) = true := by
      simpa using h
    rw [if_pos hcond, hfound]
    cases found with
    | none => exact ⟨none, rfl, by simpa [h] using hknown⟩
    | some f => exact ⟨_, rfl, by simpa [h] using hknown⟩
  · have hcond : ¬ ((a.kind == 0x0020 || a.kind == 0x0001) &&
        decide (8 ≤ a.value.length)) = true := by
      simpa using h
    rw [if_neg hcond]
    exact ⟨_, rfl, by simp [h]⟩

/-- **One round of the loop** on an area that starts with the attribute `a`: an
unacceptable attribute ends the reading, an acceptable one is dropped with its
padding, and the slice panics when the padding is not there. -/
theorem attributes_bytes (a : Attribute) (rest : Bytes)
    (mapped : Option SocketAddr) :
    attributes tx (a.bytes ++ rest) mapped =
      match applyAttribute tx a.kind a.value mapped with
      | .error p => .error p
      | .ok none => .ok none
      | .ok (some mapped) =>
        if a.padding ≤ rest.length then attributes tx (rest.drop a.padding) mapped
        else .error .outOfRange := by
  rw [attributes, if_pos (by rw [length_append, a.length_bytes]; omega), a.attributeHeader_bytes]
  simp only [a.getRange_bytes]
  cases applyAttribute tx a.kind a.value mapped with
  | error p => rfl
  | ok r =>
    cases r with
    | none => rfl
    | some m =>
      simp only
      by_cases hpad : a.padding ≤ rest.length
      · have hs : sliceFrom (a.bytes ++ rest) (paddedEnd a.value.length)
            = .ok (rest.drop a.padding) := by
          rw [a.paddedEnd_eq, sliceFrom_ok (by simp [hpad]), drop_append]
          simp
        rw [if_pos hpad]
        split
        · next h => rw [hs] at h; cases h
        · next r h => rw [hs] at h; rw [Except.ok.inj h]
      · have hs : sliceFrom (a.bytes ++ rest) (paddedEnd a.value.length)
            = .error .outOfRange := by
          rw [a.paddedEnd_eq]
          exact if_neg (by simpa using hpad)
        rw [if_neg hpad]
        split
        · next h => rw [hs] at h; rw [Except.error.inj h]
        · next h => rw [hs] at h; cases h

/-! ## When the reader panics -/

/-- An attribute area of complete, acceptable attributes in which the padding of
the last one is cut off by the end of the area. -/
inductive CutPadding : Bytes → Prop where
  | last (a : Attribute) (ok : a.Acceptable) (pad : Bytes)
      (short : pad.length < a.padding) : CutPadding (a.bytes ++ pad)
  | next (a : Attribute) (ok : a.Acceptable) (pad : Bytes)
      (full : pad.length = a.padding) {rest} (cut : CutPadding rest) :
      CutPadding (a.bytes ++ (pad ++ rest))

/-- The loop panics on every area with cut padding. -/
theorem attributes_of_cutPadding (h : CutPadding attrs) (mapped : Option SocketAddr) :
    ¬ (attributes tx attrs mapped).Returns := by
  induction h generalizing mapped with
  | last a ok pad short =>
    obtain ⟨r, hr, hsome⟩ := applyAttribute_ok tx a mapped
    obtain ⟨m, rfl⟩ := isSome_iff_exists.mp (hsome.mpr ok)
    rw [attributes_bytes, hr]
    simp only
    rw [if_neg (by omega)]
    exact Exec.not_returns_error _
  | next a ok pad full cut ih =>
    obtain ⟨r, hr, hsome⟩ := applyAttribute_ok tx a mapped
    obtain ⟨m, rfl⟩ := isSome_iff_exists.mp (hsome.mpr ok)
    rw [attributes_bytes, hr]
    simp only
    rw [if_pos (by simp [full]), ← full, drop_left]
    exact ih m

/-- An area on which the loop panics has cut padding. The induction is on the
length of the area; a round that goes on leaves a shorter one. -/
theorem cutPadding_of_attributes (n : Nat) :
    ∀ (attrs : Bytes) (mapped : Option SocketAddr), attrs.length ≤ n →
      ¬ (attributes tx attrs mapped).Returns → CutPadding attrs := by
  induction n with
  | zero =>
    intro attrs mapped hn hpanic
    rw [attributes, if_neg (by omega)] at hpanic
    exact absurd (Exec.returns_ok _) hpanic
  | succ n ih =>
    intro attrs mapped hn hpanic
    by_cases h4 : 4 ≤ attrs.length
    · cases hget : getRange attrs 4 (4 + beNat ((attrs.drop 2).take 2)) with
      | none =>
        rw [attributes, if_pos h4, attributeHeader_ok h4] at hpanic
        simp only [hget] at hpanic
        exact absurd (Exec.returns_ok _) hpanic
      | some value =>
        obtain ⟨a, hsplit⟩ := exists_attribute h4 hget
        generalize attrs.drop a.bytes.length = rest at hsplit
        subst hsplit
        obtain ⟨r, hr, hsome⟩ := applyAttribute_ok tx a mapped
        rw [attributes_bytes, hr] at hpanic
        cases r with
        | none => exact absurd (Exec.returns_ok _) hpanic
        | some m =>
          have ok : a.Acceptable := hsome.mp rfl
          simp only at hpanic
          by_cases hpad : a.padding ≤ rest.length
          · rw [if_pos hpad] at hpanic
            rw [length_append, a.length_bytes] at hn
            have hcut := ih (rest.drop a.padding) m
              (by rw [length_drop]; omega) hpanic
            rw [← take_append_drop a.padding rest]
            exact .next a ok _ (by simp [hpad]) hcut
          · exact .last a ok rest (by omega)
    · rw [attributes, if_neg h4] at hpanic
      exact absurd (Exec.returns_ok _) hpanic

/-- The declared length of the attribute area. -/
def declaredLen (packet : Bytes) : Nat := beNat ((packet.drop 2).take 2)

/-- The attribute area. -/
def area (packet : Bytes) : Bytes := (packet.drop 20).take (declaredLen packet)

/-- A binding success response whose attribute area lies in the datagram: the
packets whose attributes are read at all. -/
structure Walked (packet : Bytes) : Prop where
  header : 20 ≤ packet.length
  magic : (packet.drop 4).take 4 = cookie
  success : packet.take 2 = [0x01, 0x01]
  inside : 20 + declaredLen packet ≤ packet.length

/-- A walked packet whose attribute area ends inside the padding of its last
attribute. -/
structure CutShort (packet : Bytes) : Prop extends Walked packet where
  cut : CutPadding (area packet)

/-- The reader behind the recognizer. -/
theorem response_of_stun (h : 20 ≤ packet.length) (hstun : isStun packet = .ok true) :
    response packet =
      if packet.take 2 ≠ [0x01, 0x01] then .ok none
      else if 20 + declaredLen packet ≤ packet.length then
        (fun mapped => mapped.map fun m => ((packet.drop 8).take 12, m)) <$>
          attributes ((packet.drop 8).take 12) (area packet) none
      else .ok none := by
  have hlen : beNat [packet.getD 2 default, packet.getD 3 default]
      = declaredLen packet := by
    match packet, h with
    | a :: b :: c :: d :: rest, _ => rfl
  unfold response
  rw [hstun, slice_ok (by omega) (by omega), slice_ok (by omega) (by omega),
    index_ok (by omega), index_ok (by omega)]
  simp only [Exec.ok_bind, Bool.not_true, Bool.false_eq_true, if_false, hlen, drop_zero,
    Exec.pure_eq_ok]
  by_cases hs : packet.take 2 ≠ [0x01, 0x01]
  · rw [if_pos hs, if_pos hs]
  · rw [if_neg hs, if_neg hs]
    by_cases hin : 20 + declaredLen packet ≤ packet.length
    · rw [if_pos hin, getRange, if_pos ⟨by omega, hin⟩, Nat.add_sub_cancel_left]
      rfl
    · rw [if_neg hin, getRange, if_neg (fun hc => hin hc.2)]

/-- The first byte of a binding success response passes the recognizer. -/
theorem Walked.isStun (h : Walked packet) : Stun.isStun packet = .ok true := by
  have hfirst : packet.getD 0 default = 0x01 := by
    match packet, h.header, h.success with
    | a :: b :: rest, _, hs => exact (List.cons.inj hs).1
  rw [isStun_ok h.header, if_neg (not_not.mpr h.magic), hfirst]
  rfl

/-- A walked packet is read by the attribute loop. -/
theorem response_of_walked (h : Walked packet) :
    response packet =
      (fun mapped => mapped.map fun m => ((packet.drop 8).take 12, m)) <$>
        attributes ((packet.drop 8).take 12) (area packet) none := by
  rw [response_of_stun h.header h.isStun, if_neg (not_not.mpr h.success), if_pos h.inside]

/-- Every other packet is turned away without a panic. -/
theorem response_of_not_walked (h : ¬ Walked packet) : response packet = .ok none := by
  obtain ⟨b, hb⟩ := isStun_returns packet
  cases b with
  | false =>
    unfold response
    rw [hb]
    rfl
  | true =>
    have hlen : 20 ≤ packet.length := by
      by_contra hshort
      rw [Stun.isStun, if_pos (by omega)] at hb
      cases hb
    have hmagic : (packet.drop 4).take 4 = cookie := by
      by_contra hm
      rw [isStun_ok hlen, if_pos hm] at hb
      cases hb
    rw [response_of_stun hlen hb]
    split
    · rfl
    · next hs =>
      rw [if_neg fun hin => h ⟨hlen, hmagic, not_not.mp hs, hin⟩]

/-- **The STUN reader panics exactly on a cut-off padding.** On every other byte
string it returns `Some` or `None`. -/
theorem response_panics_iff (packet : Bytes) : ¬ (response packet).Returns ↔ CutShort packet := by
  by_cases hw : Walked packet
  · rw [response_of_walked hw, Exec.returns_map]
    constructor
    · intro hpanic
      exact ⟨hw, cutPadding_of_attributes _ _ _ none le_rfl hpanic⟩
    · rintro ⟨-, hcut⟩
      exact attributes_of_cutPadding _ hcut none
  · rw [response_of_not_walked hw]
    constructor
    · intro hpanic
      exact absurd (Exec.returns_ok _) hpanic
    · rintro ⟨hw', -⟩
      exact absurd hw' hw

/-- A five-byte attribute area: SOFTWARE with a one-byte value and no padding. -/
def unpaddedResponse : Bytes :=
  [0x01, 0x01, 0x00, 0x05, 0x21, 0x12, 0xa4, 0x42] ++ List.replicate 12 7 ++
    [0x80, 0x22, 0x00, 0x01, 0x61]

theorem unpaddedResponse_cutShort : CutShort unpaddedResponse where
  header := by decide
  magic := by decide
  success := by decide
  inside := by decide
  cut := .last ⟨[0x80, 0x22, 0x00, 0x01], [0x61], rfl, rfl⟩
    (fun h => absurd h.2 (by decide)) [] (by decide)

end Clyntis.Tailscale.Stun
