import Clyntis.Lib.Chunks
import Clyntis.Protocol.Xudp

/-!
# Reading XUDP frames (`xudp.rs`)

The frames of `packet` are read by two tasks: the reader of a multiplexer
(`read_multiplexed`) and the `recv` of a session with a stream of its own.

- `multiplexedMetadata`, `metadata`: the two parsers of a frame's metadata;
- `readFrame`, `readMultiplexed`: what the multiplexer's reader takes off its stream, frame by
  frame;
- `Session.recv`: the next datagram of a single session.

The stream comes in pieces of any size (`Lib.Chunks`). `xudp_codec` is the result: the lengths
of a frame, what both readers make of a sequence of KEEP frames, and that the two parsers agree
on KEEP frames of session 0.
-/

namespace Clyntis.Protocol.Xudp

open Lib Net
open Lib.Chunks (readExact readExact_append readExact_eq_none)

def maxMetadata : Nat := 512
def maxPayload : Nat := 65507

/-! ## Metadata -/

/-- The options of a frame: `DATA` is 1 and `ERROR` is 2. -/
def checkFlags (flags : UInt8) : Except String Unit :=
  if flags &&& ~~~(1 ||| 2) ≠ 0 then .error "invalid XUDP options"
  else if flags &&& 2 ≠ 0 then .error "XUDP peer rejected session"
  else .ok ()

/-- The target behind the fixed part of the metadata, if there is one. -/
def metadataTarget (status : UInt8) : Bytes → Except String (Option Target)
  | [] => .ok none
  | network :: address => do
    if status ≠ 2 ∨ network ≠ 2 then throw "invalid XUDP network"
    let decoded ← decodeAddress address
    if decoded.2 ≠ address.length then throw "trailing XUDP metadata"
    return some decoded.1

/-- A keepalive has no options. -/
def checkKeepalive (status flags : UInt8) : Except String Unit :=
  if status = 4 ∧ flags ≠ 0 then .error "XUDP keepalive cannot carry data" else .ok ()

/-- `KEEP`, `END` and `KEEPALIVE`. -/
def Status.ofByte (status : UInt8) : Option Status :=
  if status = 2 then some .keep else if status = 3 then some .close
  else if status = 4 then some .keepalive else none

/-- `multiplexed_metadata`. -/
def multiplexedMetadata (bytes : Bytes) : Except String MuxMetadata :=
  if bytes.length < 4 ∨ maxMetadata < bytes.length then .error "invalid XUDP metadata length"
  else match bytes with
    | high :: low :: status :: flags :: rest => do
      checkFlags flags
      match Status.ofByte status with
      | none => throw "unexpected XUDP frame status"
      | some kind =>
        let target ← metadataTarget status rest
        checkKeepalive status flags
        return ⟨UInt16.ofNat (beNat [high, low]), kind, flags &&& 1 != 0, target⟩
    | _ => .error "invalid XUDP metadata length"

/-- `metadata`. -/
def metadata (bytes : Bytes) (default : Target) : Except String (Target × Bool) :=
  if bytes.length < 4 ∨ maxMetadata < bytes.length then .error "invalid XUDP metadata length"
  else match bytes with
    | high :: low :: status :: flags :: rest => do
      checkFlags flags
      if status ≠ 4 ∧ beNat [high, low] ≠ 0 then throw "unexpected XUDP session ID"
      if status = 3 then throw "XUDP session ended"
      if status ≠ 2 ∧ status ≠ 4 then throw "unexpected XUDP frame status"
      let target ← metadataTarget status rest
      checkKeepalive status flags
      return (target.getD default, flags &&& 1 != 0)
    | _ => .error "invalid XUDP metadata length"

/-! ## The readers -/

/-- Why a reader stops. -/
inductive ReadError where
  | unexpectedEof
  | invalid (message : String)
  deriving DecidableEq, Repr

/-- `reader.read_exact` with a buffer of `n` bytes. -/
def readBytes (n : Nat) (stream : List Bytes) : Except ReadError (Bytes × List Bytes) :=
  match readExact n stream with
  | some out => .ok out
  | none => .error .unexpectedEof

/-- A length field and as many bytes; the length is checked before they are read. -/
def readBlock (low high : Nat) (message : String) (stream : List Bytes) :
    Except ReadError (Bytes × List Bytes) := do
  let length ← readBytes 2 stream
  if beNat length.1 < low ∨ high < beNat length.1 then throw (.invalid message)
  readBytes (beNat length.1) length.2

/-- The metadata of the next frame, as it came. -/
def readHeader : List Bytes → Except ReadError (Bytes × List Bytes) :=
  readBlock 4 maxMetadata "invalid XUDP metadata length"

/-- The payload of a frame. -/
def readPayload : List Bytes → Except ReadError (Bytes × List Bytes) :=
  readBlock 0 maxPayload "XUDP payload exceeds limit"

/-- A frame as the multiplexer's reader has parsed it. -/
abbrev MuxFrame : Type := MuxMetadata × Option Bytes

/-- One turn of the loop in `read_multiplexed`, up to the look at the status. -/
def readFrame (stream : List Bytes) :
    Except ReadError (MuxFrame × List Bytes) := do
  let header ← readHeader stream
  let metadata ← (multiplexedMetadata header.1).mapError .invalid
  if metadata.data then
    let payload ← readPayload header.2
    return ((metadata, some payload.1), payload.2)
  else return ((metadata, none), header.2)

/-- Up to `turns` turns of the loop in `read_multiplexed`: the frames, and why it ended. -/
def readMultiplexed : (turns : Nat) → List Bytes → List MuxFrame × Option ReadError
  | 0, _ => ([], none)
  | turns + 1, stream =>
    match readFrame stream with
    | .error e => ([], some e)
    | .ok out =>
      (out.1 :: (readMultiplexed turns out.2).1, (readMultiplexed turns out.2).2)

/-- The loop of `recv`, with `turns` frames left of its 256. -/
def recvLoop (default : Target) : (turns : Nat) → List Bytes →
    Except ReadError ((Target × Bytes) × List Bytes)
  | 0, _ => .error (.invalid "too many XUDP control frames without data")
  | turns + 1, stream => do
    let header ← readHeader stream
    let found ← (metadata header.1 default).mapError .invalid
    if found.2 then
      let payload ← readPayload header.2
      return ((found.1, payload.1), payload.2)
    else recvLoop default turns header.2

/-- `Session`, its reading side. -/
structure Session where
  target : Target
  stream : List Bytes
  usable : Bool := true

/-- `recv`: the session can be read from again only if it returned a datagram. -/
def Session.recv (s : Session) : Except ReadError (Target × Bytes) × Session :=
  if !s.usable then (.error (.invalid "XUDP reader interrupted or closed"), s)
  else match recvLoop s.target 256 s.stream with
    | .error e => (.error e, { s with usable := false })
    | .ok out => (.ok out.1, { s with stream := out.2 })

/-! ## Reading back what was written -/

variable {rest address bs : Bytes} {stream : List Bytes}
  {frame : Bytes}

theorem readBytes_append (h : stream.flatten = bs ++ rest) :
    ∃ stream', readBytes bs.length stream = .ok (bs, stream') ∧ stream'.flatten = rest := by
  obtain ⟨stream', hread, hflat⟩ := readExact_append h
  exact ⟨stream', by rw [readBytes, hread], hflat⟩

/-- A block is read back, however the stream is cut. -/
theorem readBlock_append {low high : Nat} {m : String} (hlow : low ≤ bs.length)
    (hhigh : bs.length ≤ high) (hfits : high < 2 ^ 16)
    (h : stream.flatten = beBytes 2 bs.length ++ (bs ++ rest)) :
    ∃ stream', readBlock low high m stream = .ok (bs, stream') ∧ stream'.flatten = rest := by
  have hlength : beNat (beBytes 2 bs.length) = bs.length := by
    rw [beNat_beBytes, Nat.mod_eq_of_lt (by omega)]
  obtain ⟨stream₁, hread₁, hflat₁⟩ := readBytes_append h
  obtain ⟨stream₂, hread₂, hflat₂⟩ := readBytes_append hflat₁
  rw [length_beBytes] at hread₁
  refine ⟨stream₂, ?_, hflat₂⟩
  unfold readBlock
  rw [hread₁]
  simp only [Exec.ok_bind, hlength]
  rw [if_neg (by omega)]
  exact hread₂

/-- A datagram that `packet` accepts. -/
structure Datagram where
  id : UInt16
  target : Target
  payload : Bytes
  valid : target.Valid
  length_le : payload.length ≤ maxPayload

variable {d : Datagram}

/-- The metadata of a datagram's frame. -/
def Datagram.metadata (d : Datagram) (address : Bytes) (first : Bool)
    (globalId : Option (Vector UInt8 8)) : Bytes :=
  beBytes 2 d.id.toNat ++ [if first then 1 else 2, 1, 2] ++ address ++
    if first then (globalId.map Vector.toList).getD [] else []

/-- What `packet` makes of a datagram. -/
theorem Datagram.packet_eq (d : Datagram) (first : Bool) (globalId : Option (Vector UInt8 8)) :
    ∃ address, encodeAddress d.target = .ok address ∧
      packet d.id d.target d.payload first globalId =
        .ok (beBytes 2 (d.metadata address first globalId).length ++
          (d.metadata address first globalId ++ (beBytes 2 d.payload.length ++ d.payload))) := by
  have hlen : ¬ 65507 < d.payload.length := Nat.not_lt.mpr d.length_le
  refine ⟨_, d.valid.encodeAddress_eq, ?_⟩
  unfold packet
  rw [if_neg hlen, d.valid.encodeAddress_eq]
  simp [Datagram.metadata, Nat.add_assoc]

theorem Datagram.length_metadata (d : Datagram) (henc : encodeAddress d.target = .ok address)
    (first : Bool) (globalId : Option (Vector UInt8 8)) :
    5 ≤ (d.metadata address first globalId).length ∧
      (d.metadata address first globalId).length ≤ maxMetadata := by
  have hlen := d.valid.length_le henc
  have hglobal : ((globalId.map Vector.toList).getD []).length ≤ 8 := by
    cases globalId with
    | none => exact Nat.zero_le _
    | some g => exact Nat.le_of_eq (by simp)
  unfold Datagram.metadata maxMetadata
  split <;> simp only [List.length_append, length_beBytes, List.length_cons, List.length_nil] <;>
    omega

/-- The multiplexer's parser on the metadata of a KEEP frame. -/
theorem Datagram.multiplexedMetadata_eq (d : Datagram) (henc : encodeAddress d.target = .ok address)
    (globalId : Option (Vector UInt8 8)) :
    multiplexedMetadata (d.metadata address false globalId) =
      .ok ⟨d.id, .keep, true, some d.target⟩ := by
  obtain ⟨hlow, hhigh⟩ := d.length_metadata henc false globalId
  have hid := ofNat_beNat_beBytes d.id
  obtain ⟨high, low, hbytes⟩ : ∃ high low, beBytes 2 d.id.toNat = [high, low] := ⟨_, _, rfl⟩
  have hdecode : decodeAddress address = .ok (d.target, address.length) := by
    have happend := decodeAddress_append d.valid henc []
    rwa [List.append_nil] at happend
  have hmeta : d.metadata address false globalId = high :: low :: 2 :: 1 :: 2 :: address := by
    simp [Datagram.metadata, hbytes]
  rw [hbytes] at hid
  unfold multiplexedMetadata
  rw [if_neg (by omega), hmeta]
  simp [show checkFlags 1 = .ok () from rfl, Status.ofByte, metadataTarget, hdecode,
    checkKeepalive, hid]

/-- **The two parsers agree** on KEEP frames of session 0. -/
theorem metadata_eq_ok_iff {bytes : Bytes} {default target : Target} {data : Bool}
    (hid : bytes.take 2 = [0, 0]) (hkeep : bytes[2]? = some 2) :
    metadata bytes default = .ok (target, data) ↔
      ∃ found, multiplexedMetadata bytes = .ok ⟨0, .keep, data, found⟩ ∧
        target = found.getD default := by
  obtain ⟨rest, rfl⟩ : ∃ rest, bytes = 0 :: 0 :: 2 :: rest := by
    match bytes, hid, hkeep with
    | _ :: _ :: _ :: rest, hid, hkeep =>
      cases hid
      cases hkeep
      exact ⟨rest, rfl⟩
  unfold metadata multiplexedMetadata
  split
  · simp
  · cases rest with
    | nil => simp
    | cons flags rest =>
      -- past the flags, both parsers look for the target
      have hkeepalive : checkKeepalive 2 flags = .ok () := by simp [checkKeepalive]
      cases hflags : checkFlags flags with
      | error e => simp [hflags, bind, Except.bind]
      | ok _ =>
        cases htarget : metadataTarget 2 rest with
        | error e =>
          simp [hflags, htarget, bind, Except.bind, Status.ofByte, show beNat [0, 0] = 0 from rfl]
        | ok found =>
          simp [hflags, htarget, hkeepalive, Status.ofByte, show beNat [0, 0] = 0 from rfl]
          exact ⟨fun ⟨ht, hd⟩ => ⟨hd, ht.symm⟩, fun ⟨hd, ht⟩ => ⟨ht.symm, hd⟩⟩

/-! ## Sequences of frames -/

/-- The frame of a datagram of a session that is known to the peer. -/
def Datagram.IsKeep (d : Datagram) (frame : Bytes) : Prop :=
  ∃ globalId, packet d.id d.target d.payload false globalId = .ok frame

/-- What the multiplexer's reader should find for a datagram. -/
def Datagram.found (d : Datagram) : MuxFrame :=
  (⟨d.id, .keep, true, some d.target⟩, some d.payload)

/-- The two blocks of a frame in front of the stream are read. -/
theorem Datagram.readBlocks_eq (hkeep : d.IsKeep frame) (h : stream.flatten = frame ++ rest) :
    ∃ address globalId stream₁ stream₂, encodeAddress d.target = .ok address ∧
      readHeader stream = .ok (d.metadata address false globalId, stream₁) ∧
      readPayload stream₁ = .ok (d.payload, stream₂) ∧ stream₂.flatten = rest := by
  obtain ⟨globalId, hpacket⟩ := hkeep
  obtain ⟨address, henc, heq⟩ := d.packet_eq false globalId
  obtain rfl := Except.ok.inj (hpacket.symm.trans heq)
  obtain ⟨hlow, hhigh⟩ := d.length_metadata henc false globalId
  simp only [List.append_assoc] at h
  obtain ⟨stream₁, hread₁, hflat₁⟩ := readBlock_append (m := "invalid XUDP metadata length")
    (Nat.le_trans (by decide : 4 ≤ 5) hlow) hhigh (by decide) h
  obtain ⟨stream₂, hread₂, hflat₂⟩ := readBlock_append (m := "XUDP payload exceeds limit")
    (Nat.zero_le _) d.length_le (by decide) hflat₁
  exact ⟨address, globalId, stream₁, stream₂, henc, hread₁, hread₂, hflat₂⟩

/-- A frame in front of the stream is read. -/
theorem Datagram.readFrame_eq (hkeep : d.IsKeep frame) (h : stream.flatten = frame ++ rest) :
    ∃ stream', readFrame stream = .ok (d.found, stream') ∧ stream'.flatten = rest := by
  obtain ⟨address, globalId, stream₁, stream₂, henc, hheader, hpayload, hflat⟩ :=
    Datagram.readBlocks_eq hkeep h
  refine ⟨stream₂, ?_, hflat⟩
  unfold readFrame
  simp [hheader, hpayload, d.multiplexedMetadata_eq henc, Except.mapError, Datagram.found]

/-- The reader finds the datagrams in order, and the end of the stream after the last. -/
theorem readMultiplexed_eq {ds : List Datagram} {frames : List Bytes}
    (hframes : List.Forall₂ Datagram.IsKeep ds frames) (h : stream.flatten = frames.flatten)
    (turns : Nat) :
    (readMultiplexed turns stream).1 = (ds.map Datagram.found).take turns ∧
      (ds.length < turns → (readMultiplexed turns stream).2 = some .unexpectedEof) := by
  induction hframes generalizing stream turns with
  | nil =>
    cases turns with
    | zero => exact ⟨rfl, nofun⟩
    | succ turns =>
      have hend : readFrame stream = .error .unexpectedEof := by
        unfold readFrame readHeader readBlock readBytes
        rw [readExact_eq_none (by rw [h]; decide)]
        rfl
      simp [readMultiplexed, hend]
  | @cons d frame ds frames hkeep _ ih =>
    cases turns with
    | zero => exact ⟨rfl, nofun⟩
    | succ turns =>
      obtain ⟨stream', hread, hflat⟩ := Datagram.readFrame_eq hkeep h
      obtain ⟨hfound, hend⟩ := ih hflat turns
      simp only [readMultiplexed, hread, hfound, List.map_cons, List.take_succ_cons, true_and]
      intro hlt
      exact hend (Nat.lt_of_succ_lt_succ hlt)

/-- The single-session parser on the metadata of a KEEP frame of session 0. -/
theorem Datagram.metadata_eq (d : Datagram) (hid : d.id = 0)
    (henc : encodeAddress d.target = .ok address) (globalId : Option (Vector UInt8 8))
    (default : Target) :
    Xudp.metadata (d.metadata address false globalId) default = .ok (d.target, true) := by
  have hmeta := d.multiplexedMetadata_eq henc globalId
  rw [hid] at hmeta
  refine (metadata_eq_ok_iff ?_ ?_).mpr ⟨_, hmeta, rfl⟩
  · simp only [Datagram.metadata, hid]
    rfl
  · rfl

/-- A session of its own receives the datagram in front of its stream. -/
theorem Datagram.recv_eq (hid : d.id = 0)
    (hkeep : d.IsKeep frame) {s : Session} (husable : s.usable = true)
    (h : s.stream.flatten = frame ++ rest) :
    ∃ stream', s.recv = (.ok (d.target, d.payload), { s with stream := stream' }) ∧
      stream'.flatten = rest := by
  obtain ⟨address, globalId, stream₁, stream₂, henc, hheader, hpayload, hflat⟩ :=
    Datagram.readBlocks_eq hkeep h
  refine ⟨stream₂, ?_, hflat⟩
  unfold Session.recv recvLoop
  simp [husable, hheader, hpayload, d.metadata_eq hid henc, Except.mapError]

/-- **The packet codec.** A frame that `packet` makes for a valid target states the length of its
metadata, which is at most 512. The multiplexed reader finds every sequence of KEEP frames again,
however the stream is cut into reads, and then its end; a session of its own receives the
datagrams of session 0 one by one; and the two parsers accept the same KEEP metadata of session 0
with the same target and data flag, where no target stands for the default one. -/
theorem xudp_codec :
    (∀ (d : Datagram) (first : Bool) (globalId : Option (Vector UInt8 8)),
      ∃ metadata frame, packet d.id d.target d.payload first globalId = .ok frame ∧
        frame = beBytes 2 metadata.length ++ metadata ++ beBytes 2 d.payload.length ++ d.payload ∧
        beNat (frame.take 2) = metadata.length ∧ metadata.length ≤ 512 ∧
        metadata.length < 2 ^ 16) ∧
    (∀ (ds : List Datagram) (frames stream : List Bytes),
      List.Forall₂ Datagram.IsKeep ds frames → stream.flatten = frames.flatten →
      ∀ turns, (readMultiplexed turns stream).1 = (ds.map Datagram.found).take turns ∧
        (ds.length < turns → (readMultiplexed turns stream).2 = some .unexpectedEof)) ∧
    (∀ (d : Datagram) (frame rest : Bytes) (s : Session), d.id = 0 → d.IsKeep frame →
      s.usable = true → s.stream.flatten = frame ++ rest →
      ∃ stream', s.recv = (.ok (d.target, d.payload), { s with stream := stream' }) ∧
        stream'.flatten = rest) ∧
    ∀ (bytes : Bytes) (default target : Target) (data : Bool), bytes.take 2 = [0, 0] →
      bytes[2]? = some 2 →
      (metadata bytes default = .ok (target, data) ↔
        ∃ found, multiplexedMetadata bytes = .ok ⟨0, .keep, data, found⟩ ∧
          target = found.getD default) := by
  refine ⟨?_, ?_, ?_, ?_⟩
  · intro d first globalId
    obtain ⟨address, henc, heq⟩ := d.packet_eq first globalId
    obtain ⟨-, hle⟩ := d.length_metadata henc first globalId
    have hle : (d.metadata address first globalId).length ≤ 512 := hle
    refine ⟨d.metadata address first globalId, _, heq, by simp only [List.append_assoc], ?_, hle,
      by omega⟩
    rw [List.take_left' (length_beBytes _ _), beNat_beBytes, Nat.mod_eq_of_lt (by omega)]
  · intro ds frames stream hframes hflat
    exact readMultiplexed_eq hframes hflat
  · intro d frame rest s hid hkeep husable hflat
    exact Datagram.recv_eq hid hkeep husable hflat
  · intro bytes default target data hid hkeep
    exact metadata_eq_ok_iff hid hkeep

/-- Two bytes for a resolver, on session 7. -/
def query : Datagram where
  id := 7
  target := ⟨"1.2.3.4".toList, 53⟩
  payload := [0xab, 0xcd]
  valid := ⟨"1.2.3.4".toList, 53, rfl⟩
  length_le := by decide

/-- The frame of the query, read in three pieces. -/
theorem xudp_codec_in_pieces :
    query.IsKeep [0, 12, 0, 7, 2, 1, 2, 0, 53, 1, 1, 2, 3, 4, 0, 2, 0xab, 0xcd] ∧
      (readMultiplexed 2 [[0], [12, 0, 7, 2, 1, 2, 0, 53, 1, 1, 2, 3, 4, 0, 2, 0xab], [0xcd]]).1 =
        [(⟨7, .keep, true, some ⟨"1.2.3.4".toList, 53⟩⟩, some [0xab, 0xcd])] := by
  have hkeep : query.IsKeep [0, 12, 0, 7, 2, 1, 2, 0, 53, 1, 1, 2, 3, 4, 0, 2, 0xab, 0xcd] :=
    ⟨none, by decide +kernel⟩
  exact ⟨hkeep, (xudp_codec.2.1 [query] _ _ (.cons hkeep .nil) rfl 2).1⟩

end Clyntis.Protocol.Xudp
