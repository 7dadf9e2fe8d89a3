import Clyntis.Net.Addr

/-!
# Recognising TLS inside a stream (`vision.rs`)

Vision looks at the first 64 KiB that pass through it: whether the client speaks TLS, and whether
the server's hello selects TLS 1.3.

- `TlsHello.observe`: collects TLS records and from them the server's hello, piece by piece;
- `serverHello`: `some true` for TLS 1.3 with one of its suites, `some false` for another TLS
  version, `none` for anything else;
- `InnerTls.observe`: what the two directions say.
-/

namespace Clyntis.Protocol.Vision

open Lib Net

/-- The 16-bit number at an offset. -/
def be16 (bytes : Bytes) (offset : Nat) : Nat := beNat ((bytes.drop offset).take 2)

/-- The loop of `server_hello` over the extensions; `version` says whether one of them selected
TLS 1.3. Each turn takes four bytes or more. -/
def extensionVersion : (turns : Nat) → Bytes → Option Bool → Option (Option Bool)
  | 0, _, version => some version
  | turns + 1, bytes, version =>
    if bytes = [] then some version
    else if bytes.length < 4 then none
    else
      let kind := be16 bytes 0
      let n := be16 bytes 2
      let bytes := bytes.drop 4
      if bytes.length < n then none
      else if kind = 43 then
        if version.isSome ∨ n ≠ 2 then none
        else extensionVersion turns (bytes.drop n) (some (bytes.take n == [3, 4]))
      else extensionVersion turns (bytes.drop n) version

/-- `server_hello`. -/
def serverHello (bytes : Bytes) : Option Bool :=
  if bytes.length < 38 ∨ bytes.take 2 ≠ [3, 3] then none
  else
    let sessionLen := (bytes.getD 34 0).toNat
    let offset := 35 + sessionLen
    if 32 < sessionLen then none
    else if bytes.length < offset + 3 ∨ bytes.getD (offset + 2) 0 ≠ 0 then none
    else
      let suite := be16 bytes offset
      if offset + 3 = bytes.length then some false
      else if bytes.length < offset + 5 then none
      else if offset + 5 + be16 bytes (offset + 3) ≠ bytes.length then none
      else (extensionVersion bytes.length (bytes.drop (offset + 5)) none).map fun version =>
        version == some true && decide (0x1301 ≤ suite) && decide (suite ≤ 0x1304)

/-- `TlsHello`. -/
structure TlsHello where
  record : Bytes := []
  handshake : Bytes := []
  done : Bool := false
  deriving DecidableEq, Repr

namespace TlsHello

/-- How long the record at hand is, as far as it is known. -/
def need (h : TlsHello) : Nat := if h.record.length < 5 then 5 else 5 + be16 h.record 3

/-- `done`, with the result. -/
def finish (h : TlsHello) (result : Option Bool) : Option (Option Bool) × TlsHello :=
  (some result, { h with done := true })

/-- The end of a turn of `observe`, with a whole record: what it adds to the handshake. -/
def addRecord (h : TlsHello) : Option (Option Bool) × TlsHello :=
  let h := { h with handshake := h.handshake ++ h.record.drop 5, record := [] }
  let length := beNat ((h.handshake.drop 1).take 3)
  if 18432 < h.handshake.length then h.finish none
  else if h.handshake.length < 4 then (none, h)
  else if h.handshake.getD 0 0 ≠ 2 then h.finish none
  else if 18428 < length then h.finish none
  else if length + 4 ≤ h.handshake.length then
    h.finish (serverHello ((h.handshake.drop 4).take length))
  else (none, h)

/-- One turn of `observe`: `none` if it goes on, and what is left of the bytes. -/
def turn (h : TlsHello) (bytes : Bytes) : (Option (Option Bool) × TlsHello) × Bytes :=
  if 18437 < h.need then (h.finish none, bytes)
  else
    let count := min bytes.length (h.need - h.record.length)
    let h := { h with record := h.record ++ bytes.take count }
    let bytes := bytes.drop count
    if h.record.length < 5 then ((none, h), bytes)
    else if h.record.getD 0 0 ≠ 22 ∨ h.record.getD 1 0 ≠ 3 then (h.finish none, bytes)
    else if h.record.length < h.need then ((none, h), bytes)
    else (h.addRecord, bytes)

/-- The turns of `observe`. -/
def observeLoop : (turns : Nat) → TlsHello → Bytes → Option Bool × TlsHello
  | 0, h, _ => (none, h)
  | turns + 1, h, bytes =>
    if bytes = [] ∨ h.done then (none, h)
    else
      let out := h.turn bytes
      match out.1.1 with
      | some result => (result, out.1.2)
      | none => observeLoop turns out.1.2 out.2

/-- `observe`. A record is never longer than what it needs, so each turn takes a byte. -/
def observe (h : TlsHello) (bytes : Bytes) : Option Bool × TlsHello :=
  observeLoop bytes.length h bytes

end TlsHello

/-- `InnerTls`. -/
structure InnerTls where
  client : Bytes := []
  server : TlsHello := {}
  tls : Bool := false
  tls13 : Bool := false
  remaining : Nat := 65536
  deriving DecidableEq, Repr

/-- `observe`. -/
def InnerTls.observe (t : InnerTls) (bytes : Bytes) (server : Bool) : InnerTls :=
  if t.remaining = 0 ∨ t.tls13 then t
  else
    let t := { t with remaining := t.remaining - bytes.length }
    if server then
      let out := t.server.observe bytes
      match out.1 with
      | some tls13 => { t with server := out.2, tls := true, tls13 := tls13 }
      | none => { t with server := out.2 }
    else
      let client := t.client ++ bytes.take (8 - t.client.length)
      { t with
        client := client
        tls := t.tls || (decide (6 ≤ client.length) && client.getD 0 0 == 22 &&
          client.getD 1 0 == 3 && client.getD 5 0 == 1) }

end Clyntis.Protocol.Vision
