import Clyntis.Tailscale.NetMap
import Clyntis.Tailscale.Stun

/-!
# Disco messages (`disco.rs`)

Path-discovery messages between nodes, boxed between disco keys. The box itself
is third-party cryptography: `Unbox` stands for opening a box from a given sender
with our key.
-/

namespace Clyntis.Tailscale.Disco

open Lib Net
open Stun (Tx)

/-- `Message`. -/
inductive Message where
  | ping (tx : Tx) (nodeKey : Option Public)
  | pong (tx : Tx) (src : SocketAddr)
  | callMeMaybe (endpoints : List SocketAddr)
  deriving DecidableEq, Repr

/-- `MAGIC`: "TS💬". -/
def magic : Bytes := [0x54, 0x53, 0xf0, 0x9f, 0x92, 0xac]

/-- A public key from its 32 bytes. -/
def publicOf (bs : Bytes) : Public := BitVec.ofNat 256 (beNat bs)

/-- `get_endpoint` on the 18 bytes of an endpoint. -/
def getEndpoint (data : Bytes) : SocketAddr where
  ip := (IpAddr.ofOctets16 (data.take 16)).toCanonical
  port := UInt16.ofNat (beNat ((data.drop 16).take 2))

/-- `Message::decode`. The length guards keep every range inside the data. -/
def Message.decode (data : Bytes) : Option Message :=
  match data with
  | kind :: version :: body =>
    if kind = 0x01 ∧ 12 ≤ body.length then
      let nodeKey := if 44 ≤ body.length then some (publicOf ((body.drop 12).take 32)) else none
      some (.ping (body.take 12) (nodeKey.filter (· != 0)))
    else if kind = 0x02 ∧ 12 + 18 ≤ body.length then
      some (.pong (body.take 12) (getEndpoint (body.drop 12)))
    else if kind = 0x03 ∧ body.length % 18 = 0 ∧ version = 0 then
      some (.callMeMaybe ((body.toChunks 18).map getEndpoint))
    else none
  | _ => none

/-- `is_disco`. -/
def isDisco (packet : Bytes) : Bool :=
  decide (magic.length + 32 + 24 ≤ packet.length) && magic.isPrefixOf packet

/-- Opening a box from `sender` with our disco key; `none` when it does not open. -/
abbrev Unbox : Type := (sender : Public) → Bytes → Option Bytes

/-- `open`: the sender's disco key and the message, if the box opens. -/
def openPacket (unbox : Unbox) (packet : Bytes) : Option (Public × Message) :=
  if isDisco packet then
    let sender := publicOf ((packet.drop 6).take 32)
    (unbox sender (packet.drop 38)).bind fun plain =>
      (Message.decode plain).map fun message => (sender, message)
  else none

end Clyntis.Tailscale.Disco
