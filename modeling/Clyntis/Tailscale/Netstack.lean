import Clyntis.Lib.Exec
import Clyntis.Tailscale.NetMap

/-!
# The packet gate of the netstack (`netstack.rs`)

Decrypted packets enter the userspace TCP/IP stack through a gate that keeps
peers off restricted `serve` ports. The gate identifies a peer by the source
address of its packets, so it is only as good as the router's check that a peer
sends from its own addresses.

- `lookAt`: the part of `Gate::admits` that finds the source address and the TCP
  segment of a packet, or decides without them;
- `Gate.admits`: the verdict;
- `Gate.entryFor`: the allow-list entry a packet is admitted by, if a restricted
  port admits it at all (`admits_pass_of_restricted`). It is the packet's source
  address (`srcAddress_of_entryFor`).
-/

namespace Clyntis.Tailscale

open Lib Net

/-- The verdict of the gate. -/
inductive Admission where
  | pass
  /-- `syn`: a connection attempt, counted once -/
  | denied (syn : Bool)
  deriving DecidableEq, Repr

/-- What a look at the IP header tells: a verdict, or the source address and
the TCP segment (missing when the header claims to be longer than the packet). -/
inductive Look where
  | verdict (v : Admission)
  | tcp (source : IpAddr) (segment : Option Bytes)
  deriving DecidableEq, Repr

/-- The `match` on the IP version in `Gate::admits`. -/
def lookAt (packet : Bytes) : Exec Look := do
  let version := packet.head?.map fun b : UInt8 => b >>> 4
  if version = some 4 ∧ 20 ≤ packet.length then
    let header := ((← index packet 0) &&& 0x0f).toNat * 4
    if (← index packet 9) ≠ 6 ∨ header < 20 then
      return .verdict .pass
    return .tcp (.ofOctets4 (← slice packet 12 16)) (getFrom packet header)
  else if version = some 6 ∧ 40 ≤ packet.length then
    let next ← index packet 6
    -- Extension headers could carry TCP past this check.
    if next = 0 ∨ next = 43 ∨ next = 44 ∨ next = 60 then
      return .verdict (.denied false)
    else if next ≠ 6 then
      return .verdict .pass
    return .tcp (.ofOctets16 (← slice packet 8 24)) (getFrom packet 40)
  else
    return .verdict .pass

namespace Gate

/-- The destination port of a TCP segment. -/
def segmentPort (segment : Bytes) : Exec UInt16 := do
  return UInt16.ofNat (beNat [← index segment 2, ← index segment 3])

/-- `Gate::admits`. -/
def admits (g : Gate) (packet : Bytes) : Exec Admission := do
  if g.ports.entries.isEmpty then return .pass
  match ← lookAt packet with
  | .verdict v => return v
  | .tcp source segment =>
    match segment.filter fun tcp => decide (14 ≤ tcp.length) with
    | none => return .denied false
    | some tcp =>
      match g.ports.lookup (← segmentPort tcp) with
      | none => return .pass
      | some none => return .pass
      | some (some allowed) =>
        if allowed.contains source then return .pass
        return .denied ((← index tcp 13) &&& 0x12 == 0x02)

/-- The allow-list of the restricted port a packet is addressed to, with the
packet's source address. -/
def restricted (g : Gate) (packet : Bytes) : Option (IpAddr × List IpAddr) :=
  match lookAt packet with
  | .ok (.tcp source (some tcp)) =>
    if 14 ≤ tcp.length then
      match segmentPort tcp with
      | .ok port =>
        match g.ports.lookup port with
        | some (some allowed) => some (source, allowed)
        | _ => none
      | .error _ => none
    else none
  | _ => none

/-- The allow-list entry that admits a packet to a restricted port. -/
def entryFor (g : Gate) (packet : Bytes) : Option IpAddr :=
  match g.restricted packet with
  | some (source, allowed) => if allowed.contains source then some source else none
  | none => none

variable {packet : Bytes}

/-- A packet to a restricted port passes the gate exactly when some allow-list
entry admits it. -/
theorem admits_pass_of_restricted {g : Gate} {source : IpAddr} {allowed : List IpAddr}
    (h : g.restricted packet = some (source, allowed)) :
    g.admits packet = .ok .pass ↔ g.entryFor packet = some source := by
  unfold entryFor
  rw [h]
  unfold restricted at h
  split at h
  · next src tcp hlook =>
    split at h
    · next h14 =>
      split at h
      · next port hport =>
        split at h
        · next al hal =>
          obtain ⟨rfl, rfl⟩ := Prod.mk.inj (Option.some.inj h)
          have hne : g.ports.entries.isEmpty = false := by
            rw [List.isEmpty_eq_false_iff]
            exact List.ne_nil_of_mem (Table.lookup_eq_some_iff.mp hal)
          unfold admits
          rw [hne, hlook]
          simp only [Exec.ok_bind]
          rw [Option.filter_some, if_pos (decide_eq_true h14)]
          simp only [hport, Exec.ok_bind, hal]
          rw [index_ok (by omega)]
          simp
        · cases h
      · cases h
    · cases h
  · cases h

end Gate

/-- The source address of an IP packet. -/
def srcAddress (packet : Bytes) : Option IpAddr :=
  match packet.head?.map fun b : UInt8 => b >>> 4 with
  | some 4 => if 20 ≤ packet.length then some (.ofOctets4 ((packet.drop 12).take 4)) else none
  | some 6 => if 40 ≤ packet.length then some (.ofOctets16 ((packet.drop 8).take 16)) else none
  | _ => none

/-- The gate reads the packet's source address. -/
theorem srcAddress_of_lookAt {packet : Bytes} {source : IpAddr}
    {segment : Option Bytes} (h : lookAt packet = .ok (.tcp source segment)) :
    srcAddress packet = some source := by
  unfold lookAt at h
  unfold srcAddress
  dsimp only at h
  split at h
  · next h4 =>
    rw [index_ok (by omega), index_ok (by omega), slice_ok (by omega) (by omega)] at h
    simp only [Exec.ok_bind] at h
    split at h
    · cases h
    · cases h
      rw [h4.1]
      exact if_pos h4.2
  · split at h
    · next h6 =>
      rw [index_ok (by omega), slice_ok (by omega) (by omega)] at h
      simp only [Exec.ok_bind] at h
      split at h
      · cases h
      · split at h
        · cases h
        · cases h
          rw [h6.1]
          exact if_pos h6.2
    · cases h

/-- The allow-list entry that admits a packet is its source address. -/
theorem Gate.srcAddress_of_entryFor {g : Gate} {packet : Bytes} {a : IpAddr}
    (h : g.entryFor packet = some a) : srcAddress packet = some a := by
  unfold Gate.entryFor Gate.restricted at h
  cases hlook : lookAt packet with
  | error p => rw [hlook] at h; cases h
  | ok look =>
    rw [hlook] at h
    cases look with
    | verdict v => cases h
    | tcp source segment =>
      rw [srcAddress_of_lookAt hlook]
      cases segment with
      | none => cases h
      | some tcp =>
        dsimp only at h
        split at h
        · next s allowed hres =>
          have hs : source = s := by
            split at hres
            · split at hres
              · split at hres
                · exact (Prod.mk.inj (Option.some.inj hres)).1
                · cases hres
              · cases hres
            · cases hres
          rw [hs]
          split at h
          · exact h
          · cases h
        · cases h

end Clyntis.Tailscale
