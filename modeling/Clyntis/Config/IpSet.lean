import Clyntis.Config.Matcher
import Clyntis.Lib.Ranges

/-!
# Address sets (`rule.rs`, `IpSet::new`)

Networks are kept as merged address ranges, the families apart.

- `IpSet.new`: the ranges of networks, sorted and merged;
- `IpSet.matchesIp_new`: the set holds the addresses its networks contain.
-/

namespace Clyntis.Config

open Lib Net List

namespace IpSet

/-- `u128::MAX`. -/
def maxU128 : Nat := 2 ^ 128 - 1

/-- `(network, broadcast)` of an IPv4 network. -/
def range4 : IpNet → Option (Nat × Nat)
  | .v4 n => some (n.network, n.broadcast)
  | .v6 _ => none

/-- `(network, broadcast)` of an IPv6 network. -/
def range6 : IpNet → Option (Nat × Nat)
  | .v4 _ => none
  | .v6 n => some (n.network, n.broadcast)

/-- The ranges of these networks of one family. -/
def merged (range : IpNet → Option (Nat × Nat)) (nets : List IpNet) : List (Nat × Nat) :=
  mergeRanges maxU128 (sortRanges (nets.filterMap range))

theorem cidr_range {w : Nat} (hw : w ≤ 128) (n : CidrNet w) :
    n.network ≤ n.broadcast ∧ n.broadcast ≤ maxU128 := by
  have hsize := n.size_pos
  have hle := n.network_add_size_le
  have hpow : 2 ^ w ≤ 2 ^ 128 := Nat.pow_le_pow_right (by decide) hw
  unfold CidrNet.broadcast maxU128
  omega

section Merged

variable {range : IpNet → Option (Nat × Nat)}
  (hrange : ∀ net r, range net = some r → r.1 ≤ r.2 ∧ r.2 ≤ maxU128) (nets : List IpNet)

include hrange

theorem range_of_mem_sorted {r : Nat × Nat} (hr : r ∈ sortRanges (nets.filterMap range)) :
    r.1 ≤ r.2 ∧ r.2 ≤ maxU128 := by
  obtain ⟨net, -, hnet⟩ := mem_filterMap.mp (mem_sortRanges.mp hr)
  exact hrange net r hnet

theorem pairwise_merged :
    (merged range nets).Pairwise (fun a b => a.2 < b.1) ∧ ∀ r ∈ merged range nets, r.1 ≤ r.2 :=
  pairwise_mergeRanges (fun _ => range_of_mem_sorted hrange nets) (pairwise_sortRanges _)

theorem sorted_merged : (merged range nets).Pairwise fun a b => a.1 ≤ b.1 := by
  obtain ⟨hgaps, hnonempty⟩ := pairwise_merged hrange nets
  refine hgaps.imp_of_mem fun {a b} ha _ hgap => ?_
  exact Nat.le_of_lt (Nat.lt_of_le_of_lt (hnonempty a ha) hgap)

/-- The search finds what a network holds. -/
theorem within_merged {n : Nat} :
    within (merged range nets) n = true ↔
      ∃ net ∈ nets, ∃ r, range net = some r ∧ r.1 ≤ n ∧ n ≤ r.2 := by
  obtain ⟨hgaps, hnonempty⟩ := pairwise_merged hrange nets
  have hsearch : within (merged range nets) n = true ↔
      ∃ r, lastStarting (merged range nets) n = some r ∧ n ≤ r.2 := by
    unfold within lastStarting
    cases (List.takeWhile (fun r : Nat × Nat => decide (r.1 ≤ n)) (merged range nets)).getLast? with
    | none => simp
    | some r => simp
  have hmerge : InRanges (merged range nets) n ↔ InRanges (sortRanges (nets.filterMap range)) n :=
    inRanges_mergeRanges (fun _ hr => (range_of_mem_sorted hrange nets hr).1)
      (pairwise_sortRanges _)
  rw [hsearch, inLast_iff hgaps hnonempty, hmerge]
  constructor
  · rintro ⟨r, hr, hn⟩
    obtain ⟨net, hnet, hr'⟩ := mem_filterMap.mp (mem_sortRanges.mp hr)
    exact ⟨net, hnet, r, hr', hn⟩
  · rintro ⟨net, hnet, r, hr', hn⟩
    exact ⟨r, mem_sortRanges.mpr (mem_filterMap.mpr ⟨net, hnet, hr'⟩), hn⟩

end Merged

theorem range4_le (net : IpNet) (r : Nat × Nat) (h : range4 net = some r) :
    r.1 ≤ r.2 ∧ r.2 ≤ maxU128 := by
  cases net with
  | v4 n =>
    obtain rfl := Option.some.inj h
    exact cidr_range (by decide) n
  | v6 n => cases h

theorem range6_le (net : IpNet) (r : Nat × Nat) (h : range6 net = some r) :
    r.1 ≤ r.2 ∧ r.2 ≤ maxU128 := by
  cases net with
  | v4 n => cases h
  | v6 n =>
    obtain rfl := Option.some.inj h
    exact cidr_range (by decide) n

/-- `IpSet::new`. -/
def new (nets : List IpNet) (inverse : Bool) : IpSet where
  v4 := merged range4 nets
  v6 := merged range6 nets
  inverse := inverse
  sorted4 := sorted_merged range4_le nets
  sorted6 := sorted_merged range6_le nets

/-- **A set holds what its networks hold**, or with `inverse` everything else. -/
theorem matchesIp_new (nets : List IpNet) (inverse : Bool) (ip : IpAddr) :
    (new nets inverse).matchesIp ip = xor (nets.any fun net => net.contains ip) inverse := by
  have hfind {range : IpNet → Option (Nat × Nat)} {n : Nat}
      (hrange : ∀ net r, range net = some r → r.1 ≤ r.2 ∧ r.2 ≤ maxU128)
      (hcontains : ∀ net : IpNet, net.contains ip = true ↔
        ∃ r, range net = some r ∧ r.1 ≤ n ∧ n ≤ r.2) :
      within (merged range nets) n = nets.any fun net => net.contains ip := by
    rw [Bool.eq_iff_iff, within_merged hrange, any_eq_true]
    simp only [hcontains]
  cases ip with
  | v4 a =>
    refine congrArg (xor · inverse) (hfind range4_le fun net => ?_)
    cases net with
    | v4 n => simp [IpNet.contains, CidrNet.contains, range4]
    | v6 n => simp [IpNet.contains, range4]
  | v6 a =>
    refine congrArg (xor · inverse) (hfind range6_le fun net => ?_)
    cases net with
    | v4 n => simp [IpNet.contains, range6]
    | v6 n => simp [IpNet.contains, CidrNet.contains, range6]

/-- The address is of the network's family and begins with its prefix. -/
def HasPrefix : IpAddr → IpNet → Prop
  | .v4 a, .v4 n => a.toNat / n.size = n.addr.toNat / n.size
  | .v6 a, .v6 n => a.toNat / n.size = n.addr.toNat / n.size
  | _, _ => False

theorem contains_iff_div_eq {w : Nat} (n : CidrNet w) (a : BitVec w) :
    n.contains a = true ↔ a.toNat / n.size = n.addr.toNat / n.size := by
  have hpos := n.size_pos
  rw [Nat.div_eq_iff hpos, CidrNet.contains, Bool.and_eq_true, decide_eq_true_eq,
    decide_eq_true_eq, CidrNet.broadcast, CidrNet.network]
  omega

/-- **A set is exact**: an address matches when some network holds it, unless the set is
inverted. -/
theorem matchesIp_iff (nets : List IpNet) (inverse : Bool) (ip : IpAddr) :
    (new nets inverse).matchesIp ip = true ↔
      ((∃ net ∈ nets, HasPrefix ip net) ↔ inverse = false) := by
  have hholds : ∀ net : IpNet, net.contains ip = true ↔ HasPrefix ip net := by
    intro net
    cases ip <;> cases net <;> simp [IpNet.contains, HasPrefix, contains_iff_div_eq]
  have hany : (nets.any fun net => net.contains ip) = true ↔ ∃ net ∈ nets, HasPrefix ip net := by
    simp only [any_eq_true, hholds]
  rw [matchesIp_new, ← hany]
  cases inverse <;> simp

end IpSet

end Clyntis.Config
