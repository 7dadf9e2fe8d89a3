import Clyntis.Lib.Text
import Mathlib.Tactic.Ring

/-!
# Addresses and networks

The address types every component shares: `IpAddr`, `SocketAddr` and the CIDR
networks of the `ipnet` crate, with the textual form Rust's standard library
reads.

- `IpNet.contains` is the crate's range test: the network address is at most the
  candidate and the candidate at most the broadcast address; an address of the
  other family is never contained.
- `IpAddr.parse` follows the standard library's parser: dotted decimal without
  leading zeros, or up to eight groups of four hexadecimal digits with at most
  one `::` and an optional embedded IPv4 tail.
-/

namespace Clyntis.Net

open Lib List

/-- An IPv4 or IPv6 address. -/
inductive IpAddr where
  | v4 (bits : BitVec 32)
  | v6 (bits : BitVec 128)
  deriving DecidableEq, Repr

/-- A UDP or TCP endpoint. -/
structure SocketAddr where
  ip : IpAddr
  port : UInt16
  deriving DecidableEq, Repr

variable (bs : Bytes)

/-- The number a big-endian byte string denotes. -/
def beNat : Nat := bs.foldl (fun n b => n * 256 + b.toNat) 0

theorem beNat_cons (b : UInt8) (bs : Bytes) :
    beNat (b :: bs) = b.toNat * 256 ^ bs.length + beNat bs := by
  suffices h : ∀ (l : Bytes) (n : Nat),
      l.foldl (fun n b => n * 256 + b.toNat) n = n * 256 ^ l.length + beNat l by
    have := h bs b.toNat
    simpa [beNat] using this
  intro l
  induction l with
  | nil => intro n; simp [beNat]
  | cons c l ih =>
    intro n
    have h0 := ih c.toNat
    have hn := ih (n * 256 + c.toNat)
    rw [foldl_cons, hn]
    simp only [beNat, foldl_cons, length_cons, Nat.zero_mul, Nat.zero_add] at h0 ⊢
    rw [h0]
    ring

/-- A byte string of length `n` denotes a number below `256 ^ n`. -/
theorem beNat_lt : beNat bs < 256 ^ bs.length := by
  induction bs with
  | nil => simp [beNat]
  | cons b bs ih =>
    rw [beNat_cons]
    have hb : b.toNat ≤ 255 := Nat.le_of_lt_succ b.toNat_lt
    calc b.toNat * 256 ^ bs.length + beNat bs
        < b.toNat * 256 ^ bs.length + 256 ^ bs.length := by omega
      _ = (b.toNat + 1) * 256 ^ bs.length := by ring
      _ ≤ 256 * 256 ^ bs.length := Nat.mul_le_mul_right _ (by omega)
      _ = 256 ^ bs.length * 256 := Nat.mul_comm _ _

/-- `n` as `count` bytes, most significant first. -/
def beBytes (count n : Nat) : Bytes :=
  (List.range count).map fun i => UInt8.ofNat (n / 256 ^ (count - 1 - i))

@[simp] theorem length_beBytes (count n : Nat) : (beBytes count n).length = count := by
  simp [beBytes]

theorem beBytes_succ (count n : Nat) :
    beBytes (count + 1) n = UInt8.ofNat (n / 256 ^ count) :: beBytes count n := by
  unfold beBytes
  rw [range_succ_eq_map, map_cons, map_map]
  refine congrArg₂ List.cons (by simp) (map_congr_left fun i _ => ?_)
  show UInt8.ofNat (n / 256 ^ (count + 1 - 1 - (i + 1))) = _
  rw [show count + 1 - 1 - (i + 1) = count - 1 - i by omega]

/-- Reading back what was written, as far as it fits. -/
theorem beNat_beBytes (count n : Nat) : beNat (beBytes count n) = n % 256 ^ count := by
  induction count with
  | zero => simp [beBytes, beNat, Nat.mod_one]
  | succ count ih =>
    have hsplit : n % 256 ^ (count + 1) = n % 256 ^ count + 256 ^ count * (n / 256 ^ count % 256) :=
      Nat.mod_mul
    rw [beBytes_succ, beNat_cons, length_beBytes, ih, UInt8.toNat_ofNat', hsplit, Nat.add_comm,
      Nat.mul_comm]

theorem ofNat_beNat_beBytes (n : UInt16) : UInt16.ofNat (beNat (beBytes 2 n.toNat)) = n := by
  rw [beNat_beBytes, Nat.mod_eq_of_lt (by exact n.toNat_lt), UInt16.ofNat_toNat]

/-- Byte strings of one length differ in the number they denote. -/
theorem beNat_inj {bs cs : Bytes} (hlen : bs.length = cs.length) (h : beNat bs = beNat cs) :
    bs = cs := by
  induction bs generalizing cs with
  | nil => exact (eq_nil_of_length_eq_zero hlen.symm).symm
  | cons b bs ih =>
    cases cs with
    | nil => cases hlen
    | cons c cs =>
      have hlen' : bs.length = cs.length := Nat.succ.inj hlen
      rw [beNat_cons, beNat_cons, hlen'] at h
      have hb : beNat bs < 256 ^ cs.length := hlen' ▸ beNat_lt bs
      have hc := beNat_lt cs
      have hpos : 0 < 256 ^ cs.length := Nat.pow_pos (by decide)
      have hhead : b.toNat = c.toNat := by
        have hdiv := congrArg (· / 256 ^ cs.length) h
        simpa [Nat.mul_add_div hpos, Nat.mul_comm, Nat.div_eq_of_lt hb, Nat.div_eq_of_lt hc]
          using hdiv
      rw [hhead] at h
      rw [UInt8.toNat_inj.mp hhead, ih hlen' (Nat.add_left_cancel h)]

/-- Writing back what was read. -/
theorem beBytes_beNat : beBytes bs.length (beNat bs) = bs := by
  refine beNat_inj (length_beBytes _ _) ?_
  rw [beNat_beBytes, Nat.mod_eq_of_lt (beNat_lt bs)]

namespace IpAddr

/-- `ip.is_ipv6()`. -/
def isIpv6 : IpAddr → Bool
  | v4 _ => false
  | v6 _ => true

/-- `ip.is_ipv4()`. -/
def isIpv4 : IpAddr → Bool
  | v4 _ => true
  | v6 _ => false

/-- `ip.is_unspecified()`: `0.0.0.0` or `::`. -/
def isUnspecified : IpAddr → Bool
  | v4 a => a == 0
  | v6 a => a == 0

/-- The IPv4 address with these octets. -/
def ofOctets4 : IpAddr := v4 (BitVec.ofNat 32 (beNat bs))

/-- The IPv6 address with these octets. -/
def ofOctets16 : IpAddr := v6 (BitVec.ofNat 128 (beNat bs))

/-- `ip.to_canonical()`: an IPv4-mapped IPv6 address is its IPv4 address. -/
def toCanonical : IpAddr → IpAddr
  | v4 a => v4 a
  | v6 a => if a.toNat / 2 ^ 32 = 0xffff then v4 (a.setWidth 32) else v6 a

end IpAddr

/-! ## Networks -/

/-- An address of width `w` with a prefix length, as `Ipv4Net` and `Ipv6Net`. -/
structure CidrNet (w : Nat) where
  addr : BitVec w
  prefixLen : Nat
  prefixLen_le : prefixLen ≤ w
  deriving DecidableEq, Repr

namespace CidrNet

variable {w : Nat} (n : CidrNet w)

/-- The number of addresses in the network. -/
def size : Nat := 2 ^ (w - n.prefixLen)

/-- `net.network()`: the address with its host bits cleared. -/
def network : Nat := n.addr.toNat / n.size * n.size

/-- `net.broadcast()`: the address with its host bits set. -/
def broadcast : Nat := n.network + (n.size - 1)

/-- `net.contains(ip)`. -/
def contains (ip : BitVec w) : Bool :=
  decide (n.network ≤ ip.toNat) && decide (ip.toNat ≤ n.broadcast)

/-- The network address has no host bits. -/
theorem network_ofNat_network :
    network { n with addr := BitVec.ofNat w n.network } = n.network := by
  have hpos : 0 < n.size := Nat.two_pow_pos _
  have hlt : n.network < 2 ^ w :=
    Nat.lt_of_le_of_lt (Nat.div_mul_le_self _ _) n.addr.isLt
  show (BitVec.ofNat w n.network).toNat / n.size * n.size = n.network
  rw [BitVec.toNat_ofNat, Nat.mod_eq_of_lt hlt, network, Nat.mul_div_cancel _ hpos]

theorem size_pos : 0 < n.size := Nat.two_pow_pos _

/-- The network ends within the address space. -/
theorem network_add_size_le : n.network + n.size ≤ 2 ^ w := by
  have hsplit : 2 ^ w = 2 ^ n.prefixLen * n.size := by
    rw [size, ← Nat.pow_add, Nat.add_sub_cancel' n.prefixLen_le]
  have hlt : n.addr.toNat / n.size < 2 ^ n.prefixLen := by
    rw [Nat.div_lt_iff_lt_mul n.size_pos, ← hsplit]
    exact n.addr.isLt
  rw [hsplit, network, ← Nat.succ_mul]
  exact Nat.mul_le_mul_right _ hlt

end CidrNet

/-- `ipnet::IpNet`. -/
inductive IpNet where
  | v4 (net : CidrNet 32)
  | v6 (net : CidrNet 128)
  deriving DecidableEq, Repr

namespace IpNet

/-- `net.addr().is_ipv4()`. -/
def isV4 : IpNet → Bool
  | v4 _ => true
  | v6 _ => false

/-- `net.prefix_len()`. -/
def prefixLen : IpNet → Nat
  | v4 n => n.prefixLen
  | v6 n => n.prefixLen

/-- `net.addr()`. -/
def addr : IpNet → IpAddr
  | v4 n => .v4 n.addr
  | v6 n => .v6 n.addr

/-- `net.contains(&ip)`. -/
def contains : IpNet → IpAddr → Bool
  | v4 n, .v4 a => n.contains a
  | v6 n, .v6 a => n.contains a
  | _, _ => false

/-- `net.network()`. -/
def network : IpNet → IpAddr
  | v4 n => .v4 (BitVec.ofNat 32 n.network)
  | v6 n => .v6 (BitVec.ofNat 128 n.network)

/-- `net.trunc()`: the same network with the host bits of its address cleared. -/
def trunc : IpNet → IpNet
  | v4 n => .v4 { n with addr := BitVec.ofNat 32 n.network }
  | v6 n => .v6 { n with addr := BitVec.ofNat 128 n.network }

theorem prefixLen_trunc (n : IpNet) : n.trunc.prefixLen = n.prefixLen := by
  cases n <;> rfl

theorem network_trunc (n : IpNet) : n.trunc.network = n.network := by
  cases n with
  | v4 n => exact congrArg (fun k => IpAddr.v4 (BitVec.ofNat 32 k)) n.network_ofNat_network
  | v6 n => exact congrArg (fun k => IpAddr.v6 (BitVec.ofNat 128 k)) n.network_ofNat_network

end IpNet

/-! ## Reading addresses

The standard library's parser walks the text with one character of lookahead.
A reader returns the value and the unread rest; `none` leaves the position
where it was (`read_atomically`). -/

/-- A reader of the address parser. -/
abbrev Reader (α : Type) : Type := Text → Option (α × Text)

/-- `c.to_digit(radix)` for the radixes 10 and 16. -/
def toDigit (radix : Nat) (c : Char) : Option Nat :=
  let d :=
    if '0' ≤ c ∧ c ≤ '9' then c.toNat - 48
    else if 'a' ≤ c ∧ c ≤ 'z' then c.toNat - 87
    else if 'A' ≤ c ∧ c ≤ 'Z' then c.toNat - 55
    else radix
  if d < radix then some d else none

/-- The digits at the front of a text. -/
def leadingDigits (radix : Nat) : Text → List Nat × Text
  | [] => ([], [])
  | c :: rest =>
    match toDigit radix c with
    | some d => (d :: (leadingDigits radix rest).1, (leadingDigits radix rest).2)
    | none => ([], c :: rest)

/-- `read_number`: at least one digit, at most `maxDigits`, the value below
`limit`, and no leading zero unless `allowZeroPrefix`. -/
def readNumber (radix maxDigits limit : Nat) (allowZeroPrefix : Bool) : Reader Nat :=
  fun s =>
    let (ds, rest) := leadingDigits radix s
    let n := ds.foldl (fun n d => n * radix + d) 0
    if ds.length = 0 ∨ maxDigits < ds.length ∨ limit ≤ n then none
    else if !allowZeroPrefix && ds.head? == some 0 && decide (1 < ds.length) then none
    else some (n, rest)

/-- `read_given_char`. -/
def readGivenChar (c : Char) : Reader Unit
  | d :: rest => if d = c then some ((), rest) else none
  | [] => none

/-- `read_separator`: from the second item on, a separator comes first. -/
def readSeparator {α : Type} (sep : Char) (i : Nat) (inner : Reader α) : Reader α :=
  fun s =>
    if 0 < i then
      match readGivenChar sep s with
      | some (_, rest) => inner rest
      | none => none
    else inner s

/-- `read_ipv4_addr`. -/
def readIpv4Addr : Reader (BitVec 32) := fun s => do
  let octet := readNumber 10 3 256 false
  let (a, s) ← octet s
  let (b, s) ← readSeparator '.' 1 octet s
  let (c, s) ← readSeparator '.' 2 octet s
  let (d, s) ← readSeparator '.' 3 octet s
  some (BitVec.ofNat 32 (((a * 256 + b) * 256 + c) * 256 + d), s)

/-- `read_groups`: at most `left` more groups, the next one being number `i`;
an embedded IPv4 address counts as two and ends the run. Returns the groups
and whether an IPv4 address was read. -/
def readGroups : (left i : Nat) → Text → (List Nat × Bool) × Text
  | 0, _, s => (([], false), s)
  | left + 1, i, s =>
    match if 0 < left then readSeparator ':' i readIpv4Addr s else none with
    | some (a, rest) => (([a.toNat / 65536, a.toNat % 65536], true), rest)
    | none =>
      match readSeparator ':' i (readNumber 16 4 65536 true) s with
      | some (g, rest) =>
        let ((gs, v4), rest) := readGroups left (i + 1) rest
        ((g :: gs, v4), rest)
      | none => (([], false), s)

/-- `read_ipv6_addr`. -/
def readIpv6Addr : Reader (BitVec 128) := fun s =>
  let value (gs : List Nat) := BitVec.ofNat 128 (gs.foldl (fun n g => n * 65536 + g) 0)
  let ((head, headIpv4), s) := readGroups 8 0 s
  if head.length = 8 then some (value head, s)
  else if headIpv4 then none
  else do
    let (_, s) ← readGivenChar ':' s
    let (_, s) ← readGivenChar ':' s
    let ((tail, _), s) := readGroups (7 - head.length) 0 s
    some (value (head ++ List.replicate (8 - head.length - tail.length) 0 ++ tail), s)

variable (s : Text)

/-- `s.parse::<IpAddr>()`. -/
def IpAddr.parse : Option IpAddr :=
  let read : Option (IpAddr × Text) :=
    match readIpv4Addr s with
    | some (a, rest) => some (.v4 a, rest)
    | none =>
      match readIpv6Addr s with
      | some (a, rest) => some (.v6 a, rest)
      | none => none
  match read with
  | some (ip, []) => some ip
  | _ => none

/-- A text that begins with neither a digit nor a colon is no address. -/
theorem IpAddr.parse_eq_none {c : Char} (h10 : toDigit 10 c = none) (h16 : toDigit 16 c = none)
    (hc : c ≠ ':') (rest : Text) : IpAddr.parse (c :: rest) = none := by
  have hnumber : ∀ {radix maxDigits limit : Nat} {zeros : Bool}, toDigit radix c = none →
      readNumber radix maxDigits limit zeros (c :: rest) = none := by
    intro radix maxDigits limit zeros h
    simp [readNumber, leadingDigits, h]
  have hv4 : readIpv4Addr (c :: rest) = none := by
    simp [readIpv4Addr, hnumber h10]
  have hgroups : ∀ left, readGroups left 0 (c :: rest) = (([], false), c :: rest) := by
    intro left
    cases left with
    | zero => rfl
    | succ left => simp [readGroups, readSeparator, hv4, hnumber h16]
  have hv6 : readIpv6Addr (c :: rest) = none := by
    simp [readIpv6Addr, hgroups, readGivenChar, hc]
  simp [IpAddr.parse, hv4, hv6]

/-- The end of an endpoint: `:` and a decimal port. -/
def readPort : Reader Nat := fun s => do
  let (_, s) ← readGivenChar ':' s
  readNumber 10 s.length 65536 true s

/-- `read_socket_addr_v6`: the address stands in brackets, with an optional
numeric scope, which is not kept. -/
def readSocketAddrV6 : Reader SocketAddr := fun s => do
  let (_, s) ← readGivenChar '[' s
  let (ip, s) ← readIpv6Addr s
  let s :=
    match readGivenChar '%' s with
    | some (_, rest) =>
      match readNumber 10 rest.length (2 ^ 32) true rest with
      | some (_, rest) => rest
      | none => s
    | none => s
  let (_, s) ← readGivenChar ']' s
  let (port, s) ← readPort s
  some (⟨.v6 ip, UInt16.ofNat port⟩, s)

/-- `s.parse::<SocketAddr>()`. -/
def SocketAddr.parse : Option SocketAddr :=
  let readV4 : Option (SocketAddr × Text) := do
    let (ip, s) ← readIpv4Addr s
    let (port, s) ← readPort s
    some (⟨.v4 ip, UInt16.ofNat port⟩, s)
  let read :=
    match readV4 with
    | some r => some r
    | none => readSocketAddrV6 s
  match read with
  | some (addr, []) => some addr
  | _ => none

/-- A number below `limit` in digits, with an optional plus sign. -/
def parseUnsigned (limit : Nat) (s : Text) : Option Nat :=
  let digits := match s with
    | '+' :: rest => rest
    | _ => s
  match readNumber 10 digits.length limit true digits with
  | some (n, []) => some n
  | _ => none

/-- `s.parse::<u32>()`. -/
def parseU32 : Option Nat := parseUnsigned (2 ^ 32) s

/-- `s.parse::<u16>()`. -/
def parseU16 : Option UInt16 :=
  (parseU32 s).bind fun n => if n < 2 ^ 16 then some (UInt16.ofNat n) else none

example : IpAddr.parse "100.64.0.1".toList = some (.v4 0x64400001) := by decide
example : IpAddr.parse "::ffff:1.2.3.4".toList
    = some (.v6 0xffff01020304) := by decide
example : IpAddr.parse "01.2.3.4".toList = none := by decide

end Clyntis.Net
