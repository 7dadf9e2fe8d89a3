import Clyntis.Lib.Poll
import Clyntis.Protocol.InnerTls

/-!
# Reading record by record (`record.rs`)

Vision leaves the outer TLS stream in the middle of a connection, so the TLS library must not have
read a byte past the record that it is at. `RecordBoundedStream` stands below it: a poll gives
bytes of one header or of one body only, and the poll after the end of a record gives none.

- `RecordBounded.pollRead`: the reads of the stream;
- `Starts`: where the records of a stream start, read off the stream alone;
- `RecordBounded.At`: what ties the counters to the place in the stream.
-/

namespace Clyntis.Protocol.Vision

open Lib List

/-! ## The stream -/

/-- `HEADER`. -/
def headerSize : Nat := 5

/-- `SCRATCH`. -/
def scratch : Nat := 16 * 1024

/-- `RecordBoundedStream`; `header` holds the bytes of the header that have been read. -/
structure RecordBounded where
  inner : Wire
  header : Bytes := []
  recordRemaining : Nat := 0
  yieldAfterRecord : Bool := false
  deriving DecidableEq, Repr

/-- What a poll returns, and whether it has woken its task. -/
structure Polled where
  result : Poll Bytes
  woke : Bool := false
  deriving DecidableEq, Repr

namespace RecordBounded

/-- What is left of the header or of the body. -/
def left (s : RecordBounded) : Nat :=
  if s.header.length < headerSize then headerSize - s.header.length else s.recordRemaining

/-- `poll_read` after bytes came. -/
def advance (s : RecordBounded) (bytes : Bytes) : RecordBounded :=
  if s.header.length < headerSize then
    let header := s.header ++ bytes
    if header.length = headerSize then
      if be16 header 3 = 0 then
        { s with header := [], recordRemaining := 0, yieldAfterRecord := true }
      else { s with header := header, recordRemaining := be16 header 3 }
    else { s with header := header }
  else
    let remaining := s.recordRemaining - bytes.length
    if remaining = 0 then
      { s with header := [], recordRemaining := 0, yieldAfterRecord := true }
    else { s with recordRemaining := remaining }

/-- `poll_read` with a buffer of `n` bytes. -/
def pollRead (n : Nat) (s : RecordBounded) : Polled × RecordBounded :=
  if n = 0 then (⟨.ready [], false⟩, s)
  else if s.yieldAfterRecord then (⟨.pending, true⟩, { s with yieldAfterRecord := false })
  else
    let out := s.inner.pollRead (min (min s.left n) scratch)
    let s := { s with inner := out.2 }
    (⟨out.1, false⟩, if out.1.bytes = [] then s else s.advance out.1.bytes)

/-- Polls with buffers of these sizes, and the bytes that they gave. -/
def run : List Nat → RecordBounded → Bytes × RecordBounded
  | [], s => ([], s)
  | n :: ns, s =>
    let out := s.pollRead n
    let rest := run ns out.2
    (out.1.result.bytes ++ rest.1, rest.2)

end RecordBounded

/-! ## The records of a stream -/

/-- The length of a stream's first record, header included. -/
def recordLength (bs : Bytes) : Nat := headerSize + be16 bs 3

/-- A record starts at this place. (Of a record that the stream cuts off, the next one starts
past the end of the stream.) -/
inductive Starts : Bytes → Nat → Prop
  | here {bs} : Starts bs 0
  | next {bs p} (h : Starts (bs.drop (recordLength bs)) p) : Starts bs (recordLength bs + p)

/-- The `k` bytes from `p` on cross neither the start of a record nor that of its body. -/
def Within (input : Bytes) (p k : Nat) : Prop :=
  ∀ b, Starts input b → ¬ (p < b ∧ b < p + k) ∧ ¬ (p < b + headerSize ∧ b + headerSize < p + k)

namespace Starts

variable {bs : Bytes} {q : Nat}

theorem after (hq : Starts bs q) : Starts bs (q + recordLength (bs.drop q)) := by
  induction hq with
  | here => simpa using Starts.next .here
  | next _ ih =>
    rw [drop_drop] at ih
    simpa only [Nat.add_assoc] using ih.next

/-- Between the start of a record and that of the next one there is no other. -/
theorem next_le (hq : Starts bs q) {p : Nat} (hp : Starts bs p) (hlt : q < p) :
    q + recordLength (bs.drop q) ≤ p := by
  induction hq generalizing p with
  | here =>
    cases hp with
    | here => omega
    | next => simp
  | next _ ih =>
    cases hp with
    | here => omega
    | next hp =>
      have hle := ih hp (by omega)
      rw [drop_drop] at hle
      omega

/-- Bytes of one header, or of one body. -/
theorem within (hq : Starts bs q) {p k : Nat}
    (h : q ≤ p ∧ p + k ≤ q + headerSize ∨
      q + headerSize ≤ p ∧ p + k ≤ q + recordLength (bs.drop q)) : Within bs p k := by
  intro b hb
  have hheader : ∀ cs, headerSize ≤ recordLength cs := fun cs => Nat.le_add_right _ _
  have hfirst := hheader (bs.drop q)
  rcases Nat.lt_trichotomy b q with hlt | rfl | hlt
  · have hle := hb.next_le hq hlt
    have hbefore := hheader (bs.drop b)
    omega
  · omega
  · have hle := hq.next_le hb hlt
    omega

end Starts

/-! ## The place of the reader -/

namespace RecordBounded

/-- The reader has taken `p` bytes of `input` and is in the record that starts at `q`: in its
header, or in a body that is not empty. -/
structure At (input : Bytes) (p : Nat) (s : RecordBounded) (q : Nat) : Prop where
  start : Starts input q
  rest : s.inner.input = input.drop p
  place : (s.header.length < headerSize ∧ p = q + s.header.length ∧
      s.header = (input.drop q).take s.header.length) ∨
    (s.header.length = headerSize ∧ q + headerSize ≤ p ∧ 0 < s.recordRemaining ∧
      p + s.recordRemaining = q + recordLength (input.drop q))

variable {input : Bytes} {p q : Nat} {s : RecordBounded}

theorem At.left_pos (h : At input p s q) : 0 < s.left := by
  unfold left
  rcases h.place with ⟨hlt, -⟩ | ⟨hlen, -, hpos, -⟩
  · rw [if_pos hlt]
    omega
  · rwa [if_neg (by omega)]

theorem At.within (h : At input p s q) {k : Nat} (hk : k ≤ s.left) : Within input p k := by
  apply h.start.within
  unfold left at hk
  rcases h.place with ⟨hlt, hp, -⟩ | ⟨hlen, hbody, -, hp⟩
  · rw [if_pos hlt] at hk
    omega
  · rw [if_neg (by omega)] at hk
    omega

theorem be16_take_header (bs : Bytes) : be16 (bs.take headerSize) 3 = be16 bs 3 := by
  simp [be16, headerSize, drop_take, take_take]

/-- Bytes that came move the reader forward; at the end of a record it will yield. -/
theorem advance_at {bytes : Bytes} (h : At input p s q) (hne : bytes ≠ [])
    (hle : bytes.length ≤ s.left) {w : Wire} (hread : s.inner.input = bytes ++ w.input) :
    let s' := ({ s with inner := w } : RecordBounded).advance bytes
    (∃ q', At input (p + bytes.length) s' q') ∧
      (Starts input (p + bytes.length) → s'.yieldAfterRecord = true) := by
  have hpos := length_pos_iff.mpr hne
  have hdrop : input.drop p = bytes ++ w.input := h.rest ▸ hread
  have hrest : w.input = input.drop (p + bytes.length) := by
    rw [← drop_drop, hdrop, drop_left]
  have hq := h.start
  have hafter := hq.after
  unfold left at hle
  unfold advance
  rcases h.place with ⟨hlt, hp, hheader⟩ | ⟨hlen, hbody, hleft, hp⟩
  · rw [if_pos hlt] at hle ⊢
    have hmore : s.header ++ bytes = (input.drop q).take (s.header ++ bytes).length := by
      rw [length_append, take_add, ← hheader, drop_drop, ← hp, hdrop, take_left]
    have hlength : (s.header ++ bytes).length = s.header.length + bytes.length :=
      length_append
    by_cases hfull : (s.header ++ bytes).length = headerSize
    · have hsize : be16 (s.header ++ bytes) 3 = be16 (input.drop q) 3 := by
        rw [hmore, hfull, be16_take_header]
      have hrecord : recordLength (input.drop q) = headerSize + be16 (s.header ++ bytes) 3 := by
        rw [hsize, recordLength]
      rw [if_pos hfull]
      by_cases hempty : be16 (s.header ++ bytes) 3 = 0
      · -- an empty record ends with its header
        rw [if_pos hempty]
        refine ⟨⟨_, hafter, hrest, .inl ⟨Nat.succ_pos 4, ?_, rfl⟩⟩, fun _ => rfl⟩
        simp only [length_nil]
        omega
      · rw [if_neg hempty]
        refine ⟨⟨q, hq, hrest, .inr ⟨hfull, by omega, Nat.pos_of_ne_zero hempty, ?_⟩⟩,
          fun hstart => ?_⟩
        · simp only
          omega
        · have hnext := hq.next_le hstart (by omega)
          omega
    · rw [if_neg hfull]
      refine ⟨⟨q, hq, hrest, .inl ⟨?_, ?_, hmore⟩⟩, fun hstart => ?_⟩
      · simp only
        omega
      · simp only
        omega
      · have hnext := hq.next_le hstart (by omega)
        unfold recordLength at hnext
        omega
  · have hfull : ¬ s.header.length < headerSize := by omega
    rw [if_neg hfull] at hle ⊢
    by_cases hend : s.recordRemaining - bytes.length = 0
    · rw [if_pos hend]
      refine ⟨⟨_, hafter, hrest, .inl ⟨Nat.succ_pos 4, ?_, rfl⟩⟩, fun _ => rfl⟩
      simp only [length_nil]
      omega
    · rw [if_neg hend]
      refine ⟨⟨q, hq, hrest, .inr ⟨hlen, by omega, Nat.pos_of_ne_zero hend, ?_⟩⟩,
        fun hstart => ?_⟩
      · simp only
        omega
      · have hnext := hq.next_le hstart (by omega)
        omega

/-- What one poll does. -/
theorem pollRead_at (h : At input p s q) (n : Nat) :
    let out := s.pollRead n
    let bytes := out.1.result.bytes
    (∃ q', At input (p + bytes.length) out.2 q') ∧ s.inner.input = bytes ++ out.2.inner.input ∧
      Within input p bytes.length ∧
      (bytes ≠ [] → Starts input (p + bytes.length) → out.2.yieldAfterRecord = true) := by
  have hnone : Within input p 0 := h.within (Nat.zero_le _)
  unfold pollRead
  by_cases hn : n = 0
  · rw [if_pos hn]
    exact ⟨⟨q, h⟩, rfl, hnone, fun hne => absurd rfl hne⟩
  rw [if_neg hn]
  by_cases hyield : s.yieldAfterRecord = true
  · rw [if_pos hyield]
    exact ⟨⟨q, h.start, h.rest, h.place⟩, rfl, hnone, fun hne => absurd rfl hne⟩
  rw [if_neg hyield]
  have hpos := h.left_pos
  have hlimit : 0 < min (min s.left n) scratch := by
    unfold scratch
    omega
  have hread := Wire.pollRead_input (min (min s.left n) scratch) s.inner
  have hle : (s.inner.pollRead (min (min s.left n) scratch)).1.bytes.length ≤ s.left := by
    rcases Wire.pollRead_cases hlimit s.inner with ⟨heq, -⟩ | ⟨bs, heq, hlen, -⟩
    · rw [heq]
      exact Nat.zero_le _
    · rw [heq]
      exact hlen.trans (by omega)
  by_cases hempty : (s.inner.pollRead (min (min s.left n) scratch)).1.bytes = []
  · simp only [hempty, nil_append] at hread ⊢
    exact ⟨⟨q, h.start, hread ▸ h.rest, h.place⟩, hread, hnone, fun hne => absurd rfl hne⟩
  · obtain ⟨hat, hends⟩ := advance_at h hempty hle hread
    simp only [if_neg hempty]
    refine ⟨hat, ?_, h.within hle, fun _ => hends⟩
    obtain ⟨q', hat⟩ := hat
    rw [hat.rest, ← drop_drop, ← h.rest, hread, drop_left]

theorem run_at (ns : List Nat) (h : At input p s q) :
    (∃ q', At input (p + (run ns s).1.length) (run ns s).2 q') ∧
      s.inner.input = (run ns s).1 ++ (run ns s).2.inner.input := by
  induction ns generalizing p q s with
  | nil => exact ⟨⟨q, h⟩, rfl⟩
  | cons n ns ih =>
    obtain ⟨⟨q', hat⟩, hread, -⟩ := pollRead_at h n
    obtain ⟨hrun, hrest⟩ := ih hat
    simp only [run, length_append, ← Nat.add_assoc, append_assoc, ← hrest]
    exact ⟨hrun, hread⟩

/-- Polls with empty buffers do nothing. -/
theorem run_empty {ns : List Nat} (hns : ∀ n ∈ ns, n = 0) (s : RecordBounded) :
    (run ns s).2 = s := by
  induction ns with
  | nil => rfl
  | cons n ns ih =>
    have hn := hns n mem_cons_self
    subst hn
    exact ih fun m hm => hns m (mem_cons_of_mem _ hm)

/-- **No reading ahead**: along any polls, what was given and what is left below make up the
stream; a poll gives bytes of one header or of one body; and the first poll with room after the
last byte of a record reads nothing, wakes its task and waits. -/
theorem record_bounded (w : Wire) (ns : List Nat) (n : Nat) :
    let before := run ns ⟨w, [], 0, false⟩
    let out := before.2.pollRead n
    let bytes := out.1.result.bytes
    w.input = before.1 ++ bytes ++ out.2.inner.input ∧
      Within w.input before.1.length bytes.length ∧
      (bytes ≠ [] → Starts w.input (before.1.length + bytes.length) →
        ∀ zeros m, (∀ z ∈ zeros, z = 0) → 0 < m →
          let next := (run zeros out.2).2.pollRead m
          next.1 = ⟨.pending, true⟩ ∧ next.2.inner = out.2.inner) := by
  intro before out bytes
  have hnew : At w.input 0 ⟨w, [], 0, false⟩ 0 := ⟨.here, rfl, .inl ⟨Nat.succ_pos 4, rfl, rfl⟩⟩
  obtain ⟨⟨q, hat⟩, hbefore⟩ := run_at ns hnew
  rw [Nat.zero_add] at hat
  obtain ⟨-, hread, hwithin, hends⟩ := pollRead_at hat n
  refine ⟨?_, hwithin, fun hne hstart zeros m hzeros hm => ?_⟩
  · rw [append_assoc, ← hread]
    exact hbefore
  · have hyield : out.2.yieldAfterRecord = true := hends hne hstart
    rw [run_empty hzeros, pollRead, if_neg (by omega), if_pos hyield]
    exact ⟨rfl, rfl⟩

end RecordBounded

end Clyntis.Protocol.Vision
