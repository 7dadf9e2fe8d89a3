import Mathlib.Data.List.Sort

/-!
# Putting a buffer together from pieces

Data that arrives in pieces, at any offset and in any order, is written into a buffer
while a set of runs remembers which part of the buffer has been filled.

- `Runs`: ranges `[lo, hi)`, in order, not empty and not touching each other
  (`Separated`); `Runs.insert` adds a range and merges what it touches;
- `Assembler`: what keeps such runs, by what it promises; `RunSet`: one, with a bound on the
  number of runs;
- `write`: a piece copied into the buffer; `Holds`: the buffer has the piece;
- `Tiles`: pieces that follow each other without gap or overlap. Disjoint pieces that
  cover a range tile it in the order of their offsets (`tiles_of_cover`), and a buffer that
  holds the pieces of a tiling is their concatenation (`take_of_tiles`);
- `slots`: numbered pieces of which some have arrived.
-/

namespace Clyntis.Lib

open List

/-! ## Runs -/

namespace Runs

/-- The ranges contain `x`. -/
def Covers (rs : List (Nat × Nat)) (x : Nat) : Prop := ∃ r ∈ rs, r.1 ≤ x ∧ x < r.2

/-- The ranges are in order, not empty, and there is a gap between any two. -/
structure Separated (rs : List (Nat × Nat)) : Prop where
  gap : rs.Pairwise fun a b => a.2 < b.1
  nonempty : ∀ r ∈ rs, r.1 < r.2

/-- Adds `[lo, hi)`, merged with the ranges it touches. -/
def insert (lo hi : Nat) : List (Nat × Nat) → List (Nat × Nat)
  | [] => [(lo, hi)]
  | (a, b) :: rs =>
    if hi < a then (lo, hi) :: (a, b) :: rs
    else if b < lo then (a, b) :: insert lo hi rs
    else insert (min a lo) (max b hi) rs

variable {rs : List (Nat × Nat)} {lo hi x : Nat} {r : Nat × Nat}

@[simp] theorem not_covers_nil : ¬ Covers [] x := by simp [Covers]

@[simp] theorem covers_cons :
    Covers (r :: rs) x ↔ (r.1 ≤ x ∧ x < r.2) ∨ Covers rs x := by
  simp [Covers]

theorem separated_cons :
    Separated (r :: rs) ↔ r.1 < r.2 ∧ (∀ r' ∈ rs, r.2 < r'.1) ∧ Separated rs := by
  constructor
  · rintro ⟨hgap, hne⟩
    rw [pairwise_cons] at hgap
    exact ⟨hne r mem_cons_self, hgap.1, hgap.2,
      fun r' hr' => hne r' (mem_cons_of_mem _ hr')⟩
  · rintro ⟨hne, hgap, hrs⟩
    refine ⟨pairwise_cons.mpr ⟨hgap, hrs.gap⟩, fun r' hr' => ?_⟩
    rcases mem_cons.mp hr' with rfl | hr'
    · exact hne
    · exact hrs.nonempty r' hr'

/-- An insertion covers what was covered, and the new range. -/
theorem covers_insert (hlt : lo < hi) (hrs : ∀ r ∈ rs, r.1 < r.2) :
    Covers (insert lo hi rs) x ↔ (lo ≤ x ∧ x < hi) ∨ Covers rs x := by
  induction rs generalizing lo hi with
  | nil => simp [insert]
  | cons r rs ih =>
    have htail : ∀ r' ∈ rs, r'.1 < r'.2 := fun r' hr' => hrs r' (mem_cons_of_mem _ hr')
    unfold insert
    split
    · simp
    · split
      · rw [covers_cons, ih hlt htail, covers_cons]
        tauto
      · rw [ih (by omega) htail, covers_cons, ← or_assoc]
        -- the two ranges touch, so that together they are one
        refine or_congr_left ?_
        omega

/-- Everything an insertion has starts at or after what it started from. -/
theorem lt_of_mem_insert {c : Nat} (hlo : c < lo) (hrs : ∀ r ∈ rs, c < r.1) :
    ∀ r ∈ insert lo hi rs, c < r.1 := by
  induction rs generalizing lo hi with
  | nil => simpa [insert] using hlo
  | cons r rs ih =>
    have hr := hrs r mem_cons_self
    have htail : ∀ r' ∈ rs, c < r'.1 := fun r' hr' => hrs r' (mem_cons_of_mem _ hr')
    unfold insert
    split
    · simpa using ⟨hlo, hr, fun a b h => htail (a, b) h⟩
    · split
      · intro r' hr'
        rcases mem_cons.mp hr' with rfl | hr'
        · exact hr
        · exact ih hlo htail r' hr'
      · exact ih (by omega) htail

theorem separated_insert (hlt : lo < hi) (hrs : Separated rs) : Separated (insert lo hi rs) := by
  induction rs generalizing lo hi with
  | nil => exact ⟨pairwise_singleton _ _, by simpa [insert] using hlt⟩
  | cons r rs ih =>
    obtain ⟨hr, hgap, htail⟩ := separated_cons.mp hrs
    unfold insert
    split
    · next hbefore =>
      refine separated_cons.mpr ⟨hlt, fun r' hr' => ?_, hrs⟩
      rcases mem_cons.mp hr' with rfl | hr'
      · exact hbefore
      · have := hgap r' hr'
        omega
    · split
      · next hafter =>
        exact separated_cons.mpr ⟨hr, lt_of_mem_insert hafter hgap, ih hlt htail⟩
      · exact ih (by omega) htail

/-- A range meets the runs where one of them reaches into it. -/
theorem exists_covers_iff (hrs : Separated rs) (hlt : lo < hi) :
    (∃ x, lo ≤ x ∧ x < hi ∧ Covers rs x) ↔ ∃ r ∈ rs, lo < r.2 ∧ r.1 < hi := by
  constructor
  · rintro ⟨x, hlo, hhi, r, hr, hr₁, hr₂⟩
    exact ⟨r, hr, by omega, by omega⟩
  · rintro ⟨r, hr, hlo, hhi⟩
    have := hrs.nonempty r hr
    exact ⟨max lo r.1, by omega, by omega, r, hr, by omega, by omega⟩

/-- Something at or after `hi` is covered where a run ends after it. -/
theorem exists_ge_covers_iff (hrs : Separated rs) :
    (∃ x, hi ≤ x ∧ Covers rs x) ↔ ∃ r ∈ rs, hi < r.2 := by
  constructor
  · rintro ⟨x, hx, r, hr, -, hr₂⟩
    exact ⟨r, hr, by omega⟩
  · rintro ⟨r, hr, hlt⟩
    have := hrs.nonempty r hr
    exact ⟨r.2 - 1, by omega, r, hr, by omega, by omega⟩

/-- The end of the run that starts at 0. -/
def front : List (Nat × Nat) → Nat
  | (0, hi) :: _ => hi
  | _ => 0

theorem covers_of_lt_front (h : x < front rs) : Covers rs x := by
  unfold front at h
  split at h
  · exact covers_cons.mpr (.inl ⟨Nat.zero_le x, h⟩)
  · omega

/-- Runs that cover exactly what is below `hi` start with that run. -/
theorem front_eq (hrs : Separated rs) (h : ∀ x, Covers rs x ↔ x < hi) : front rs = hi := by
  refine Nat.le_antisymm ?_ ?_
  · by_contra hlt
    exact Nat.lt_irrefl hi ((h hi).mp (covers_of_lt_front (by omega)))
  · by_contra hlt
    -- the end of the first run is covered, although the others start after it
    cases rs with
    | nil => exact not_covers_nil ((h 0).mpr (by omega))
    | cons r rs =>
      obtain ⟨hr, hgap, -⟩ := separated_cons.mp hrs
      have hstart : r.1 = 0 := by
        rcases covers_cons.mp ((h 0).mpr (by omega)) with hzero | ⟨r', hr', hzero, -⟩
        · omega
        · have := hgap r' hr'
          omega
      have hfront : front (r :: rs) = r.2 := by
        obtain ⟨a, b⟩ := r
        obtain rfl : a = 0 := hstart
        rfl
      rcases covers_cons.mp ((h r.2).mpr (by omega)) with hend | ⟨r', hr', hend, -⟩
      · omega
      · have := hgap r' hr'
        omega

end Runs

/-- What keeps the runs that have been filled, and reports them in order: `add` merges a range
with the runs it touches, and succeeds if no more than `capacity` are left. -/
structure Assembler where
  State : Type
  new : State
  add : State → Nat → Nat → Option State
  iterData : State → List (Nat × Nat)
  peekFront : State → Nat
  capacity : Nat
  iterData_new : iterData new = []
  separated : ∀ s, Runs.Separated (iterData s)
  iterData_of_add : ∀ {s s' offset size}, 0 < size → add s offset size = some s' →
    iterData s' = Runs.insert offset (offset + size) (iterData s)
  add_isSome : ∀ {s offset size}, 0 < size →
    (Runs.insert offset (offset + size) (iterData s)).length ≤ capacity →
    (add s offset size).isSome
  peekFront_eq : ∀ s, peekFront s = Runs.front (iterData s)

/-- At most `capacity` separated runs. -/
structure RunSet (capacity : Nat) where
  runs : List (Nat × Nat)
  separated : Runs.Separated runs
  length_le : runs.length ≤ capacity

namespace RunSet

variable {capacity : Nat} {offset size : Nat}

/-- Adds `size` places from `offset` on, unless there would be too many runs. -/
def add (s : RunSet capacity) (offset size : Nat) : Option (RunSet capacity) :=
  if h : 0 < size then
    if hlen : (Runs.insert offset (offset + size) s.runs).length ≤ capacity then
      some ⟨_, Runs.separated_insert (by omega) s.separated, hlen⟩
    else none
  else some s

/-- The runs as an assembler. -/
def assembler (capacity : Nat) : Assembler where
  State := RunSet capacity
  new := ⟨[], ⟨.nil, by simp⟩, Nat.zero_le _⟩
  add := add
  iterData := runs
  peekFront s := Runs.front s.runs
  capacity := capacity
  iterData_new := rfl
  separated := separated
  iterData_of_add := by
    intro s s' offset size hsize h
    rw [add, dif_pos hsize] at h
    split at h
    · obtain rfl := Option.some.inj h
      rfl
    · cases h
  add_isSome := by
    intro s offset size hsize hlen
    rw [add, dif_pos hsize, dif_pos hlen]
    rfl
  peekFront_eq _ := rfl

end RunSet

/-! ## Pieces -/

namespace Pieces

variable {α : Type}

/-- Where a piece ends. -/
def stop (p : Nat × List α) : Nat := p.1 + p.2.length

/-- No place is in both pieces. -/
def Disjoint (p q : Nat × List α) : Prop := stop p ≤ q.1 ∨ stop q ≤ p.1

/-- The pieces have something at `x`. -/
def Covers (ps : List (Nat × List α)) (x : Nat) : Prop := ∃ p ∈ ps, p.1 ≤ x ∧ x < stop p

/-- The pieces follow each other from `lo` to `hi`. -/
def Tiles : Nat → List (Nat × List α) → Nat → Prop
  | lo, [], hi => lo = hi
  | lo, p :: ps, hi => p.1 = lo ∧ Tiles (stop p) ps hi

variable {hi lo : Nat} {ps : List (Nat × List α)} {buffer : List α} {p : Nat × List α}

theorem Tiles.le (h : Tiles lo ps hi) : lo ≤ hi := by
  induction ps generalizing lo with
  | nil => exact Nat.le_of_eq h
  | cons p ps ih =>
    obtain ⟨rfl, htail⟩ := h
    exact Nat.le_trans (Nat.le_add_right _ _) (ih htail)

/-- Pieces in order that cover a range, and nothing outside it, tile it. -/
theorem tiles_of_sorted (hsorted : ps.Pairwise fun p q => stop p ≤ q.1) (hne : ∀ p ∈ ps, p.2 ≠ [])
    (hle : lo ≤ hi) (hin : ∀ p ∈ ps, lo ≤ p.1 ∧ stop p ≤ hi)
    (hcover : ∀ x, lo ≤ x → x < hi → Covers ps x) : Tiles lo ps hi := by
  induction ps generalizing lo with
  | nil =>
    by_contra hlt
    obtain ⟨p, hp, -⟩ := hcover lo le_rfl (by unfold Tiles at hlt; omega)
    cases hp
  | cons p ps ih =>
    obtain ⟨hfirst, hrest⟩ := pairwise_cons.mp hsorted
    have hp := hin p mem_cons_self
    have hpos : p.1 < stop p := by
      have := length_pos_of_ne_nil (hne p mem_cons_self)
      unfold stop
      omega
    -- the first place of the range is in the first piece
    have hstart : p.1 = lo := by
      obtain ⟨q, hq, hq₁, -⟩ := hcover lo le_rfl (by omega)
      rcases mem_cons.mp hq with rfl | hq
      · omega
      · have := hfirst q hq
        omega
    refine ⟨hstart, ih hrest (fun q hq => hne q (mem_cons_of_mem _ hq)) hp.2 ?_ ?_⟩
    · intro q hq
      exact ⟨hfirst q hq, (hin q (mem_cons_of_mem _ hq)).2⟩
    · intro x hx hxhi
      obtain ⟨q, hq, hq₁, hq₂⟩ := hcover x (by omega) hxhi
      rcases mem_cons.mp hq with rfl | hq
      · omega
      · exact ⟨q, hq, hq₁, hq₂⟩

/-- Things with disjoint pieces that cover a range, and nothing outside it, tile it in some
order. -/
theorem tiles_of_cover {β : Type} (g : β → Nat × List α) {ts : List β}
    (hdisjoint : (ts.map g).Pairwise Disjoint) (hne : ∀ t ∈ ts, (g t).2 ≠ [])
    (hcover : ∀ x, Covers (ts.map g) x ↔ x < hi) :
    ∃ us : List β, us.Perm ts ∧ Tiles 0 (us.map g) hi := by
  have hperm := perm_insertionSort (fun s t : β => (g s).1 ≤ (g t).1) ts
  have hsorted := pairwise_insertionSort (fun s t : β => (g s).1 ≤ (g t).1) ts
  refine ⟨_, hperm, ?_⟩
  generalize List.insertionSort (fun s t : β => (g s).1 ≤ (g t).1) ts = us at hperm hsorted
  have hpos : ∀ t ∈ us, (g t).1 < stop (g t) := fun t ht => by
    have := length_pos_of_ne_nil (hne t (hperm.mem_iff.mp ht))
    unfold stop
    omega
  have hmem : ∀ {p}, p ∈ us.map g ↔ p ∈ ts.map g := (hperm.map g).mem_iff
  refine tiles_of_sorted ?_ ?_ (Nat.zero_le _) ?_ ?_
  · have hdisjoint' : (us.map g).Pairwise Disjoint :=
      ((hperm.map g).pairwise_iff fun h => Or.symm h).mpr hdisjoint
    rw [pairwise_map] at hdisjoint' ⊢
    refine (hsorted.and hdisjoint').imp_of_mem fun {s t} _ ht ⟨hle, hdis⟩ => ?_
    have := hpos t ht
    rcases hdis with h | h
    · exact h
    · omega
  · intro p hp
    obtain ⟨t, ht, rfl⟩ := mem_map.mp hp
    exact hne t (hperm.mem_iff.mp ht)
  · intro p hp
    obtain ⟨t, ht, rfl⟩ := mem_map.mp hp
    have := hpos t ht
    have hlast := (hcover (stop (g t) - 1)).mp ⟨g t, hmem.mp hp, by omega, by omega⟩
    exact ⟨Nat.zero_le _, by omega⟩
  · intro x _ hx
    obtain ⟨p, hp, h⟩ := (hcover x).mpr hx
    exact ⟨p, hmem.mpr hp, h⟩

/-! ## The buffer -/

/-- The buffer has the piece. -/
def Holds (buffer : List α) (p : Nat × List α) : Prop :=
  (buffer.drop p.1).take p.2.length = p.2

/-- A piece copied into the buffer. -/
def write (buffer : List α) (p : Nat × List α) : List α :=
  buffer.take p.1 ++ p.2 ++ buffer.drop (stop p)

theorem length_write (h : stop p ≤ buffer.length) : (write buffer p).length = buffer.length := by
  unfold stop at h
  simp only [write, stop, length_append, length_take, length_drop]
  omega

theorem holds_write_self (h : stop p ≤ buffer.length) : Holds (write buffer p) p := by
  unfold stop at h
  have hlen : (buffer.take p.1).length = p.1 := by
    rw [length_take]
    omega
  unfold Holds write
  rw [append_assoc, drop_append, hlen]
  simp

/-- A piece that was there stays, if the new one does not meet it. -/
theorem Holds.write {q : Nat × List α} (hq : Holds buffer q) (hp : stop p ≤ buffer.length)
    (hdisjoint : Disjoint p q) : Holds (write buffer p) q := by
  refine Eq.trans ?_ hq
  refine ext_getElem? fun i => ?_
  unfold Pieces.write
  unfold Disjoint stop at *
  simp only [getElem?_take, getElem?_drop, append_assoc]
  split
  · next hi =>
    rcases hdisjoint with h | h
    · rw [getElem?_append_right (by simp only [length_take]; omega),
        getElem?_append_right (by simp only [length_take]; omega), getElem?_drop]
      congr 1
      simp only [length_take]
      omega
    · rw [getElem?_append_left (by simp only [length_take]; omega), getElem?_take_of_lt (by omega)]
  · rfl

/-- What a tiling covers of a buffer that holds its pieces is their concatenation. -/
theorem take_drop_of_tiles (hholds : ∀ p ∈ ps, Holds buffer p) (htiles : Tiles lo ps hi) :
    (buffer.drop lo).take (hi - lo) = ps.flatMap Prod.snd := by
  induction ps generalizing lo with
  | nil =>
    obtain rfl : lo = hi := htiles
    simp
  | cons p ps ih =>
    obtain ⟨rfl, htail⟩ := htiles
    have hle := htail.le
    have hrest := ih (fun q hq => hholds q (mem_cons_of_mem _ hq)) htail
    have hsplit : hi - p.1 = p.2.length + (hi - stop p) := by
      unfold stop at hle ⊢
      omega
    rw [hsplit, take_add, drop_drop]
    congr 1
    exact hholds p mem_cons_self

theorem take_of_tiles (hholds : ∀ p ∈ ps, Holds buffer p) (htiles : Tiles 0 ps hi) :
    buffer.take hi = ps.flatMap Prod.snd := by
  simpa using take_drop_of_tiles hholds htiles

end Pieces

/-! ## Numbered pieces -/

/-- The pieces whose numbers have come up. -/
def slots {α : Type} (xs : List α) (got : List Nat) : List (Option α) :=
  xs.mapIdx fun i x => if i ∈ got then some x else none

section Slots

variable {α : Type} {xs : List α} {got : List Nat} {i : Nat} {x : α}

@[simp] theorem length_slots : (slots xs got).length = xs.length := length_mapIdx

theorem getElem?_slots :
    (slots xs got)[i]? = xs[i]?.map fun x => if i ∈ got then some x else none :=
  getElem?_mapIdx

theorem slots_nil : slots xs [] = List.replicate xs.length none := by
  refine ext_getElem? fun j => ?_
  rw [getElem?_slots]
  by_cases hj : j < xs.length
  · simp [hj]
  · simp [hj]

/-- One more piece. -/
theorem slots_set (hx : xs[i]? = some x) : (slots xs got).set i (some x) = slots xs (i :: got) := by
  refine List.ext_getElem? fun j => ?_
  rw [List.getElem?_set, getElem?_slots, getElem?_slots]
  by_cases hij : i = j
  · subst hij
    obtain ⟨hi, rfl⟩ := List.getElem?_eq_some_iff.mp hx
    simp [hi]
  · simp [hij, Ne.symm hij]

theorem slots_cons_of_mem (h : i ∈ got) : slots xs (i :: got) = slots xs got := by
  refine ext_getElem? fun j => ?_
  rw [getElem?_slots, getElem?_slots]
  have hmem : j ∈ i :: got ↔ j ∈ got := by
    rw [mem_cons]
    exact ⟨fun hj => hj.elim (fun hji => hji ▸ h) id, .inr⟩
  simp only [hmem]

theorem countP_slots_cons (hi : i < xs.length) (h : i ∉ got) :
    (slots xs (i :: got)).countP Option.isSome = (slots xs got).countP Option.isSome + 1 := by
  have hx : xs[i]? = some xs[i] := getElem?_eq_getElem hi
  have hi' : i < (slots xs got).length := by rwa [length_slots]
  have hslot : (slots xs got)[i] = none := by
    simp [slots, h]
  rw [← slots_set hx, countP_set hi', hslot]
  simp

/-- All are there when their number is that of the pieces, -/
theorem countP_slots_eq_length :
    (slots xs got).countP Option.isSome = xs.length ↔ ∀ i < xs.length, i ∈ got := by
  have hlen : (slots xs got).length = xs.length := length_slots
  rw [← hlen, countP_eq_length]
  constructor
  · intro hall i hi
    have hslot := hall _ (getElem_mem hi)
    by_contra hnot
    simp [slots, hnot] at hslot
  · intro hall slot hslot
    obtain ⟨i, hi, rfl⟩ := getElem_of_mem hslot
    simp [slots, hall i hi]

/-- and then they are in order. -/
theorem filterMap_slots (h : ∀ i < xs.length, i ∈ got) : (slots xs got).filterMap id = xs := by
  have hall : slots xs got = xs.map some := by
    refine ext_getElem? fun i => ?_
    rw [getElem?_slots]
    by_cases hi : i < xs.length
    · simp [h i hi]
    · simp [hi]
  rw [hall, filterMap_map]
  exact filterMap_some

end Slots

end Clyntis.Lib
