import Clyntis.Core.Ipv6Fragments

/-!
# What IPv6 reassembly yields, over whole histories

A history is a list of packets and of the loop's calls of `expire`, each with its time; the
packets are any bytes and the times any times.

- `step`, `run`: one event, and a history from an empty queue;
- `Arrived`, `Tile`: a fragment of the history, and one that came while an entry lived;
- `Inv`: every entry is made of fragments of its own key that came since it was made;
- `Tiled`: a packet whose payload is tiled by such fragments;
- `reassembly_sound`: the result.

An entry lives from the fragment that made it until an event at least 30 seconds later removes
it, or its packet is complete. A fragment header with nothing before and after it (an atomic
fragment) concerns no entry: its packet is returned at once. A packet whose headers are not
those of a fragment, and a fragment for which there is no room, concern none either.
-/

namespace Clyntis.Core.Ipv6

open Lib List Table

variable {asm : Assembler}

/-- One call of the queue. -/
inductive Event where
  | packet (bytes : Bytes) (now : Nat)
  | expire (now : Nat)
  deriving DecidableEq, Repr

/-- When it happens. -/
def Event.time : Event → Nat
  | .packet _ now => now
  | .expire now => now

/-- One event. -/
def Reassembly.step (r : Reassembly asm) : Event → Exec (Option Cow × Reassembly asm)
  | .packet bytes now => r.accept bytes now
  | .expire now => .ok (none, r.expire now)

/-- A history, with what each event returns. -/
def Reassembly.run (r : Reassembly asm) (hist : List Event) :
    Exec (List (Option Cow) × Reassembly asm) := feed Reassembly.step r hist

/-- `Reassembly::default()`. -/
def Reassembly.default (asm : Assembler) : Reassembly asm := ⟨∅⟩

variable {r r' : Reassembly asm} {hist : List Event} {e : Event}

/-! ## Where the pieces of an entry come from -/

/-- The `i`-th event is this fragment. -/
def Arrived (hist : List Event) (i : Nat) (f : Fragment) (now : Nat) : Prop :=
  ∃ bytes, hist[i]? = some (.packet bytes now) ∧ parse bytes = .ok (.fragment f)

/-- A fragment of this key that came since `first`, and within the lifetime of what was made
then. -/
def Tile (hist : List Event) (key : Key) (first created : Nat) (t : Nat × Fragment) : Prop :=
  first ≤ t.1 ∧ t.2.key = key ∧ ∃ now, Arrived hist t.1 t.2 now ∧ now - created < lifetime

variable {f : Fragment} {out : Option Cow} {i : Nat} {key : Key} {value : Assembly asm}
  {outs : List (Option Cow)}

theorem Arrived.append {now : Nat} (h : Arrived hist i f now) (later : List Event) :
    Arrived (hist ++ later) i f now := by
  obtain ⟨bytes, hi, hparse⟩ := h
  have hlt : i < hist.length := (List.getElem?_eq_some_iff.mp hi).1
  exact ⟨bytes, (List.getElem?_append_left hlt).trans hi, hparse⟩

theorem Tile.append {first created : Nat} {t : Nat × Fragment}
    (h : Tile hist key first created t) (later : List Event) :
    Tile (hist ++ later) key first created t := by
  obtain ⟨hfirst, hkey, now, harrived, halive⟩ := h
  exact ⟨hfirst, hkey, now, harrived.append later, halive⟩

/-- An entry was made by a fragment of its key, and what it has taken are fragments of its key
that came since. -/
def Logged (hist : List Event) (key : Key) (value : Assembly asm) : Prop :=
  ∃ first f₀, Arrived hist first f₀ value.created ∧ f₀.key = key ∧
    (value.rejected = false → ∃ tiles : List (Nat × Fragment),
      (∀ t ∈ tiles, Tile hist key first value.created t) ∧
      (∀ t ∈ tiles, t.2.offset = value.prefixBytes.length) ∧
      value.Rep (tiles.map fun t => t.2.piece))

theorem Logged.append (h : Logged hist key value)
    (later : List Event) : Logged (hist ++ later) key value := by
  obtain ⟨first, f₀, harrived, hkey, htiles⟩ := h
  refine ⟨first, f₀, harrived.append later, hkey, fun hrejected => ?_⟩
  obtain ⟨tiles, htile, hoffset, hrep⟩ := htiles hrejected
  exact ⟨tiles, fun t ht => (htile t ht).append later, hoffset, hrep⟩

/-- What holds of the queue after a history. -/
structure Inv (hist : List Event) (r : Reassembly asm) : Prop where
  size_le : r.pending.size ≤ maxPackets
  logged : ∀ {key value}, r.pending.lookup key = some value → Logged hist key value

/-- The payload of the packet is tiled by fragments of one key that came within one lifetime,
the last event among them. -/
def Tiled (hist : List Event) (packet : Bytes) : Prop :=
  ∃ (key : Key) (first created : Nat) (tiles : List (Nat × Fragment)) (head : Bytes) (total : Nat),
    (∃ f₀, Arrived hist first f₀ created ∧ f₀.key = key) ∧
    (∀ t ∈ tiles, Tile hist key first created t ∧ t.2.offset = head.length) ∧
    (∃ t ∈ tiles, t.1 + 1 = hist.length) ∧
    Pieces.Tiles 0 (tiles.map fun t => t.2.piece) total ∧
    packet = head ++ tiles.flatMap fun t => t.2.payload

namespace Inv

theorem default (asm : Assembler) : Inv [] (Reassembly.default asm) where
  size_le := Nat.zero_le _
  logged h := by cases h

theorem append (h : Inv hist r) (later : List Event) : Inv (hist ++ later) r where
  size_le := h.size_le
  logged hvalue := (h.logged hvalue).append later

theorem expire (h : Inv hist r) (now : Nat) : Inv hist (r.expire now) where
  size_le := Nat.le_trans (length_filter_le _ _) h.size_le
  logged hvalue := h.logged (Reassembly.lookup_expire.mp hvalue).1

/-- An entry that was updated or finished. -/
theorem put (h : Inv hist r) (hkey : key ∈ r.pending) {stays : Option (Assembly asm)}
    (hlogged : ∀ value, stays = some value → Logged hist key value) :
    Inv hist (r.put key stays) := by
  refine ⟨?_, fun {key' value} hvalue => ?_⟩
  · cases stays with
    | none => exact Nat.le_trans size_erase_le h.size_le
    | some value =>
      show Table.size (r.pending.insert key value) ≤ _
      rw [size_insert_of_mem _ hkey]
      exact h.size_le
  · by_cases hne : key' = key
    · subst hne
      cases stays with
      | none =>
        have hgone : (r.pending.erase key').lookup key' = some value := hvalue
        rw [AList.lookup_erase] at hgone
        cases hgone
      | some value' =>
        rw [Reassembly.lookup_put_some] at hvalue
        exact hlogged value hvalue
    · rw [Reassembly.lookup_put_of_ne hne] at hvalue
      exact h.logged hvalue

variable {now : Nat}

/-- A fragment joins an entry that is alive: the entry stays made of fragments of its key, or
they tile the packet. -/
theorem join (h : Inv hist r) (hf : f.WellFormed) (harrived : Arrived hist i f now)
    (hi : i + 1 = hist.length)
    (hvalue : r.pending.lookup f.key = some value) (halive : now - value.created < lifetime) :
    ∃ packet stays, value.join f = .ok (packet, stays) ∧ Inv hist (r.put f.key stays) ∧
      ∀ bytes, packet = some bytes → Tiled hist bytes := by
  have hkey : f.key ∈ r.pending := mem_iff_lookup.mpr ⟨value, hvalue⟩
  have hlogged := h.logged hvalue
  obtain ⟨first, f₀, hfirst, hf₀, htiles⟩ := h.logged hvalue
  cases hrejected : value.rejected with
  | true =>
    refine ⟨none, some value, Assembly.join_rejected hrejected, h.put hkey ?_, by simp⟩
    rintro _ ⟨⟩
    exact hlogged
  | false =>
    by_cases hbad : value.invalid f = true ∨
        asm.add value.received f.start f.payload.length = none
    · refine ⟨none, _, Assembly.join_poisoned hrejected hbad, h.put hkey ?_, by simp⟩
      rintro _ ⟨⟩
      exact ⟨first, f₀, hfirst, hf₀, fun hfalse => by cases hfalse⟩
    · obtain ⟨hvalid, hadd⟩ := not_or.mp hbad
      rw [Bool.not_eq_true] at hvalid
      obtain ⟨received, hadd⟩ := Option.ne_none_iff_exists'.mp hadd
      obtain ⟨tiles, htile, hoffset, hrep⟩ := htiles hrejected
      have hrep' : (value.taken received f).Rep (((i, f) :: tiles).map fun t => t.2.piece) :=
        (hrep.take hf hvalid hadd).2
      have hlen : value.prefixBytes.length = f.offset := by
        by_contra hne
        rw [Assembly.invalid_iff.mpr (.inr (.inr (.inr (.inr (.inl hne)))))] at hvalid
        cases hvalid
      have hlen' : (value.taken received f).prefixBytes.length = f.offset := by
        have := hrep.size
        have hsize := hrep'.size
        have hstop : f.stop ≤ value.bytes.length := by
          by_contra hlt
          rw [Assembly.invalid_iff.mpr (.inr (.inr (.inr (.inl (by omega)))))] at hvalid
          cases hvalid
        have hwrite : (value.taken received f).bytes.length = value.bytes.length :=
          Pieces.length_write (p := f.piece) hstop
        omega
      -- the tiles of the entry, with the new one
      have htile' : ∀ t ∈ (i, f) :: tiles, Tile hist f.key first value.created t ∧
          t.2.offset = (value.taken received f).prefixBytes.length := by
        intro t ht
        rcases List.mem_cons.mp ht with rfl | ht
        · refine ⟨⟨?_, rfl, now, harrived, halive⟩, hlen'.symm⟩
          obtain ⟨_, hget, -⟩ := hfirst
          have := (List.getElem?_eq_some_iff.mp hget).1
          show first ≤ i
          omega
        · exact ⟨htile t ht, (hoffset t ht).trans (hlen.trans hlen'.symm)⟩
      by_cases hcomplete : (value.taken received f).Complete
      · obtain ⟨total, htotal, hfront⟩ := hcomplete
        refine ⟨_, none, hrep.join_complete hrejected hf hvalid hadd htotal hfront,
          h.put hkey (by simp), ?_⟩
        rintro _ ⟨⟩
        obtain ⟨us, hperm, hus⟩ := Pieces.tiles_of_cover (fun t : Nat × Fragment => t.2.piece)
          hrep'.disjoint (fun t ht => hrep'.nonempty _ (List.mem_map_of_mem ht))
          (hrep'.covers_total htotal hfront)
        refine ⟨f.key, first, value.created, us, _, total, ⟨f₀, hfirst, hf₀⟩, ?_, ?_, hus,
          congrArg _ ?_⟩
        · intro t ht
          obtain ⟨htile, hoff⟩ := htile' t (hperm.mem_iff.mp ht)
          exact ⟨htile, hoff.trans (length_rewritten hrep'.header.1).symm⟩
        · exact ⟨(i, f), hperm.mem_iff.mpr List.mem_cons_self, hi⟩
        · have htake := Pieces.take_of_tiles (fun p hp => hrep'.holds p
            ((hperm.map fun t : Nat × Fragment => t.2.piece).mem_iff.mp hp)) hus
          rw [htake, List.flatMap_map]
          rfl
      · refine ⟨none, _, hrep.join_incomplete hrejected hf hvalid hadd hcomplete,
          h.put hkey ?_, by simp⟩
        rintro _ ⟨⟩
        refine ⟨first, f₀, hfirst, hf₀, fun _ => ⟨(i, f) :: tiles, ?_, ?_, hrep'⟩⟩
        · exact fun t ht => (htile' t ht).1
        · exact fun t ht => (htile' t ht).2

/-- A fragment, found its entry or not. -/
theorem queue (h : Inv hist r) (hf : f.WellFormed) (harrived : Arrived hist i f now)
    (hi : i + 1 = hist.length) :
    ∃ out r', r.queue f now = .ok (out, r') ∧ Inv hist r' ∧
      ∀ bytes, out = some (.owned bytes) → Tiled hist bytes := by
  -- with an entry for its key, the fragment joins it
  have joined : ∀ {r₁ : Reassembly asm} {value : Assembly asm}, Inv hist r₁ →
      (r.expire now).enter f now = .ok (some r₁) → r₁.pending.lookup f.key = some value →
      now - value.created < lifetime → ∃ out r', r.queue f now = .ok (out, r') ∧ Inv hist r' ∧
        ∀ bytes, out = some (.owned bytes) → Tiled hist bytes := by
    intro r₁ value hinv henter hvalue halive
    obtain ⟨packet, stays, hjoin, hput, htiled⟩ := hinv.join hf harrived hi hvalue halive
    refine ⟨_, _, Reassembly.queue_of_join henter hvalue hjoin, hput, fun bytes hbytes => ?_⟩
    obtain ⟨packet', rfl, heq⟩ := Option.map_eq_some_iff.mp hbytes
    exact htiled bytes (congrArg some (Cow.owned.inj heq))
  have hexpire := h.expire now
  obtain ⟨hmem, henter⟩ | ⟨-, -, henter⟩ | ⟨hnot, hsize, hoffset, henter⟩ :=
    (r.expire now).enter_cases hf now
  · obtain ⟨value, hvalue⟩ := mem_iff_lookup.mp hmem
    exact joined hexpire henter hvalue (Reassembly.lookup_expire.mp hvalue).2
  · exact ⟨none, _, Reassembly.queue_of_full henter, hexpire, by simp⟩
  · refine joined ⟨?_, fun {key value} hvalue => ?_⟩ henter (AList.lookup_insert _) ?_
    · show Table.size ((r.expire now).pending.insert f.key _) ≤ _
      rw [size_insert_of_notMem _ hnot]
      exact hsize
    · rcases lookup_insert_iff.mp hvalue with ⟨rfl, rfl⟩ | ⟨-, hold⟩
      · exact ⟨i, f, harrived, rfl, fun _ => ⟨[], by simp, by simp, hf.rep_fresh hoffset now⟩⟩
      · exact hexpire.logged hold
    · show now - now < lifetime
      rw [Nat.sub_self]
      decide

/-- **One event** keeps the invariant, returns, and what it yields is tiled. -/
theorem step (h : Inv hist r) (e : Event) :
    ∃ out r', r.step e = .ok (out, r') ∧ Inv (hist ++ [e]) r' ∧
      ∀ bytes, out = some (.owned bytes) → Tiled (hist ++ [e]) bytes := by
  have happend := h.append [e]
  cases e with
  | expire now => exact ⟨none, _, rfl, happend.expire now, by simp⟩
  | packet bytes now =>
    obtain ⟨p, hparse, hwf⟩ := parse_ok bytes
    show ∃ out r', r.accept bytes now = .ok (out, r') ∧ _
    unfold Reassembly.accept
    rw [hparse, Exec.ok_bind]
    cases p with
    | dropped => exact ⟨none, r, rfl, happend, by simp⟩
    | passed bytes => exact ⟨some (.borrowed bytes), r, rfl, happend, by simp⟩
    | fragment f =>
      have hf := hwf f rfl
      have harrived : Arrived (hist ++ [.packet bytes now]) hist.length f now :=
        ⟨bytes, by simp, hparse⟩
      dsimp only
      split
      · next hatomic =>
        simp only [Fragment.atomic, Bool.and_eq_true, beq_iff_eq] at hatomic
        have hlen := hf.length_eq
        have hhead : (f.bytes.take f.offset).length = f.offset := by
          rw [length_take]
          omega
        have hpre : 40 ≤ (f.bytes.take f.offset).length := by
          rw [hhead]
          exact hf.offset_ge
        have hprevious : f.previous < (f.bytes.take f.offset).length := by
          rw [hhead]
          exact hf.previous_lt
        rw [slice_ok (Nat.zero_le _) (by omega), Exec.ok_bind, drop_zero, Nat.sub_zero,
          reassemble_ok _ _ hpre hprevious]
        refine ⟨_, r, rfl, happend, fun packet hpacket => ?_⟩
        obtain rfl := Cow.owned.inj (Option.some.inj hpacket)
        -- the fragment is the whole packet
        refine ⟨f.key, hist.length, now, [(hist.length, f)],
          rewritten (f.bytes.take f.offset) f.previous f.next f.payload.length, f.stop,
          ⟨f, harrived, rfl⟩, ?_, ⟨_, mem_singleton_self _, by simp⟩, ⟨hatomic.2, rfl⟩,
          by simp⟩
        intro t ht
        obtain rfl := mem_singleton.mp ht
        refine ⟨⟨le_rfl, rfl, now, harrived, ?_⟩, ?_⟩
        · rw [Nat.sub_self]
          decide
        · rw [length_rewritten hpre]
          exact hhead.symm
      · exact happend.queue hf harrived (by simp)

/-- A history goes on: it returns, with the invariant, and what it yields is tiled. -/
theorem feed (h : Inv hist r) (later : List Event) :
    ∃ outs r', r.run later = .ok (outs, r') ∧ Inv (hist ++ later) r' ∧
      ∀ i packet, outs[i]? = some (some (.owned packet)) →
        Tiled (hist ++ later.take (i + 1)) packet := by
  induction later generalizing hist r with
  | nil => exact ⟨[], r, rfl, by simpa using h, by simp⟩
  | cons e later ih =>
    obtain ⟨out, r₁, hstep, hinv, hout⟩ := h.step e
    obtain ⟨outs, r', hrun, hinv', htiled⟩ := ih hinv
    rw [append_assoc] at hinv'
    refine ⟨out :: outs, r', ?_, hinv', fun i packet hi => ?_⟩
    · rw [Reassembly.run, feed_cons hstep]
      exact congrArg (Except.map _) hrun
    · cases i with
      | zero => exact hout packet (Option.some.inj hi)
      | succ i =>
        have hrest := htiled i packet hi
        rwa [append_assoc] at hrest

theorem of_run (h : (Reassembly.default asm).run hist = .ok (outs, r)) : Inv hist r := by
  obtain ⟨outs', r', hrun, hinv, -⟩ := (default asm).feed hist
  rw [h] at hrun
  cases hrun
  exact hinv

end Inv

/-! ## Poisoned entries -/

/-- The fragment an event offers to the queue. -/
def Event.joins : Event → Option Fragment
  | .expire _ => none
  | .packet bytes _ =>
    match parse bytes with
    | .ok (.fragment f) => if f.atomic then none else some f
    | _ => none

theorem Event.joins_eq_some (h : e.joins = some f) :
    ∃ bytes, e = .packet bytes e.time ∧ parse bytes = .ok (.fragment f) ∧ f.atomic = false := by
  cases e with
  | expire now => cases h
  | packet bytes now =>
    unfold joins at h
    dsimp only at h
    split at h
    · next f' hparse =>
      split at h
      · cases h
      · next hatomic =>
        obtain rfl := Option.some.inj h
        exact ⟨bytes, rfl, hparse, Bool.eq_false_iff.mpr hatomic⟩
    · cases h

theorem Reassembly.step_of_joins (h : e.joins = some f) : r.step e = r.queue f e.time := by
  obtain ⟨bytes, he, hparse, hatomic⟩ := Event.joins_eq_some h
  rw [he]
  show r.accept bytes _ = _
  unfold accept
  rw [hparse, Exec.ok_bind]
  simp only [hatomic]
  rfl

/-- An event that offers nothing to the queue at most lets entries expire. -/
theorem Reassembly.step_of_not_joins (h : e.joins = none) (hstep : r.step e = .ok (out, r')) :
    r' = r ∨ r' = r.expire e.time := by
  cases e with
  | expire now =>
    cases hstep
    exact .inr rfl
  | packet bytes now =>
    left
    obtain ⟨p, hparse, -⟩ := parse_ok bytes
    change r.accept bytes now = _ at hstep
    unfold accept at hstep
    rw [hparse, Exec.ok_bind] at hstep
    cases p with
    | dropped | passed =>
      cases hstep
      rfl
    | fragment f =>
      have hatomic : f.atomic = true := by
        by_contra hne
        simp [Event.joins, hparse, hne] at h
      simp only [hatomic] at hstep
      obtain ⟨head, -, hstep⟩ := bind_eq_ok hstep
      obtain ⟨packet, -, hstep⟩ := bind_eq_ok hstep
      cases hstep
      rfl

/-- An event at most lets the entry of another key expire. -/
theorem Reassembly.lookup_step_of_ne (hother : ∀ f, e.joins = some f → f.key ≠ key)
    (hstep : r.step e = .ok (out, r')) :
    r'.pending.lookup key = r.pending.lookup key ∨
      r'.pending.lookup key = (r.expire e.time).pending.lookup key := by
  cases hjoins : e.joins with
  | none => exact (step_of_not_joins hjoins hstep).imp (by rintro rfl; rfl) (by rintro rfl; rfl)
  | some f =>
    rw [step_of_joins hjoins] at hstep
    obtain ⟨bytes, -, hparse, -⟩ := Event.joins_eq_some hjoins
    exact .inr (lookup_queue_of_ne (wellFormed_of_parse hparse) (hother f hjoins).symm hstep)

/-- A living one stays. -/
theorem Reassembly.lookup_step_of_alive
    (hother : ∀ f, e.joins = some f → f.key ≠ key) (hvalue : r.pending.lookup key = some value)
    (halive : e.time - value.created < lifetime) (hstep : r.step e = .ok (out, r')) :
    r'.pending.lookup key = some value := by
  rcases lookup_step_of_ne hother hstep with h | h
  · exact h.trans hvalue
  · exact h.trans (lookup_expire.mpr ⟨hvalue, halive⟩)

/-- A poisoned entry yields nothing and stays for its lifetime. -/
theorem Reassembly.step_of_rejected
    (hvalue : r.pending.lookup key = some value) (hrejected : value.rejected = true)
    (halive : e.time - value.created < lifetime) (hstep : r.step e = .ok (out, r')) :
    r'.pending.lookup key = some value ∧
      ∀ f, e.joins = some f → f.key = key → out = none := by
  by_cases hmine : ∃ f, e.joins = some f ∧ f.key = key
  · obtain ⟨f, hjoins, rfl⟩ := hmine
    have hexpire : (r.expire e.time).pending.lookup f.key = some value :=
      lookup_expire.mpr ⟨hvalue, halive⟩
    have hmem : f.key ∈ (r.expire e.time).pending := mem_iff_lookup.mpr ⟨value, hexpire⟩
    have henter : (r.expire e.time).enter f e.time = .ok (some (r.expire e.time)) := if_pos hmem
    rw [step_of_joins hjoins,
      queue_of_join henter hexpire (Assembly.join_rejected hrejected)] at hstep
    cases hstep
    exact ⟨lookup_put_some, fun _ _ _ => rfl⟩
  · have hother : ∀ f, e.joins = some f → f.key ≠ key :=
      fun f hjoins hkey => hmine ⟨f, hjoins, hkey⟩
    exact ⟨lookup_step_of_alive hother hvalue halive hstep,
      fun f hjoins hkey => absurd hkey (hother f hjoins)⟩

/-- The same over every later history within the lifetime. -/
theorem Reassembly.run_of_rejected {later : List Event} (hvalue : r.pending.lookup key = some value)
    (hrejected : value.rejected = true) (halive : ∀ e ∈ later, e.time - value.created < lifetime)
    (hrun : r.run later = .ok (outs, r')) :
    ∀ (i : Nat) (e : Event) (f : Fragment), later[i]? = some e → e.joins = some f → f.key = key →
      outs[i]? = some none := by
  induction later generalizing r outs with
  | nil => simp
  | cons e later ih =>
    obtain ⟨out, r₁, outs', hstep, hrest, rfl⟩ := feed_cons_inv hrun
    obtain ⟨hvalue₁, hnone⟩ :=
      step_of_rejected hvalue hrejected (halive e mem_cons_self) hstep
    intro i e' f hi hjoins hkey
    cases i with
    | zero =>
      obtain rfl : e = e' := by simpa using hi
      simp [hnone f hjoins hkey]
    | succ i =>
      exact ih hvalue₁ (fun e' he' => halive e' (mem_cons_of_mem _ he')) hrest i e' f hi
        hjoins hkey

/-- **IPv6 reassembly is sound**: every history of packets and times returns; at most 64 entries
are pending after it; every packet put together in it is tiled by fragments of one key that came
within one lifetime; and once a fragment is overlapping, misaligned or inconsistent with the
entry of its key (the one it finds alive or the one it makes), neither it nor any later fragment
of the key yields a packet until the entry expires. -/
theorem reassembly_sound (asm : Assembler) (hist : List Event) :
    ∃ outs r, (Reassembly.default asm).run hist = .ok (outs, r) ∧ r.pending.size ≤ 64 ∧
      (∀ i packet, outs[i]? = some (some (.owned packet)) → Tiled (hist.take (i + 1)) packet) ∧
      ∀ (e : Event) (f : Fragment) (r₁ : Reassembly asm) (value : Assembly asm)
        (later : List Event), e.joins = some f →
        (r.expire e.time).enter f e.time = .ok (some r₁) → r₁.pending.lookup f.key = some value →
        (value.rejected = true ∨ value.Overlapping f ∨ f.Misaligned ∨ value.Inconsistent f) →
        (∀ e' ∈ later, e'.time - value.created < lifetime) →
        ∃ outs' r', r.run (e :: later) = .ok (outs', r') ∧
          ∀ (i : Nat) (e' : Event) (g : Fragment), (e :: later)[i]? = some e' →
            e'.joins = some g → g.key = f.key → outs'[i]? = some none := by
  obtain ⟨outs, r, hrun, hinv, htiled⟩ := (Inv.default asm).feed hist
  refine ⟨outs, r, hrun, hinv.size_le, htiled, ?_⟩
  intro e f r₁ value later hjoins henter hvalue hbad halive
  -- the fragment leaves its entry poisoned
  obtain ⟨poisoned, hjoin, hpoisoned, hcreated⟩ : ∃ poisoned,
      value.join f = .ok (none, some poisoned) ∧ poisoned.rejected = true ∧
        poisoned.created = value.created := by
    cases hrejected : value.rejected with
    | true => exact ⟨value, Assembly.join_rejected hrejected, hrejected, rfl⟩
    | false =>
      rw [hrejected] at hbad
      have hinvalid := Assembly.invalid_iff.mpr (hbad.resolve_left (by simp))
      exact ⟨_, Assembly.join_poisoned hrejected (.inl hinvalid), rfl, rfl⟩
  have hstep : r.step e = .ok (none, r₁.put f.key (some poisoned)) := by
    rw [Reassembly.step_of_joins hjoins]
    exact Reassembly.queue_of_join henter hvalue hjoin
  -- and the rest of the history returns
  obtain ⟨out, r₂, hstep', hinv', -⟩ := hinv.step e
  cases hstep.symm.trans hstep'
  obtain ⟨rest, r', hrest, -⟩ := hinv'.feed later
  refine ⟨none :: rest, r', ?_, fun i e' g hi hjoins' hkey => ?_⟩
  · rw [Reassembly.run, feed_cons hstep]
    exact congrArg (Except.map _) hrest
  · cases i with
    | zero => rfl
    | succ i =>
      rw [← hcreated] at halive
      exact Reassembly.run_of_rejected Reassembly.lookup_put_some hpoisoned halive hrest i e' g hi
        hjoins' hkey

end Clyntis.Core.Ipv6
