import Clyntis.Lib.Text
import Mathlib.Order.Nat

/-!
# Streams that are polled

A polled stream answers each call with data, with an error or with `Pending`, and keeps what it
has done so far whatever it answers. A layer on top of another stream passes `Pending` and errors
on (`Poll.andThen`) and is called again later.

- `Content`: what there is to read from a stream: bytes, and whether an error follows them;
- `View`: what each state of a stream has to read, and how much of it is left;
- `ReadStep`: what a read may do to a stream. A read that is not the last one also uses up
  something, so that reading comes to an end;
- `Phase`: what a part of a read may do that comes before the data; `Phase.andThen`: phases in front
  of a read;
- `observe`, `observe_spec`: reading by any sequence of calls, with other calls between them: the
  bytes are those of the content, in order and complete when the end is reported, and the end is
  reached;
- `collect`: the loop that reads a given number of bytes and stops halfway if it has to;
- `SendStep`: what a call that sends may do;
- `drain`: the loop that writes out a buffer;
- `Wire`: a transport that follows a script, with a log of what was sent on it.
-/

namespace Clyntis.Lib

open List

/-- `io::Error`, as far as the streams tell errors apart. -/
inductive StreamError where
  | unexpectedEof
  | writeZero
  | brokenPipe
  | other (message : String)
  /-- an error of the transport below -/
  | transport (code : Nat)
  deriving DecidableEq, Repr

/-- Errors that come from sending, not from what was received. -/
def StreamError.sending : StreamError → Bool
  | writeZero | transport _ => true
  | _ => false

/-- `Poll<io::Result<α>>`. -/
inductive Poll (α : Type) where
  | pending
  | ready (value : α)
  | failed (error : StreamError)
  deriving DecidableEq, Repr

namespace Poll

variable {σ α β : Type} {next : α → σ → Poll β × σ}

/-- `ready!(call)?`: goes on with the value, or returns. -/
def andThen (call : Poll α × σ) (next : α → σ → Poll β × σ) : Poll β × σ :=
  match call with
  | (.ready a, s) => next a s
  | (.pending, s) => (.pending, s)
  | (.failed e, s) => (.failed e, s)

@[simp] theorem andThen_ready (a : α) (s : σ) (next : α → σ → Poll β × σ) :
    andThen (.ready a, s) next = next a s := rfl

@[simp] theorem andThen_pending (s : σ) (next : α → σ → Poll β × σ) :
    andThen (.pending, s) next = (.pending, s) := rfl

@[simp] theorem andThen_failed (e : StreamError) (s : σ) (next : α → σ → Poll β × σ) :
    andThen (.failed e, s) next = (.failed e, s) := rfl

/-- What holds after a call and then goes on to hold. -/
theorem andThen_holds {P : σ → Prop} {call : Poll α × σ}
    (hcall : P call.2) (hnext : ∀ a s, P s → P (next a s).2) : P (andThen call next).2 := by
  rcases call with ⟨_ | a | e, s⟩
  · exact hcall
  · exact hnext a s hcall
  · exact hcall

variable {γ : Type}

/-- What a call keeps and what comes then keeps. -/
theorem andThen_keeps {f : σ → γ} {x : γ} {call : Poll α × σ} (hcall : f call.2 = x)
    (hnext : ∀ a s, f s = x → f (next a s).2 = x) : f (andThen call next).2 = x :=
  andThen_holds (P := fun s => f s = x) hcall hnext

/-- Nothing is read after this result. -/
def last : Poll Bytes → Bool
  | ready bs => bs.isEmpty
  | failed e => !e.sending
  | pending => false

/-- The bytes of a read. -/
def bytes : Poll Bytes → Bytes
  | ready bs => bs
  | _ => []

/-- The read failed because sending did. -/
def aside : Poll Bytes → Bool
  | failed e => e.sending
  | _ => false

end Poll

/-! ## What there is to read -/

/-- The bytes of a stream, and the error behind them if there is one. -/
structure Content where
  bytes : Bytes
  ending : Option StreamError
  deriving DecidableEq, Repr

/-- Bytes in front. -/
def Content.prepend (bs : Bytes) (c : Content) : Content := ⟨bs ++ c.bytes, c.ending⟩

@[simp] theorem Content.prepend_nil (c : Content) : c.prepend [] = c := rfl

@[simp] theorem Content.prepend_prepend (as bs : Bytes) (c : Content) :
    (c.prepend bs).prepend as = c.prepend (as ++ bs) := by
  simp [Content.prepend]

/-- How a stream is seen by its reader: what there is to read in each state, and how much is left,
counted so that every read uses up some of it. `inv` holds while it is read, `fin` when its end has
been reported. -/
structure View (σ : Type) where
  inv : σ → Prop
  den : σ → Content
  left : σ → Nat
  fin : σ → Prop

section Reading

variable {σ ι : Type} {V : View σ}

/-- What a read with room for `n` bytes does to a stream. Each result that is not the last uses up
some of `left`, and data as much as it has bytes. -/
inductive ReadStep (V : View σ) (n : Nat) (s : σ) : Poll Bytes → σ → Prop
  | pending {s'} (ok : V.inv s') (same : V.den s' = V.den s) (less : V.left s' < V.left s) :
      ReadStep V n s .pending s'
  | data {s' bs} (ok : V.inv s') (some : bs ≠ []) (room : bs.length ≤ n)
      (split : V.den s = (V.den s').prepend bs) (less : V.left s' + bs.length ≤ V.left s) :
      ReadStep V n s (.ready bs) s'
  | eof {s'} (ok : V.inv s') (done : V.fin s') (empty : V.den s = ⟨[], none⟩)
      (same : V.den s' = V.den s) (le : V.left s' ≤ V.left s) : ReadStep V n s (.ready []) s'
  | error {s' e} (done : V.fin s') (own : e.sending = false)
      (empty : V.den s = ⟨[], some e⟩) : ReadStep V n s (.failed e) s'
  | aside {s' e} (ok : V.inv s') (sending : e.sending = true)
      (same : V.den s' = V.den s) (le : V.left s' ≤ V.left s) : ReadStep V n s (.failed e) s'

/-- A law for the reads of a stream. -/
def Readable (V : View σ) (read : Nat → σ → Poll Bytes × σ) : Prop :=
  ∀ {s : σ} {n : Nat}, V.inv s → 0 < n → ReadStep V n s (read n s).1 (read n s).2

variable {n : Nat} {r : Poll Bytes} {s : σ}

/-- A read that another stream passes on. -/
theorem ReadStep.lift {τ : Type} {W : View τ} {t t' : τ} {s' : σ} (h : ReadStep W n t r t')
    (hden : V.den s = W.den t) (hden' : V.den s' = W.den t')
    (hleft : V.left s' + W.left t ≤ V.left s + W.left t') (hinv : W.inv t' → V.inv s')
    (hfin : W.fin t' → V.fin s') : ReadStep V n s r s' := by
  cases h with
  | pending ok same less => exact .pending (hinv ok) (by rw [hden, hden', same]) (by omega)
  | data ok some room split less =>
    exact .data (hinv ok) some room (by rw [hden, hden', split]) (by omega)
  | eof ok done empty same le =>
    exact .eof (hinv ok) (hfin done) (by rw [hden, empty]) (by rw [hden, hden', same]) (by omega)
  | error done own empty => exact .error (hfin done) own (by rw [hden, empty])
  | aside ok sending same le =>
    exact .aside (hinv ok) sending (by rw [hden, hden', same]) (by omega)

/-- A read from a stream with the same content and no more left. -/
theorem ReadStep.of_same {s₁ s' : σ} (hsame : V.den s₁ = V.den s) (hle : V.left s₁ ≤ V.left s)
    (h : ReadStep V n s₁ r s') : ReadStep V n s r s' :=
  h.lift hsame.symm rfl (by omega) id id

/-- A stream inside another one. -/
def View.comap {τ : Type} (f : τ → σ) (V : View σ) : View τ where
  inv t := V.inv (f t)
  den t := V.den (f t)
  left t := V.left (f t)
  fin t := V.fin (f t)

theorem ReadStep.comap {τ : Type} {f : τ → σ} {t t' : τ} (h : ReadStep V n (f t) r (f t')) :
    ReadStep (V.comap f) n t r t' :=
  h.lift rfl rfl (Nat.add_comm _ _).le id id

/-- What the part of a read does that comes before the data; `post` holds when it goes on. -/
inductive Phase (V : View σ) {α : Type} (post : α → σ → Prop) (s : σ) : Poll α → σ → Prop
  | ready {s' a} (ok : V.inv s') (holds : post a s') (same : V.den s' = V.den s)
      (le : V.left s' ≤ V.left s) : Phase V post s (.ready a) s'
  | pending {s'} (ok : V.inv s') (same : V.den s' = V.den s) (less : V.left s' < V.left s) :
      Phase V post s .pending s'
  | error {s' e} (done : V.fin s') (own : e.sending = false)
      (empty : V.den s = ⟨[], some e⟩) : Phase V post s (.failed e) s'
  | aside {s' e} (ok : V.inv s') (sending : e.sending = true)
      (same : V.den s' = V.den s) (le : V.left s' ≤ V.left s) : Phase V post s (.failed e) s'

/-- A phase in front of a read. -/
theorem Phase.andThen {α : Type} {post : α → σ → Prop} {call : Poll α × σ}
    {next : α → σ → Poll Bytes × σ} (hphase : Phase V post s call.1 call.2)
    (hnext : ∀ a s', V.inv s' → post a s' → V.left s' ≤ V.left s →
      ReadStep V n s' (next a s').1 (next a s').2) :
    ReadStep V n s (Poll.andThen call next).1 (Poll.andThen call next).2 := by
  obtain ⟨r, s'⟩ := call
  cases hphase with
  | @ready _ a ok holds same le => exact (hnext a s' ok holds le).of_same same le
  | pending ok same less => exact .pending ok same less
  | error done own empty => exact .error done own empty
  | aside ok sending same le => exact .aside ok sending same le

/-- The results of the reads among some calls, up to the last one; a call that reads nothing
gives `none`. -/
def observe (step : σ → ι → Option (Poll Bytes) × σ) : σ → List ι → List (Poll Bytes) × σ
  | s, [] => ([], s)
  | s, i :: is =>
    match step s i with
    | (none, s') => observe step s' is
    | (some r, s') =>
      if r.last then ([r], s') else (r :: (observe step s' is).1, (observe step s' is).2)

/-- What holds of every result of a read holds of those that are seen. -/
theorem observe_all {step : σ → ι → Option (Poll Bytes) × σ} {P : Poll Bytes → Prop}
    (h : ∀ s i r s', step s i = (some r, s') → P r) (s : σ) (is : List ι) :
    ∀ r ∈ (observe step s is).1, P r := by
  induction is generalizing s with
  | nil => exact nofun
  | cons i is ih =>
    rw [observe]
    rcases hout : step s i with ⟨_ | r, s'⟩
    · exact ih s'
    · dsimp only
      split
      · intro r' hr'
        rw [mem_singleton.mp hr']
        exact h s i r s' hout
      · intro r' hr'
        rcases mem_cons.mp hr' with rfl | hr'
        · exact h s i _ s' hout
        · exact ih s' r' hr'

/-- All bytes of some results. -/
def delivered (results : List (Poll Bytes)) : Bytes := results.flatMap Poll.bytes

/-- What the results say about the content they were read from. -/
structure Observed (content : Content) (results : List (Poll Bytes)) : Prop where
  in_order : delivered results <+: content.bytes
  at_end : .ready [] ∈ results → content = ⟨delivered results, none⟩
  at_error : ∀ e, .failed e ∈ results → e.sending = false → content = ⟨delivered results, some e⟩

theorem Observed.nil (content : Content) : Observed content [] :=
  ⟨List.nil_prefix, nofun, nofun⟩

/-- One more result in front. -/
theorem Observed.cons {content : Content} {results : List (Poll Bytes)} (hr : r.last = false)
    (h : Observed content results) : Observed (content.prepend r.bytes) (r :: results) := by
  refine ⟨?_, ?_, ?_⟩
  · exact (prefix_append_right_inj _).mpr h.in_order
  · intro hend
    rcases mem_cons.mp hend with rfl | hend
    · cases hr
    · rw [h.at_end hend]
      rfl
  · intro e he hown
    rcases mem_cons.mp he with rfl | he
    · rw [Poll.last, hown] at hr
      cases hr
    · rw [h.at_error e he hown]
      rfl

section Step

variable {s s' : σ}

/-- A result that is not the last leaves the rest of the content. -/
theorem ReadStep.of_not_last (h : ReadStep V n s r s') (hr : r.last = false) :
    V.inv s' ∧ V.den s = (V.den s').prepend r.bytes ∧
      (r.aside = false → V.left s' < V.left s) := by
  cases h with
  | pending ok same less => exact ⟨ok, same.symm, fun _ => less⟩
  | data ok some room split less =>
    have hpos := length_pos_iff.mpr some
    exact ⟨ok, split, fun _ => by omega⟩
  | eof ok done empty same le => cases hr
  | error done own empty =>
    rw [Poll.last, own] at hr
    cases hr
  | aside ok sending same le =>
    refine ⟨ok, same.symm, fun h => ?_⟩
    rw [Poll.aside, sending] at h
    cases h

/-- The last result says how the content ends. -/
theorem ReadStep.of_last (h : ReadStep V n s r s') (hr : r.last = true) :
    V.fin s' ∧ Observed (V.den s) [r] := by
  cases h with
  | pending ok same less => cases hr
  | data ok some room split less => exact absurd (isEmpty_iff.mp hr) some
  | eof ok done empty same le =>
    rw [empty]
    refine ⟨done, List.nil_prefix, fun _ => rfl, fun e he => ?_⟩
    cases mem_singleton.mp he
  | @error _ e done own empty =>
    rw [empty]
    refine ⟨done, List.nil_prefix, fun h => ?_, fun e' he _ => ?_⟩
    · cases mem_singleton.mp h
    · cases mem_singleton.mp he
      rfl
  | aside ok sending same le =>
    rw [Poll.last, sending] at hr
    cases hr

end Step

/-- What a call that does not read does to what there is to read. -/
structure KeepsReading (V : View σ) (s s' : σ) : Prop where
  inv : V.inv s'
  same : V.den s' = V.den s
  le : V.left s' ≤ V.left s

theorem KeepsReading.trans {s₁ s₂ : σ} (h : KeepsReading V s s₁) (h' : KeepsReading V s₁ s₂) :
    KeepsReading V s s₂ :=
  ⟨h'.inv, h'.same.trans h.same, h'.le.trans h.le⟩

/-- What a call does: `reading` says whether it reads. -/
def CallStep (V : View σ) (reading : Bool) (s : σ) : Option (Poll Bytes) × σ → Prop
  | (some r, s') => reading = true ∧ ∃ n, ReadStep V n s r s'
  | (none, s') => reading = false ∧ KeepsReading V s s'

/-- What reading a stream of content `content` with `left` reads left comes to: the results, and
the state behind them. -/
structure Finished (V : View σ) (content : Content) (left reads : Nat)
    (results : List (Poll Bytes)) (s' : σ) : Prop where
  observed : Observed content results
  going : (∀ r ∈ results, r.last = false) → V.inv s'
  ended : (∃ r ∈ results, r.last = true) → V.fin s'
  ends : left < reads → (∀ r ∈ results, r.aside = false) → ∃ r ∈ results, r.last = true

variable {step : σ → ι → Option (Poll Bytes) × σ} {reading : ι → Bool}

/-- **Reading a stream.** If every call that reads obeys the law and every other call leaves the
content alone, then the results are those of the content, and more than `left` reads reach the
end unless one of them failed to send. -/
theorem observe_spec (hstep : ∀ s i, V.inv s → CallStep V (reading i) s (step s i))
    (hs : V.inv s) (is : List ι) :
    Finished V (V.den s) (V.left s) (is.countP reading) (observe step s is).1
      (observe step s is).2 := by
  induction is generalizing s with
  | nil => exact ⟨.nil _, fun _ => hs, nofun, fun h => absurd h (Nat.not_lt_zero _)⟩
  | cons i is ih =>
    rw [observe]
    have hcall := hstep s i hs
    generalize step s i = out at hcall
    rcases out with ⟨_ | r, s'⟩
    · obtain ⟨hfalse, hinv, hsame, hle⟩ := hcall
      obtain ⟨hobs, hgoing, hended, hends⟩ := ih hinv
      rw [hsame] at hobs
      refine ⟨hobs, hgoing, hended, fun hlt => hends ?_⟩
      rw [countP_cons_of_neg (by simp [hfalse])] at hlt
      omega
    · obtain ⟨htrue, n, hr⟩ := hcall
      dsimp only
      cases hlast : r.last with
      | true =>
        obtain ⟨hfin, hobs⟩ := hr.of_last hlast
        have hmem : ∃ r' ∈ [r], r'.last = true := ⟨r, mem_singleton_self r, hlast⟩
        refine ⟨hobs, fun hall => ?_, fun _ => hfin, fun _ _ => hmem⟩
        rw [hall r (mem_singleton_self r)] at hlast
        cases hlast
      | false =>
        obtain ⟨hinv, hsplit, hless⟩ := hr.of_not_last hlast
        obtain ⟨hobs, hgoing, hended, hends⟩ := ih hinv
        rw [countP_cons_of_pos htrue, hsplit]
        refine ⟨hobs.cons hlast, fun hall => ?_, fun hend => ?_, fun hlt haside => ?_⟩
        · exact hgoing fun r' hr' => hall r' (mem_cons_of_mem _ hr')
        · obtain ⟨r', hr', hlast'⟩ := hend
          rcases mem_cons.mp hr' with rfl | hr'
          · rw [hlast] at hlast'
            cases hlast'
          · exact hended ⟨r', hr', hlast'⟩
        · have hless := hless (haside r mem_cons_self)
          obtain ⟨r', hr', hlast'⟩ := hends (by omega) fun r' hr' =>
            haside r' (mem_cons_of_mem _ hr')
          exact ⟨r', mem_cons_of_mem _ hr', hlast'⟩

end Reading

/-! ## Collecting a number of bytes -/

/-- How `collect` ended. -/
inductive Collected where
  | done
  | pending
  | eof
  | failed (error : StreamError)
  deriving DecidableEq, Repr

section Collecting

variable {σ γ : Type} {V : View σ} {read : Nat → σ → Poll Bytes × σ} {s s' : σ}
  {got : Bytes} {need : Nat}

/-- The turns of `collect`. -/
def collectLoop (read : Nat → σ → Poll Bytes × σ) (cap : Nat) : (turns need : Nat) → σ →
    Collected × Bytes × σ
  | 0, _, s => (.done, [], s)
  | turns + 1, need, s =>
    if need = 0 then (.done, [], s)
    else match read (min need cap) s with
      | (.pending, s') => (.pending, [], s')
      | (.failed e, s') => (.failed e, [], s')
      | (.ready bs, s') =>
        if bs = [] then (.eof, [], s')
        else
          let out := collectLoop read cap turns (need - bs.length) s'
          (out.1, bs ++ out.2.1, out.2.2)

/-- Reads until there are `need` bytes, at most `cap` at a time. Every turn reads one byte or
more, so `need` turns are enough. -/
def collect (read : Nat → σ → Poll Bytes × σ) (cap need : Nat) (s : σ) :
    Collected × Bytes × σ := collectLoop read cap need need s

/-- What collecting does to a stream. -/
inductive CollectStep (V : View σ) (need : Nat) (s : σ) : Collected → Bytes → σ → Prop
  | done {got : Bytes} {s' : σ} (ok : V.inv s') (full : got.length = need)
      (split : V.den s = (V.den s').prepend got) (less : V.left s' + got.length ≤ V.left s) :
      CollectStep V need s .done got s'
  | pending {got : Bytes} {s' : σ} (ok : V.inv s') (short : got.length < need)
      (split : V.den s = (V.den s').prepend got) (less : V.left s' + got.length < V.left s) :
      CollectStep V need s .pending got s'
  | eof {got : Bytes} {s' : σ} (ok : V.inv s') (short : got.length < need)
      (content : V.den s = ⟨got, none⟩) (empty : V.den s' = ⟨[], none⟩)
      (le : V.left s' + got.length ≤ V.left s) : CollectStep V need s .eof got s'
  | error {got s' e} (own : e.sending = false)
      (short : got.length < need) (content : V.den s = ⟨got, some e⟩) :
      CollectStep V need s (.failed e) got s'
  | aside {got s' e} (ok : V.inv s')
      (sending : e.sending = true) (short : got.length < need)
      (split : V.den s = (V.den s').prepend got) (le : V.left s' + got.length ≤ V.left s) :
      CollectStep V need s (.failed e) got s'

/-- Bytes in front of what was collected. -/
theorem CollectStep.cons {s₁ : σ} {bs : Bytes} {result : Collected} (hlen : bs.length ≤ need)
    (hsplit : V.den s = (V.den s₁).prepend bs) (hless : V.left s₁ + bs.length ≤ V.left s)
    (h : CollectStep V (need - bs.length) s₁ result got s') :
    CollectStep V need s result (bs ++ got) s' := by
  have hlength : (bs ++ got).length = bs.length + got.length := length_append
  cases h with
  | done ok full split less =>
    refine .done ok (by omega) ?_ (by omega)
    rw [hsplit, split, Content.prepend_prepend]
  | pending ok short split less =>
    refine .pending ok (by omega) ?_ (by omega)
    rw [hsplit, split, Content.prepend_prepend]
  | eof ok short content empty le =>
    refine .eof ok (by omega) ?_ empty (by omega)
    rw [hsplit, content]
    rfl
  | error own short content =>
    refine .error own (by omega) ?_
    rw [hsplit, content]
    rfl
  | aside ok sending short split le =>
    refine .aside ok sending (by omega) ?_ (by omega)
    rw [hsplit, split, Content.prepend_prepend]

theorem collectLoop_spec (hread : Readable V read) {cap turns : Nat} (hcap : 0 < cap)
    (hturns : need ≤ turns) (hs : V.inv s) :
    CollectStep V need s (collectLoop read cap turns need s).1
      (collectLoop read cap turns need s).2.1 (collectLoop read cap turns need s).2.2 := by
  induction turns generalizing need s with
  | zero =>
    obtain rfl : need = 0 := by omega
    exact .done hs rfl rfl le_rfl
  | succ turns ih =>
    rw [collectLoop]
    by_cases hneed : need = 0
    · rw [if_pos hneed]
      exact .done hs hneed.symm rfl le_rfl
    · rw [if_neg hneed]
      have hstep := hread hs (show 0 < min need cap by omega)
      generalize read (min need cap) s = out at hstep
      obtain ⟨r, s₁⟩ := out
      have hpos : ([] : Bytes).length < need := by simp; omega
      cases hstep with
      | pending ok same less => exact .pending ok hpos same.symm less
      | @data _ bs ok some room split less =>
        dsimp only
        rw [if_neg some]
        have hlen := length_pos_iff.mpr some
        have hfewer : need - bs.length ≤ turns := by omega
        exact (ih hfewer ok).cons (by omega) split less
      | eof ok done empty same le => exact .eof ok hpos empty (same.trans empty) le
      | error done own empty => exact .error own hpos empty
      | aside ok sending same le => exact .aside ok sending hpos same.symm le

/-- **Collecting** takes the bytes in front of the content. -/
theorem collect_spec (hread : Readable V read) {cap : Nat} (hcap : 0 < cap) (need : Nat)
    (hs : V.inv s) :
    CollectStep V need s (collect read cap need s).1 (collect read cap need s).2.1
      (collect read cap need s).2.2 :=
  collectLoop_spec hread hcap le_rfl hs

/-- How collecting changes a stream: as reads do, `R`, and if it collected something, then as a
read that found data and reads behind it, `D`. -/
theorem collectLoop_changes {R D : σ → σ → Prop} (hrefl : ∀ s, R s s)
    (htrans : ∀ {s t u}, R s t → R t u → R s u) (hdata : ∀ {s t u}, D s t → R t u → D s u)
    (hread : ∀ n s, R s (read n s).2 ∧
      ∀ bs, (read n s).1 = .ready bs → bs ≠ [] → D s (read n s).2)
    (cap turns need : Nat) (s : σ) :
    R s (collectLoop read cap turns need s).2.2 ∧
      ((collectLoop read cap turns need s).2.1 ≠ [] →
        D s (collectLoop read cap turns need s).2.2) := by
  induction turns generalizing need s with
  | zero => exact ⟨hrefl s, fun h => absurd rfl h⟩
  | succ turns ih =>
    rw [collectLoop]
    by_cases hneed : need = 0
    · rw [if_pos hneed]
      exact ⟨hrefl s, fun h => absurd rfl h⟩
    · rw [if_neg hneed]
      have hchange := hread (min need cap) s
      generalize read (min need cap) s = out at hchange
      rcases out with ⟨_ | bs | e, s₁⟩
      · exact ⟨hchange.1, fun h => absurd rfl h⟩
      · by_cases hbs : bs = []
        · dsimp only
          rw [if_pos hbs]
          exact ⟨hchange.1, fun h => absurd rfl h⟩
        · dsimp only
          rw [if_neg hbs]
          obtain ⟨hrest, -⟩ := ih (need - bs.length) s₁
          exact ⟨htrans hchange.1 hrest, fun _ => hdata (hchange.2 bs rfl hbs) hrest⟩
      · exact ⟨hchange.1, fun h => absurd rfl h⟩

/-- What reads keep, collecting keeps. -/
theorem collect_keeps {f : σ → γ} (hread : ∀ n s, f (read n s).2 = f s)
    (cap need : Nat) (s : σ) : f (collect read cap need s).2.2 = f s :=
  (collectLoop_changes (R := fun s t => f t = f s) (D := fun _ _ => True) (fun _ => rfl)
    (fun h h' => h'.trans h) (fun _ _ => trivial) (fun n s => ⟨hread n s, fun _ _ _ => trivial⟩)
    cap need need s).1

/-- What data brings about and reads keep holds once something was collected. -/
theorem collect_started {P : σ → Prop} (hkeep : ∀ n s, P s → P (read n s).2)
    (hdata : ∀ n s bs, (read n s).1 = .ready bs → bs ≠ [] → P (read n s).2) (cap need : Nat)
    (s : σ) (h : P s ∨ (collect read cap need s).2.1 ≠ []) : P (collect read cap need s).2.2 := by
  obtain ⟨hkept, hgot⟩ := collectLoop_changes (R := fun s t => P s → P t) (D := fun _ t => P t)
    (fun _ => id) (fun h h' => h' ∘ h) (fun h h' => h' h) (fun n s => ⟨hkeep n s, hdata n s⟩)
    cap need need s
  exact h.elim hkept hgot

end Collecting

/-! ## Sending -/

/-- What is sent on a transport. -/
inductive Sent where
  | bytes (bs : Bytes)
  | flush
  | shutdown
  /-- from here on the bytes go out as they are, past an encryption layer -/
  | direct
  deriving DecidableEq, Repr

/-- All bytes of a log. -/
def Sent.all (log : List Sent) : Bytes :=
  log.flatMap fun
    | .bytes bs => bs
    | _ => []

@[simp] theorem Sent.all_append (log log' : List Sent) :
    Sent.all (log ++ log') = Sent.all log ++ Sent.all log' := flatMap_append

@[simp] theorem Sent.all_map_bytes (pieces : List Bytes) :
    Sent.all (pieces.map .bytes) = pieces.flatten := by
  simp [Sent.all, flatMap_map]

/-- What a call that sends may do: `entry` is what a value adds to the log. -/
inductive SendStep {σ α : Type} (sent : σ → List Sent) (entry : α → List Sent) (s : σ) :
    Poll α → σ → Prop
  | pending {s'} (same : sent s' = sent s) : SendStep sent entry s .pending s'
  | failed {s' e} (sending : e.sending = true) (same : sent s' = sent s) :
      SendStep sent entry s (.failed e) s'
  | ready {s' a} (more : sent s' = sent s ++ entry a) :
      SendStep sent entry s (.ready a) s'

/-- A call that another stream passes on. -/
theorem SendStep.lift {σ τ α : Type} {sent : σ → List Sent} {sent' : τ → List Sent}
    {entry : α → List Sent} {s s₁ : σ} {t t₁ : τ} {r : Poll α} (h : SendStep sent entry s r s₁)
    (hs : sent' t = sent s) (hs₁ : sent' t₁ = sent s₁) : SendStep sent' entry t r t₁ := by
  cases h with
  | pending same => exact .pending (by rw [hs, hs₁, same])
  | failed sending same => exact .failed sending (by rw [hs, hs₁, same])
  | ready more => exact .ready (by rw [hs, hs₁, more])

section Draining

variable {σ γ : Type} {sent : σ → List Sent} {write : Bytes → σ → Poll Nat × σ} {s : σ}
  {buffer : Bytes} {start : Nat}

/-- A law for the writes of a stream. -/
def Writable (sent : σ → List Sent) (write : Bytes → σ → Poll Nat × σ) : Prop :=
  ∀ (bs : Bytes) (s : σ),
    SendStep sent (fun n => [.bytes (bs.take n)]) s (write bs s).1 (write bs s).2 ∧
      ∀ n, (write bs s).1 = .ready n → n ≤ bs.length

/-- The turns of `drain`. -/
def drainLoop (write : Bytes → σ → Poll Nat × σ) (buffer : Bytes) :
    (turns start : Nat) → σ → Poll Unit × Nat × σ
  | 0, start, s => (.ready (), start, s)
  | turns + 1, start, s =>
    if buffer.length ≤ start then (.ready (), start, s)
    else match write (buffer.drop start) s with
      | (.pending, s') => (.pending, start, s')
      | (.failed e, s') => (.failed e, start, s')
      | (.ready n, s') =>
        if n = 0 then (.failed .writeZero, start, s')
        else drainLoop write buffer turns (start + n) s'

/-- Writes out a buffer from `start` on; returns how far it got. Every turn writes one byte or
more, so there are turns enough. -/
def drain (write : Bytes → σ → Poll Nat × σ) (buffer : Bytes) (start : Nat) (s : σ) :
    Poll Unit × Nat × σ := drainLoop write buffer (buffer.length - start) start s

/-- What draining does: the bytes that were written are those between the two positions, and all
the rest if it is finished. -/
structure Drained (sent : σ → List Sent) (buffer : Bytes) (start : Nat) (s : σ)
    (result : Poll Unit) (stop : Nat) (s' : σ) : Prop where
  more : ∃ pieces : List Bytes, sent s' = sent s ++ pieces.map .bytes ∧
    buffer.drop start = pieces.flatten ++ buffer.drop stop
  start_le : start ≤ stop
  stop_le : stop ≤ buffer.length
  finished : result = .ready () → stop = buffer.length
  sending : ∀ e, result = .failed e → e.sending = true

/-- Nothing was written. -/
theorem Drained.stop (hstart : start ≤ buffer.length) {r : Poll Unit} {s' : σ}
    (hsame : sent s' = sent s) (hfinished : r = .ready () → start = buffer.length)
    (hsending : ∀ e, r = .failed e → e.sending = true) : Drained sent buffer start s r start s' :=
  ⟨⟨[], by simp [hsame], rfl⟩, le_rfl, hstart, hfinished, hsending⟩

theorem drainLoop_spec (hwrite : Writable sent write) {turns : Nat}
    (hturns : buffer.length - start ≤ turns) (hstart : start ≤ buffer.length) :
    Drained sent buffer start s (drainLoop write buffer turns start s).1
      (drainLoop write buffer turns start s).2.1 (drainLoop write buffer turns start s).2.2 := by
  induction turns generalizing start s with
  | zero => exact .stop hstart rfl (fun _ => by omega) nofun
  | succ turns ih =>
    rw [drainLoop]
    by_cases hend : buffer.length ≤ start
    · rw [if_pos hend]
      exact .stop hstart rfl (fun _ => by omega) nofun
    · rw [if_neg hend]
      obtain ⟨hstep, hle⟩ := hwrite (buffer.drop start) s
      generalize write (buffer.drop start) s = out at hstep hle
      obtain ⟨r, s₁⟩ := out
      cases hstep with
      | pending same => exact .stop hstart same nofun nofun
      | failed sending same =>
        refine .stop hstart same nofun fun e he => ?_
        cases he
        exact sending
      | @ready _ n more =>
        have hle := hle n rfl
        rw [length_drop] at hle
        dsimp only
        by_cases hn : n = 0
        · rw [if_pos hn]
          refine ⟨⟨[[]], by simp [more, hn], by simp⟩, le_rfl, hstart, nofun, fun e he => ?_⟩
          cases he
          rfl
        · rw [if_neg hn]
          have hfewer : buffer.length - (start + n) ≤ turns := by omega
          obtain ⟨⟨pieces, hsent, hpieces⟩, hfrom, hto, hfinished, hsending⟩ :=
            ih (s := s₁) hfewer (by omega)
          refine ⟨⟨(buffer.drop start).take n :: pieces, ?_, ?_⟩, by omega, hto, hfinished,
            hsending⟩
          · rw [hsent, more, append_assoc]
            rfl
          · rw [flatten_cons, append_assoc, ← hpieces, ← drop_drop, take_append_drop]

/-- **Draining** writes the buffer in order and loses nothing. -/
theorem drain_spec (hwrite : Writable sent write) (hstart : start ≤ buffer.length) (s : σ) :
    Drained sent buffer start s (drain write buffer start s).1 (drain write buffer start s).2.1
      (drain write buffer start s).2.2 :=
  drainLoop_spec hwrite le_rfl hstart

/-- Only sending fails. -/
theorem drain_failed (hwrite : Writable sent write) (buffer : Bytes) (start : Nat) (s : σ)
    {e : StreamError} (h : (drain write buffer start s).1 = .failed e) : e.sending = true := by
  by_cases hstart : start ≤ buffer.length
  · exact (drain_spec hwrite hstart s).sending e h
  · rw [drain, Nat.sub_eq_zero_of_le (by omega)] at h
    cases h

/-- How draining changes a stream: as writes do, `R`, and if it has to wait, then as a write that
has to wait, `W`. -/
theorem drainLoop_changes {R W : σ → σ → Prop} (hrefl : ∀ s, R s s)
    (htrans : ∀ {s t u}, R s t → R t u → R s u) (hwaits : ∀ {s t u}, R s t → W t u → W s u)
    (hwrite : ∀ bs s, R s (write bs s).2 ∧ ((write bs s).1 = .pending → W s (write bs s).2))
    (buffer : Bytes) (turns start : Nat) (s : σ) :
    R s (drainLoop write buffer turns start s).2.2 ∧
      ((drainLoop write buffer turns start s).1 = .pending →
        W s (drainLoop write buffer turns start s).2.2) := by
  induction turns generalizing start s with
  | zero => exact ⟨hrefl s, nofun⟩
  | succ turns ih =>
    rw [drainLoop]
    by_cases hend : buffer.length ≤ start
    · rw [if_pos hend]
      exact ⟨hrefl s, nofun⟩
    · rw [if_neg hend]
      have hchange := hwrite (buffer.drop start) s
      generalize write (buffer.drop start) s = out at hchange
      rcases out with ⟨_ | n | e, s₁⟩
      · exact ⟨hchange.1, fun _ => hchange.2 rfl⟩
      · by_cases hn : n = 0
        · dsimp only
          rw [if_pos hn]
          exact ⟨hchange.1, nofun⟩
        · dsimp only
          rw [if_neg hn]
          obtain ⟨hrest, hwait⟩ := ih (start + n) s₁
          exact ⟨htrans hchange.1 hrest, fun h => hwaits hchange.1 (hwait h)⟩
      · exact ⟨hchange.1, nofun⟩

/-- What writes keep, draining keeps. -/
theorem drain_keeps {f : σ → γ} (hwrite : ∀ bs s, f (write bs s).2 = f s)
    (buffer : Bytes) (start : Nat) (s : σ) : f (drain write buffer start s).2.2 = f s :=
  (drainLoop_changes (R := fun s t => f t = f s) (W := fun _ _ => True) (fun _ => rfl)
    (fun h h' => h'.trans h) (fun _ _ => trivial) (fun bs s => ⟨hwrite bs s, fun _ => trivial⟩)
    buffer (buffer.length - start) start s).1

/-- What writes use up when they wait, draining uses up when it waits. -/
theorem drain_less {f : σ → Nat}
    (hwrite : ∀ bs s, f (write bs s).2 ≤ f s ∧ ((write bs s).1 = .pending → f (write bs s).2 < f s))
    (buffer : Bytes) (start : Nat) (s : σ) :
    f (drain write buffer start s).2.2 ≤ f s ∧
      ((drain write buffer start s).1 = .pending → f (drain write buffer start s).2.2 < f s) :=
  drainLoop_changes (R := fun s t => f t ≤ f s) (W := fun s t => f t < f s) (fun _ => le_rfl)
    (fun h h' => h'.trans h) (fun h h' => h'.trans_le h) hwrite buffer (buffer.length - start) start
    s

end Draining

/-! ## A transport with a script -/

/-- How a transport answers a call that sends. -/
inductive Grant where
  | pending
  /-- takes at most this many bytes -/
  | take (n : Nat)
  | fail (code : Nat)
  deriving DecidableEq, Repr

/-- A transport. The peer sends `input` and closes. The next reads find nothing (`none`) or up to
`k + 1` bytes (`some k`), the next writes and flushes are answered as in `writes`; once a script
is used up, all goes through. -/
structure Wire where
  input : Bytes
  reads : List (Option Nat) := []
  writes : List Grant := []
  log : List Sent := []
  deriving DecidableEq, Repr

namespace Wire

/-- The bytes that were written. -/
def output (w : Wire) : Bytes := Sent.all w.log

def pollRead (n : Nat) (w : Wire) : Poll Bytes × Wire :=
  match w.reads with
  | [] => (.ready (w.input.take n), { w with input := w.input.drop n })
  | none :: reads => (.pending, { w with reads := reads })
  | some k :: reads =>
    (.ready (w.input.take (min n (k + 1))),
      { w with input := w.input.drop (min n (k + 1)), reads := reads })

/-- A call that sends: `entry` says what it adds to the log if it may take `n` bytes. -/
def send {α : Type} (all : Nat) (entry : Nat → Sent) (value : Nat → α) (w : Wire) :
    Poll α × Wire :=
  match w.writes with
  | [] => (.ready (value all), { w with log := w.log ++ [entry all] })
  | .pending :: writes => (.pending, { w with writes := writes })
  | .fail code :: writes => (.failed (.transport code), { w with writes := writes })
  | .take n :: writes =>
    (.ready (value (min n all)), { w with writes := writes, log := w.log ++ [entry (min n all)] })

def pollWrite (bs : Bytes) : Wire → Poll Nat × Wire :=
  send bs.length (fun n => .bytes (bs.take n)) id

def pollFlush : Wire → Poll Unit × Wire := send 0 (fun _ => .flush) fun _ => ()

def pollShutdown : Wire → Poll Unit × Wire := send 0 (fun _ => .shutdown) fun _ => ()

variable {α : Type}

theorem send_step (all : Nat) (entry : Nat → Sent) (value : Nat → α) (log : α → List Sent)
    (hlog : ∀ n, log (value n) = [entry n]) (w : Wire) :
    SendStep Wire.log log w (send all entry value w).1 (send all entry value w).2 := by
  unfold send
  split
  · exact .ready (by rw [hlog])
  · exact .pending rfl
  · exact .failed rfl rfl
  · exact .ready (by rw [hlog])

theorem writable : Writable Wire.log pollWrite := by
  intro bs w
  refine ⟨send_step bs.length (fun n => .bytes (bs.take n)) id _ (fun _ => rfl) w, fun n hn => ?_⟩
  unfold pollWrite send at hn
  split at hn
  · cases hn
    exact le_rfl
  · cases hn
  · cases hn
  · cases hn
    exact Nat.min_le_right _ _

theorem flush_step (w : Wire) :
    SendStep Wire.log (fun _ => [.flush]) w (pollFlush w).1 (pollFlush w).2 :=
  send_step 0 (fun _ => .flush) (fun _ => ()) _ (fun _ => rfl) w

theorem shutdown_step (w : Wire) :
    SendStep Wire.log (fun _ => [.shutdown]) w (pollShutdown w).1 (pollShutdown w).2 :=
  send_step 0 (fun _ => .shutdown) (fun _ => ()) _ (fun _ => rfl) w

/-- Sending does not touch what is received. -/
theorem send_reading (all : Nat) (entry : Nat → Sent) (value : Nat → α) (w : Wire) :
    (send all entry value w).2.input = w.input ∧ (send all entry value w).2.reads = w.reads := by
  unfold send
  split <;> exact ⟨rfl, rfl⟩

/-- A call that has to wait uses up an answer of the script. -/
theorem send_writes (all : Nat) (entry : Nat → Sent) (value : Nat → α) (w : Wire) :
    (send all entry value w).2.writes.length ≤ w.writes.length ∧
      ((send all entry value w).1 = .pending →
        (send all entry value w).2.writes.length < w.writes.length) := by
  unfold send
  split
  · exact ⟨le_rfl, nofun⟩
  · next h => simp [h]
  · next h => simp [h]
  · next h => simp [h]

/-- Receiving does not touch what is sent. -/
theorem pollRead_log (n : Nat) (w : Wire) : (pollRead n w).2.log = w.log := by
  unfold pollRead
  split <;> rfl

theorem pollRead_writes (n : Nat) (w : Wire) : (pollRead n w).2.writes = w.writes := by
  unfold pollRead
  split <;> rfl

/-- A read takes its bytes off the front. -/
theorem pollRead_input (n : Nat) (w : Wire) :
    w.input = (pollRead n w).1.bytes ++ (pollRead n w).2.input := by
  unfold pollRead
  split
  · exact (take_append_drop _ _).symm
  · rfl
  · exact (take_append_drop _ _).symm

/-- What there is to read: bytes, and answers of the script. -/
def view : View Wire where
  inv _ := True
  den w := ⟨w.input, none⟩
  left w := w.input.length + w.reads.length
  fin _ := True

/-- What a read of the script does: it waits, or it takes bytes if there are any. -/
theorem pollRead_cases {n : Nat} (hn : 0 < n) (w : Wire) :
    ((pollRead n w).1 = .pending ∧ (pollRead n w).2.input = w.input ∧
      (pollRead n w).2.reads.length < w.reads.length) ∨
    ∃ bs, (pollRead n w).1 = .ready bs ∧ bs.length ≤ n ∧ w.input = bs ++ (pollRead n w).2.input ∧
      (bs = [] → w.input = []) ∧ (pollRead n w).2.reads.length ≤ w.reads.length := by
  have hnil : ∀ k, 0 < k → w.input.take k = [] → w.input = [] := by
    intro k hk h
    rcases take_eq_nil_iff.mp h with h | h
    · omega
    · exact h
  unfold pollRead
  split
  · exact .inr ⟨_, rfl, length_take_le _ _, (take_append_drop _ _).symm, hnil n hn,
      le_rfl⟩
  · next h => exact .inl ⟨rfl, rfl, by simp [h]⟩
  · next k reads h =>
    refine .inr ⟨_, rfl, ?_, (take_append_drop _ _).symm, hnil _ (by omega), by simp [h]⟩
    exact (length_take_le _ _).trans (Nat.min_le_left _ _)

theorem readable : Readable view pollRead := by
  intro w n _ hn
  have hcases := pollRead_cases hn w
  generalize pollRead n w = call at hcases
  obtain ⟨r, w'⟩ := call
  rcases hcases with ⟨rfl, hinput, hreads⟩ | ⟨bs, rfl, hroom, hinput, hnil, hreads⟩
  · dsimp only at hinput hreads
    refine .pending trivial (by simp [view, hinput]) ?_
    simp only [view, hinput]
    omega
  · dsimp only at hinput hreads
    by_cases hempty : bs = []
    · subst hempty
      have hnone : w.input = [] := hnil rfl
      rw [nil_append] at hinput
      refine .eof trivial trivial (by simp [view, hnone]) (by simp [view, hinput]) ?_
      simp only [view, hinput]
      omega
    · refine .data trivial hempty hroom (by simp [view, Content.prepend, hinput]) ?_
      simp only [view, hinput, length_append]
      omega

end Wire

end Clyntis.Lib
