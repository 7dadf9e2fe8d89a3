import Clyntis.Protocol.Xudp

/-!
# The shared stream holds whole frames

Frames of many calls go to one stream, and each of the calls can be dropped or fail in
the middle of its frame. The stream's lock, the flag `alive`, looked at again under the
lock, and the order in which a torn attempt clears the flag and releases the lock
together keep the frames whole.

- `Mux.line`, `Step.moves`: every step of the multiplexer is a step on a framed output,
  so the stream is whole frames and one rest (`Framed.Whole`), and once settled it stays
  as it is (`Framed.Settled`);
- `Step.fails`, `Past`: a `fail_multiplexer` that is past its swap has cleared `alive`;
- `Pc.Over`: a call whose frame is committed writes no second one.

`stream_whole` is the result for every reachable state and every run from it.
-/

namespace Clyntis.Protocol.Xudp

open Lib.Framed List Function

variable {s s' : Mux}

/-! ## The flag -/

/-- A `fail_multiplexer` that has done its swap. -/
def FailPoint.Past : FailPoint → Prop
  | take _ | notify _ _ | returned _ => True
  | idle | cancel _ | swap _ => False

/-- What a step does to a `fail_multiplexer`: nothing, its start, or one step of it. -/
theorem Step.fails (hs : Step s s') (t : Tid) :
    s'.fails t = s.fails t ∨ (∃ message, s'.fails t = .cancel message) ∨ FailStep t s s' := by
  -- A started `fail_multiplexer` is the one of `u`; all others stay.
  have started : ∀ (u : Tid) (message : String),
      update s.fails u (.cancel message) t = s.fails t ∨
        ∃ m, update s.fails u (.cancel message) t = .cancel m := by
    intro u message
    by_cases h : t = u
    · exact .inr ⟨message, by rw [h, update_self]⟩
    · exact .inl (update_of_ne h _ _)
  cases hs with
  | session h | send h | ending h | recv h | dropping h => cases h <;> exact .inl rfl
  | @writing n h =>
    cases h with
    | tear hg hn ha => exact (started (.call n) _).imp_right .inl
    | _ => exact .inl rfl
  | owner h =>
    cases h with
    | drop => exact (started .owner _).imp_right .inl
  | reader h =>
    cases h with
    | broken message hr => exact (started .reader message).imp_right .inl
    | _ => exact .inl rfl
  | @fail u h =>
    by_cases hu : t = u
    · exact .inr (.inr (hu ▸ h))
    · left
      cases h <;> exact update_of_ne hu _ _

/-- Nothing sets `alive` again. -/
theorem Step.alive (hs : Step s s') : s'.alive = s.alive ∨ s'.alive = false := by
  cases hs with
  | session h | send h | writing h | ending h | recv h | dropping h | reader h | owner h =>
    cases h <;> exact .inl rfl
  | fail h =>
    cases h with
    | won => exact .inr rfl
    | _ => exact .inl rfl

theorem Step.alive_of_closed (hs : Step s s') (h : s.alive = false) : s'.alive = false :=
  hs.alive.elim (fun he => he.trans h) id

/-- **The swap clears the flag**: where some `fail_multiplexer` is past its swap, `alive`
is false. -/
theorem Reachable.closed_of_past (h : Reachable s) :
    ∀ t, (s.fails t).Past → s.alive = false := by
  induction h using Reachable.induction with
  | new => exact fun _ hp => hp.elim
  | step s s' hr hs ih =>
    intro t hp
    rcases hs.fails t with hsame | ⟨message, hstart⟩ | hstep
    · rw [hsame] at hp
      exact hs.alive_of_closed (ih t hp)
    · rw [hstart] at hp
      exact hp.elim
    · refine hs.alive.elim (fun hsame => ?_) id
      rw [hsame]
      cases hstep with
      | cancel hf =>
        rw [Mux.failAt_fails, update_self] at hp
        exact hp.elim
      | lost hf ha => exact ha
      | won hf ha => exact hsame.symm
      | take hf | notify hf | finish hf => exact ih t (by rw [hf]; trivial)

/-- A started `fail_multiplexer` never looks unstarted again. -/
theorem Step.fails_ne_idle (hs : Step s s') {t : Tid} (h : s.fails t ≠ .idle) :
    s'.fails t ≠ .idle := by
  rcases hs.fails t with hsame | ⟨message, hstart⟩ | hstep
  · rwa [hsame]
  · simp [hstart]
  · cases hstep <;> simp

/-! ## The stream as a framed output -/

/-- The stream with its flag. -/
def Mux.line (s : Mux) : Line Turn UInt8 := ⟨s.alive, s.writer⟩

/-- **Refinement**: a step of the multiplexer is a move of the framed output, or does not
touch it. -/
theorem Step.moves (hs : Step s s') (hp : ∀ t, (s.fails t).Past → s.alive = false) :
    s'.line = s.line ∨ Moves Turn.Made s.line s'.line := by
  cases hs with
  | session h | recv h | dropping h | reader h | owner h => cases h <;> exact .inl rfl
  | send h =>
    cases h with
    | enter hpc hg => exact .inr (.step (.acquire hg rfl))
    | closed hpc hm hg hn ho ha => exact .inr (.step (.refuse hg ho ha))
    | commit hpc hm hg hn ho => exact .inr (.step (.commit hg ho))
    | release hpc hm hg hn ho hf =>
      exact .inr (.step (.release hg ho (hp _ (by rw [hf]; trivial))))
    | _ => exact .inl rfl
  | writing h =>
    cases h with
    | arm hg hn ho ha => exact .inr (.step (.arm hg ho ha))
    | write hg hn ho hk hle => exact .inr (.step (.write hg ho hle))
    | flush hg hn ho => exact .inr (.step (.flush hg ho))
    | tear hg hn ha => exact .inr (.step (.tear hg ha))
  | ending h =>
    cases h with
    | enter hpc hg => exact .inr (.step (.acquire hg rfl))
    | closed hpc hg hn ho ha => exact .inr (.step (.refuse hg ho ha))
    | commit hpc hg hn ho => exact .inr (.step (.commit hg ho))
    | release hpc hg hn ho hf =>
      exact .inr (.step (.release hg ho (hp _ (by rw [hf]; trivial))))
    | _ => exact .inl rfl
  | fail h =>
    cases h with
    | won hf ha => exact .inr .poison
    | _ => exact .inl rfl

theorem Mux.whole_new : Whole Turn.Made Mux.new.line where
  committed := fun _ he => absurd he not_mem_nil
  held := fun _ hg => nomatch hg
  shape := ⟨[], rfl, .inl rfl, fun h => absurd rfl h⟩

theorem Reachable.whole (h : Reachable s) : Whole Turn.Made s.line := by
  induction h using Reachable.induction with
  | new => exact Mux.whole_new
  | step s s' hr hs ih =>
    rcases hs.moves hr.closed_of_past with hsame | hmove
    · rwa [hsame]
    · exact ih.moves hmove

/-- A settled stream stays as it is, whatever runs. -/
theorem Reachable.settled_runs (h : Reachable s) (hr : Runs s s') (hset : Settled s.line) :
    Settled s'.line ∧ s'.writer.out = s.writer.out := by
  induction hr with
  | refl => exact ⟨hset, rfl⟩
  | tail hrun hs ih =>
    rcases hs.moves (h.runs hrun).closed_of_past with hsame | hmove
    · rw [hsame]
      exact ⟨ih.1, (congrArg (fun l => l.output.out) hsame).trans ih.2⟩
    · obtain ⟨hset', hout⟩ := ih.1.moves hmove
      exact ⟨hset', hout.trans ih.2⟩

/-! ## One frame a call -/

/-- A step commits nothing, or the frame of the guard, whose call is then done. -/
theorem Step.whole (hs : Step s s') :
    s'.writer.whole = s.writer.whole ∨
      ∃ g : Guard Turn UInt8, s'.writer.whole = s.writer.whole ++ [(g.owner, g.frame)] ∧
        ¬ (s.pcs g.owner.call).Over ∧ (s'.pcs g.owner.call).Over := by
  cases hs with
  | session h | writing h | recv h | dropping h | reader h | fail h | owner h =>
    cases h <;> exact .inl rfl
  | send h =>
    cases h with
    | @commit c m target payload g hpc hm hg hn ho =>
      refine .inr ⟨g, rfl, ?_, ?_⟩
      · rw [hn, hpc]
        exact id
      · rw [hn, Mux.goto_pcs, update_self]
        trivial
    | _ => exact .inl rfl
  | ending h =>
    cases h with
    | @commit id g hpc hg hn ho =>
      refine .inr ⟨g, rfl, ?_, ?_⟩
      · rw [hn, hpc]
        exact fun h => h
      · rw [hn, Mux.goto_pcs, update_self]
        trivial
    | _ => exact .inl rfl

/-- **One frame a call**: the committed frames belong to different calls, all done. -/
theorem Reachable.calls_nodup (h : Reachable s) :
    (s.writer.whole.map (·.1.call)).Nodup ∧ ∀ e ∈ s.writer.whole, (s.pcs e.1.call).Over := by
  induction h using Reachable.induction with
  | new => exact ⟨nodup_nil, by simp [Mux.new]⟩
  | step s s' hr hs ih =>
    obtain ⟨hnodup, hover⟩ := ih
    rcases hs.whole with hsame | ⟨g, hnew, hnot, hdone⟩
    · rw [hsame]
      exact ⟨hnodup, fun e he => hs.stays_over (hover e he)⟩
    · rw [hnew]
      constructor
      · rw [map_append]
        refine List.Nodup.append hnodup (nodup_singleton _) ?_
        -- The guard's call was not done, so it is none of the earlier ones.
        rintro n hn hg
        obtain ⟨e, he, rfl⟩ := mem_map.mp hn
        rw [map_singleton, mem_singleton] at hg
        exact hnot (hg ▸ hover e he)
      · intro e he
        rcases mem_append.mp he with he | he
        · exact hs.stays_over (hover e he)
        · rwa [mem_singleton.mp he]

/-! ## Torn frames -/

/-- A torn attempt has started its `fail_multiplexer`. -/
theorem Reachable.torn_fails (h : Reachable s) {g : Guard Turn UInt8} {k : Nat}
    (hg : s.writer.guard = some g) (hk : g.stage = .torn k) :
    s.fails (.call g.owner.call) ≠ .idle := by
  induction h using Reachable.induction with
  | new => cases hg
  | step s s' hr hs ih =>
    have kept (hsame : s'.writer.guard = s.writer.guard) :
        s'.fails (.call g.owner.call) ≠ .idle :=
      hs.fails_ne_idle (ih (hsame ▸ hg))
    cases hs with
    | session hs | recv hs | dropping hs | reader hs | fail hs | owner hs =>
      cases hs <;> exact kept rfl
    | send hs | ending hs => cases hs <;> first | exact kept rfl | cases hg <;> cases hk
    | writing hs =>
      cases hs with
      | tear _ hn _ =>
        cases hg
        show update s.fails _ _ _ ≠ _
        rw [hn]
        simp
      | _ => cases hg; cases hk

/-- A frame was begun and not committed, and nobody is writing it any more. -/
def Mux.Partial (s : Mux) : Prop :=
  s.writer.out ≠ s.writer.bytes ∧ ∀ g, s.writer.guard = some g → g.stage.active = false

/-- After a partial frame nothing can be written: the flag is cleared, or the torn attempt
still holds the stream. -/
theorem Reachable.settled_of_interrupted (h : Reachable s) (hp : s.Partial) :
    Settled s.line ∧
      (s.alive = false ∨ ∃ g k, s.writer.guard = some g ∧ g.stage = .torn k) := by
  obtain ⟨rest, hout, hrest, -⟩ := h.whole.shape
  have hne : rest ≠ [] := by
    rintro rfl
    exact hp.1 (hout.trans (append_nil _))
  change Rest s.alive s.writer.guard rest at hrest
  cases hg : s.writer.guard with
  | none =>
    rw [hg] at hrest
    have hclosed : s.alive = false := hrest.resolve_left hne
    exact ⟨.of_free hg hclosed, .inl hclosed⟩
  | some g =>
    rw [hg] at hrest
    have hactive := hp.2 g hg
    cases hstage : g.stage with
    | owned =>
      have hclosed : s.alive = false := ((Rest.of_owned hstage).mp hrest).resolve_left hne
      exact ⟨.of_owned hg hstage hclosed, .inl hclosed⟩
    | torn k => exact ⟨.of_torn hg hstage, .inr ⟨g, k, rfl, hstage⟩⟩
    | writing | flushing => simp [hstage, Stage.active] at hactive

/-- **The stream holds whole frames.** In every reachable state the stream is the committed
frames, each the packet or END of one call and no two of the same call, and at most the
front of one more: what the call that is writing has written so far, or what a torn attempt
left. After a torn attempt nothing is ever written, and `alive` is false as soon as that
attempt's `fail_multiplexer`, which runs before the stream is released, has done its swap. -/
theorem stream_whole (h : Reachable s) :
    (∃ rest, s.writer.out = s.writer.bytes ++ rest ∧
      (∀ e ∈ s.writer.whole, e.1.job.message.bytes = .ok e.2) ∧
      (s.writer.whole.map (·.1.call)).Nodup ∧
      (rest ≠ [] → ∃ turn : Turn, rest <+: turn.job.frame) ∧
      ∀ g, s.writer.guard = some g → g.stage.active = true → rest = g.frame.take g.written) ∧
    (s.Partial →
      (s.alive = false ∨ ∃ g k message, s.writer.guard = some g ∧ g.stage = .torn k ∧
        (s.fails (.call g.owner.call) = .cancel message ∨
          s.fails (.call g.owner.call) = .swap message)) ∧
      ∀ s', Runs s s' → s'.writer.out = s.writer.out) := by
  constructor
  · obtain ⟨hc, -, rest, hout, hrest, hmade⟩ := h.whole
    refine ⟨rest, hout, ?_, h.calls_nodup.1, ?_, ?_⟩
    · intro e he
      rw [e.1.job.bytes_eq, hc e he]
    · intro hne
      obtain ⟨turn, f, rfl, hpre⟩ := hmade hne
      exact ⟨turn, hpre⟩
    · intro g hg hact
      change Rest s.alive s.writer.guard rest at hrest
      rw [hg] at hrest
      refine (Rest.of_ne_owned ?_).mp hrest
      intro ho
      simp [ho, Stage.active] at hact
  · intro hp
    obtain ⟨hset, hclosed⟩ := h.settled_of_interrupted hp
    refine ⟨?_, fun s' hr => (h.settled_runs hr hset).2⟩
    by_cases ha : s.alive = false
    · exact .inl ha
    · obtain ⟨g, k, hg, hk⟩ := hclosed.resolve_left ha
      have hstarted := h.torn_fails hg hk
      have hpast := fun hpast => ha (h.closed_of_past (.call g.owner.call) hpast)
      -- Started and not past the swap: before the token is cancelled, or before the swap.
      cases hf : s.fails (.call g.owner.call) with
      | idle => exact absurd hf hstarted
      | cancel message => exact .inr ⟨g, k, message, hg, hk, .inl hf⟩
      | swap message => exact .inr ⟨g, k, message, hg, hk, .inr hf⟩
      | take | notify | returned => exact (hpast (by rw [hf]; trivial)).elim

/-- The first packet to `1.2.3.4:53` on session 0, with the two bytes of the golden test. -/
def goldenJob : Job where
  message := .packet 0 ⟨"1.2.3.4".toList, 53⟩ [0xab, 0xcd] true none
  frame := [0, 12, 0, 0, 1, 1, 2, 0, 53, 1, 1, 2, 3, 4, 0, 2, 0xab, 0xcd]
  bytes_eq := by decide +kernel

/-- A `send` whose future is dropped after three bytes: the stream ends there. -/
theorem stream_torn : ∃ s, Reachable s ∧ s.writer.guard = none ∧ s.alive = false ∧
    ∀ s', Runs s s' → s'.writer.out = [0, 12, 0] := by
  have h0 : Reachable (Mux.new.opened 0 ⟨"1.2.3.4".toList, 53⟩ none 0) :=
    runs_open _ _ rfl rfl rfl rfl rfl
  have h1 := h0.tail (.send (.call (n := 1) (c := 0) ⟨"1.2.3.4".toList, 53⟩ [0xab, 0xcd] rfl rfl))
  have h2 := h1.tail (.send (.passed (n := 1) rfl rfl rfl))
  have h3 := h2.tail (.send (.lock (n := 1) rfl rfl rfl))
  have h4 := h3.tail (.send (.prepared (n := 1) rfl rfl (Job.make_eq goldenJob.bytes_eq)))
  have h5 := h4.tail (.send (.enter (n := 1) rfl rfl))
  have h6 := h5.tail (.writing (.arm (n := 1) rfl rfl rfl rfl))
  have h7 := h6.tail (.writing (.write (n := 1) (k := 3) rfl rfl rfl (by decide) (by decide)))
  have h8 := h7.tail (.writing (.tear (n := 1) rfl rfl rfl))
  have h9 := h8.tail (.fail (.cancel (t := .call 1) rfl))
  have h10 := h9.tail (.fail (.won (t := .call 1) rfl rfl))
  have h11 := h10.tail (.fail (.take (t := .call 1) rfl rfl (List.Perm.refl _)))
  have h12 := h11.tail (.fail (.notify (t := .call 1) rfl))
  have h13 := h12.tail (.fail (.finish (t := .call 1) rfl))
  have h14 := h13.tail (.send (.release (n := 1) rfl rfl rfl rfl rfl rfl (.inl rfl)))
  refine ⟨_, h14, rfl, rfl, ?_⟩
  exact ((stream_whole h14).2 ⟨by decide, fun g hg => nomatch hg⟩).2

end Clyntis.Protocol.Xudp
