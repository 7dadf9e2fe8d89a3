import Mathlib.Data.List.Basic

/-!
# Waking the host for packets (`host.rs`, `PacketWake` and `PacketsOut::fill`)

Senders queue packets and notify the host, but only once until it has found the queue empty. A flag
says that it has been notified. Every operation on the queue and on the flag is one step, and the
steps of senders and of the host come in any order.

- `State`, `Step`, `Reachable`: the protocol, with a log of what clears the flag and what notifies;
- `Armed`: what holds from the time at which the flag is cleared;
- `wakeup_not_lost`: a packet that waits after the host has given up is one it was told of.
-/

namespace Clyntis.Ffi

open Function

/-- Where a call of `HostPackets::send` is: it has queued its packet and not yet set the flag. -/
inductive Sender where
  | outside
  | queued
  deriving DecidableEq, Repr

/-- Where the host is in `PacketsOut::fill`: before the first and the second look at the queue, and
before `emptied` and `draining`. -/
inductive Host where
  | outside
  | first
  | emptied
  | second
  | draining (packet : List UInt8)
  deriving DecidableEq, Repr

/-- How `fill` returns; `closed` is "packet channel closed". -/
inductive Filled where
  | ready
  | empty
  | closed
  deriving DecidableEq, Repr

/-- What is recorded: `emptied` has cleared the flag, and a sender notifies the host. -/
inductive Event where
  | rearmed
  | notified (sender : Nat)
  deriving DecidableEq, Repr

/-- The queue and the flag (`PacketWake`), `pending`, and what the last `fill` has returned. -/
structure State where
  queue : List (List UInt8) := []
  flag : Bool := false
  pending : Option (List UInt8) := none
  closed : Bool := false
  senders : Nat → Sender := fun _ => .outside
  host : Host := .outside
  last : Option Filled := none
  log : List Event := []

variable (s : State)

namespace State

/-- The host returns from `fill`. -/
def returns (last : Filled) : State := { s with host := .outside, last := some last }

/-- `try_recv` with an empty queue: the host goes on, unless there are no senders left. -/
def onEmpty (next : State) : State := if s.closed then s.returns .closed else next

/-- The flag has been cleared, and since then the host has been notified. -/
def NotifiedSince : Prop :=
  ∃ before since i, s.log = before ++ .rearmed :: since ∧ .rearmed ∉ since ∧ .notified i ∈ since

end State

/-- One step of a sender or of the host. -/
inductive Step (s : State) : State → Prop where
  /-- `output.send` -/
  | send (i : Nat) (packet : List UInt8) (hopen : s.closed = false)
      (hout : s.senders i = .outside) :
      Step s { s with
        queue := s.queue ++ [packet], senders := update s.senders i .queued }
  /-- `queued`, and the notification if the flag was clear -/
  | swap (i : Nat) (hqueued : s.senders i = .queued) :
      Step s { s with
        flag := true, senders := update s.senders i .outside
        log := if s.flag then s.log else s.log ++ [.notified i] }
  /-- the senders are dropped -/
  | close (hout : ∀ i, s.senders i = .outside) : Step s { s with closed := true }
  /-- `pending` is read -/
  | take : Step s { s with pending := none }
  | fill (hhost : s.host = .outside) :
      Step s (if s.pending.isSome then s.returns .ready else { s with host := .first })
  | firstPacket {packet queue} (hhost : s.host = .first)
      (hqueue : s.queue = packet :: queue) :
      Step s ({ s with queue := queue, pending := some packet }.returns .ready)
  | firstEmpty (hhost : s.host = .first) (hqueue : s.queue = []) :
      Step s (s.onEmpty { s with host := .emptied })
  | emptied (hhost : s.host = .emptied) :
      Step s { s with flag := false, host := .second, log := s.log ++ [.rearmed] }
  | secondPacket {packet queue} (hhost : s.host = .second)
      (hqueue : s.queue = packet :: queue) :
      Step s { s with queue := queue, host := .draining packet }
  | secondEmpty (hhost : s.host = .second) (hqueue : s.queue = []) :
      Step s (s.onEmpty (s.returns .empty))
  | draining {packet} (hhost : s.host = .draining packet) :
      Step s ({ s with flag := true, pending := some packet }.returns .ready)

/-- What senders and the host can get to. -/
inductive Reachable : State → Prop where
  | start : Reachable {}
  | step {s s'} (h : Reachable s) (hstep : Step s s') : Reachable s'

/-- The host has cleared the flag, and has not found a packet since. -/
def State.Watches : Prop :=
  s.host = .second ∨ s.host = .outside ∧ s.last = some .empty

/-- From that time on whoever sets the flag notifies, and while it is clear a packet in the queue is
of a sender that will set it. -/
structure Armed (s : State) : Prop where
  told : s.Watches → ∃ before since, s.log = before ++ .rearmed :: since ∧ .rearmed ∉ since ∧
    (s.flag = true → ∃ i, .notified i ∈ since)
  owed : s.host = .outside → s.last = some .empty → s.flag = false → s.queue ≠ [] →
    ∃ i, s.senders i = .queued

variable {s s' : State}

/-- Elsewhere there is nothing to show. -/
theorem Armed.of_busy (h : ¬ s.Watches) : Armed s :=
  ⟨fun hwatches => absurd hwatches h, fun hhost hlast => absurd (.inr ⟨hhost, hlast⟩) h⟩

theorem armed_returns {last : Filled} (h : last ≠ .empty) : Armed (s.returns last) := by
  refine .of_busy ?_
  rintro (hhost | ⟨-, hlast⟩)
  · cases hhost
  · exact h (Option.some.inj hlast)

theorem Armed.step (h : Armed s) (hstep : Step s s') : Armed s' := by
  cases hstep with
  | send i packet hopen hout =>
    exact ⟨h.told, fun _ _ _ _ => ⟨i, update_self ..⟩⟩
  | swap i hqueued =>
    refine ⟨fun hwatches => ?_, fun _ _ hflag => by cases hflag⟩
    obtain ⟨before, since, hlog, hnone, hsome⟩ := h.told hwatches
    split
    · next hflag => exact ⟨before, since, hlog, hnone, fun _ => hsome hflag⟩
    · refine ⟨before, since ++ [.notified i], ?_, by simp [hnone], fun _ => ⟨i, by simp⟩⟩
      rw [hlog, List.append_assoc, List.cons_append]
  | close | take => exact ⟨h.told, h.owed⟩
  | fill hhost =>
    split
    · exact armed_returns (by decide)
    · exact .of_busy (by simp [State.Watches])
  | firstPacket | draining => exact armed_returns (by decide)
  | firstEmpty hhost hqueue =>
    unfold State.onEmpty
    split
    · exact armed_returns (by decide)
    · exact .of_busy (by simp [State.Watches])
  | emptied hhost =>
    exact ⟨fun _ => ⟨s.log, [], rfl, List.not_mem_nil, fun hflag => by cases hflag⟩,
      fun hhost => by cases hhost⟩
  | secondPacket hhost hqueue => exact .of_busy (by simp [State.Watches])
  | secondEmpty hhost hqueue =>
    unfold State.onEmpty
    split
    · exact armed_returns (by decide)
    · exact ⟨fun _ => h.told (.inl hhost), fun _ _ _ hsome => absurd hqueue hsome⟩

theorem Reachable.armed (h : Reachable s) : Armed s := by
  induction h with
  | start => exact .of_busy (by simp [State.Watches])
  | step _ hstep ih => exact ih.step hstep

/-- **No wake-up is lost.** If the last `fill` has found the queue empty, a packet is in it now, and
no sender is about to set the flag, then the host has been notified since that `fill` has cleared
the flag. -/
theorem wakeup_not_lost (h : Reachable s) (hhost : s.host = .outside) (hlast : s.last = some .empty)
    (hqueue : s.queue ≠ []) (hout : ∀ i, s.senders i = .outside) : s.NotifiedSince := by
  obtain ⟨before, since, hlog, hnone, hsome⟩ := h.armed.told (.inr ⟨hhost, hlast⟩)
  cases hflag : s.flag with
  | true =>
    obtain ⟨i, hi⟩ := hsome hflag
    exact ⟨before, since, i, hlog, hnone, hi⟩
  | false =>
    obtain ⟨i, hi⟩ := h.armed.owed hhost hlast hflag hqueue
    cases (hout i).symm.trans hi

/-- A packet comes after the host has found nothing. -/
theorem wakeup_not_lost_one : ∃ s : State, Reachable s ∧ s.queue = [[7]] ∧
    s.last = some .empty ∧ s.NotifiedSince := by
  have hempty := ((((Reachable.start.step (.fill rfl)).step (.firstEmpty rfl rfl)).step
    (.emptied rfl)).step (.secondEmpty rfl rfl))
  have hsent := (hempty.step (.send 3 [7] rfl rfl)).step (.swap 3 rfl)
  refine ⟨_, hsent, rfl, rfl, wakeup_not_lost hsent rfl rfl (by decide) fun i => ?_⟩
  by_cases hi : i = 3
  · subst hi
    rfl
  · exact (update_of_ne hi _ _).trans (update_of_ne hi _ _)

end Clyntis.Ffi
