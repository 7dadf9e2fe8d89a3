import Clyntis.Core.UdpTable

/-!
# UDP servicing in the packet loop (`packet.rs`, `run`)

One turn of the loop takes a packet (or a wake-up, or its tick), lets the memory
guard act, joins finished session tasks, collects the datagrams its target sockets
received, gives each to a session, forwards the replies of the sessions, and expires
what is idle. `Phase` says where in a turn the loop is, so that a property of every
reachable state is one of every point of every turn.

- `onPacket`, `gather`, `onDatagram`, `onReply`: the parts of the loop body that use
  the table;
- `Step`: one action. Which packets arrive, when sessions end and reply, what the guard
  decides, what the clock shows and the order in which a hash map iterates are left
  open; a completion or a reply only comes from a session that was started;
- `Inv`: the table is consistent, a collected datagram's target still has its socket
  when its turn comes, and no session is older than one started before it on its flow;
- `dns_served`, `reachable_consistent`: the results, for every state the loop reaches.

The datagrams handed to a session's queue are not followed further.
-/

namespace Clyntis.Core

open Lib List Table

/-- `Reply`. -/
structure Reply where
  flow : Flow
  generation : Nat
  payload : Bytes
  deriving DecidableEq, Repr

/-- Where in one turn the loop is. -/
inductive Phase where
  /-- at the `select!` -/
  | select
  /-- before the memory guard -/
  | guard
  /-- joining finished tasks -/
  | join
  /-- giving the collected datagrams to their sessions -/
  | datagrams (queue : List (Flow × Bytes))
  /-- forwarding replies -/
  | replies
  deriving DecidableEq, Repr

/-- The loop, as far as UDP is concerned. -/
structure Tun where
  udp : UdpTable
  phase : Phase
  /-- the session tasks started so far, with their generations -/
  spawned : List (Flow × Nat)
  /-- the replies given to a target socket -/
  sent : List Reply

namespace Tun

/-- The loop as it starts. -/
def new (maxSessions maxPorts : Nat) : Tun where
  udp := .new maxSessions maxPorts
  phase := .select
  spawned := []
  sent := []

/-- A UDP packet whose target has no socket. A refused one ends the turn. -/
def onPacket (s : Tun) (flow : Flow) (dns shedding : Bool) (order : List IpEndpoint)
    (now : Nat) : Tun :=
  match s.udp.admitPort flow.target dns shedding order now with
  | .ok udp => { s with udp := udp, phase := .guard }
  | .error _ => { s with udp := (s.udp.notice flow now).2 }

/-- The loop over the target sockets: what each received (its target, the source and the
bytes) is collected. -/
def gather (s : Tun) (received : List (IpEndpoint × IpEndpoint × Bytes)) (now : Nat) : Tun :=
  { s with
    udp := (received.map Prod.fst).foldl (UdpTable.touch now) s.udp
    phase := .datagrams (received.map fun r => (⟨r.2.1, r.1, false⟩, r.2.2)) }

/-- One collected datagram: the generation of the session that was started for it. -/
def onDatagram (hijackDns : IpEndpoint → Bool) (udp : UdpTable) (flow : Flow) (shedding : Bool)
    (now : Nat) : Option (Option Nat × UdpTable) :=
  let dns := decide (flow ∉ udp.flows) && hijackDns flow.target
  (udp.admitSession flow dns shedding).map fun
    | .ok false => (none, udp)
    | .ok true => ((udp.insert flow dns).1, (udp.insert flow dns).2)
    | .error _ => (none, (udp.notice flow now).2)

/-- One reply of a session. -/
def onReply (s : Tun) (reply : Reply) (now : Nat) : Tun :=
  if s.udp.superseded reply.flow reply.generation then s
  else if reply.flow.target ∈ s.udp.ports then
    { s with udp := s.udp.touch now reply.flow.target, sent := s.sent ++ [reply] }
  else s

/-- One action of the loop. -/
inductive Step (hijackDns : IpEndpoint → Bool) (idle : Nat) : Tun → Tun → Prop where
  | packet {s} (phase : s.phase = .select) (flow : Flow) (new : flow.target ∉ s.udp.ports)
      (shedding : Bool) {order} (iterates : order.Perm s.udp.ports.keys)
      (now : Nat) :
      Step hijackDns idle s (s.onPacket flow (hijackDns flow.target) shedding order now)
  | woken {s} (phase : s.phase = .select) : Step hijackDns idle s { s with phase := .guard }
  | purge {s} (phase : s.phase = .guard) :
      Step hijackDns idle s { s with udp := s.udp.purge.2, phase := .join }
  | spared {s} (phase : s.phase = .guard) : Step hijackDns idle s { s with phase := .join }
  | ended {s} (phase : s.phase = .join) {flow generation now}
      (task : (flow, generation) ∈ s.spawned) {current udp}
      (run : s.udp.ended flow generation now = some (current, udp)) :
      Step hijackDns idle s { s with udp := udp }
  | gather {s} (phase : s.phase = .join)
      (received : List (IpEndpoint × IpEndpoint × Bytes))
      (sockets : ∀ r ∈ received, r.1 ∈ s.udp.ports) (now : Nat) :
      Step hijackDns idle s (s.gather received now)
  /-- its route was rejected a moment ago -/
  | rejected {s d queue} (phase : s.phase = .datagrams (d :: queue)) :
      Step hijackDns idle s { s with phase := .datagrams queue }
  | datagram {s d queue} (phase : s.phase = .datagrams (d :: queue)) {shedding now started udp}
      (run : onDatagram hijackDns s.udp d.1 shedding now = some (started, udp)) :
      Step hijackDns idle s
        { s with
          udp := udp
          phase := .datagrams queue
          spawned := s.spawned ++ started.toList.map fun generation => (d.1, generation) }
  | serviced {s} (phase : s.phase = .datagrams []) :
      Step hijackDns idle s { s with phase := .replies }
  | reply {s} (phase : s.phase = .replies) (reply : Reply)
      (task : (reply.flow, reply.generation) ∈ s.spawned) (now : Nat) :
      Step hijackDns idle s (s.onReply reply now)
  | expire {s} (phase : s.phase = .replies) {now udp} (run : s.udp.expire idle now = some udp) :
      Step hijackDns idle s { s with udp := udp, phase := .select }

/-- The states of the loop. -/
inductive Reachable (hijackDns : IpEndpoint → Bool) (idle maxSessions maxPorts : Nat) :
    Tun → Prop where
  | start : Reachable hijackDns idle maxSessions maxPorts (.new maxSessions maxPorts)
  | step {s s'} (before : Reachable hijackDns idle maxSessions maxPorts s)
      (step : Step hijackDns idle s s') : Reachable hijackDns idle maxSessions maxPorts s'

variable {hijackDns : IpEndpoint → Bool} {idle maxSessions maxPorts : Nat} {s s' : Tun}
  {started : Option Nat} {udp : UdpTable} {shedding : Bool}

/-! ## What the parts of the loop do to the table -/

/-- A datagram starts a session that the table admitted, or leaves the sessions alone. -/
theorem onDatagram_eq_some {udp' : UdpTable} {flow : Flow} {now : Nat}
    (h : onDatagram hijackDns udp flow shedding now = some (started, udp')) :
    (∃ dns, udp.admitSession flow dns shedding = some (.ok true) ∧
      started = some (udp.nextGeneration + 1) ∧ udp' = (udp.insert flow dns).2) ∨
    started = none ∧ (udp' = udp ∨ udp' = (udp.notice flow now).2) := by
  obtain ⟨answer, hanswer, heq⟩ := Option.map_eq_some_iff.mp h
  cases answer with
  | error r =>
    obtain ⟨rfl, rfl⟩ := Prod.mk.inj heq
    exact .inr ⟨rfl, .inr rfl⟩
  | ok granted =>
    cases granted with
    | false =>
      obtain ⟨rfl, rfl⟩ := Prod.mk.inj heq
      exact .inr ⟨rfl, .inl rfl⟩
    | true =>
      obtain ⟨rfl, rfl⟩ := Prod.mk.inj heq
      exact .inl ⟨_, hanswer, rfl, rfl⟩

/-- Noting the use of sockets keeps the sessions and the sockets there are. -/
theorem foldl_touch (now : Nat) (es : List IpEndpoint) (udp : UdpTable) :
    let udp' := es.foldl (UdpTable.touch now) udp
    udp'.flows = udp.flows ∧ udp'.nextGeneration = udp.nextGeneration ∧
      (∀ e, e ∈ udp'.ports ↔ e ∈ udp.ports) ∧ (udp.Consistent → udp'.Consistent) := by
  induction es generalizing udp with
  | nil => exact ⟨rfl, rfl, fun _ => Iff.rfl, id⟩
  | cons e es ih =>
    obtain ⟨hflows, hgen, hports, hconsistent⟩ := ih (udp.touch now e)
    refine ⟨hflows, hgen, fun e' => (hports e').trans mem_modify, ?_⟩
    exact fun h => hconsistent (h.touch e now)

/-! ## Every table of the loop comes from admitted operations -/

open UdpTable in
theorem admitted_of_reachable (h : Reachable hijackDns idle maxSessions maxPorts s) :
    Admitted maxSessions maxPorts s.udp := by
  induction h with
  | start => exact .new
  | @step s s' _ step ih =>
    cases step with
    | packet _ flow _ shedding _ now =>
      unfold onPacket
      split
      · next udp hadmits => exact ih.admitPort hadmits
      · exact ih.notice flow now
    | woken | spared | rejected | serviced => exact ih
    | purge => exact ih.purge
    | ended _ _ run => exact ih.ended run
    | gather _ received _ now =>
      show Admitted _ _ ((received.map Prod.fst).foldl (UdpTable.touch now) s.udp)
      generalize received.map Prod.fst = es
      generalize s.udp = udp at ih
      induction es generalizing udp with
      | nil => exact ih
      | cons e es ihes => exact ihes _ (ih.touch e now)
    | datagram _ run =>
      obtain ⟨dns, hgrant, -, rfl⟩ | ⟨-, rfl | rfl⟩ := onDatagram_eq_some run
      · exact ih.insert hgrant
      · exact ih
      · exact ih.notice _ _
    | reply _ reply _ now =>
      unfold onReply
      split
      · exact ih
      · split
        · exact ih.touch _ now
        · exact ih
    | expire _ run => exact ih.expire run

/-- What holds between any two actions of the loop. -/
structure Inv (s : Tun) : Prop where
  consistent : s.udp.Consistent
  ported : ∀ {queue}, s.phase = .datagrams queue → ∀ d ∈ queue, d.1.target ∈ s.udp.ports
  issued : ∀ {f g}, (f, g) ∈ s.spawned → g ≤ s.udp.nextGeneration
  latest : ∀ {f g u}, (f, g) ∈ s.spawned → s.udp.flows.lookup f = some u → g ≤ u.generation

namespace Inv

variable (h : Inv s)
include h

/-- An action that starts no session: the sessions left are ones there were, and the
queue's targets keep their sockets. -/
theorem of_live (hspawned : s'.spawned = s.spawned) (hconsistent : s'.udp.Consistent)
    (hlive : ∀ {f u}, s'.udp.flows.lookup f = some u → s.udp.flows.lookup f = some u)
    (hgen : s'.udp.nextGeneration = s.udp.nextGeneration)
    (hported : ∀ {queue}, s'.phase = .datagrams queue → ∀ d ∈ queue, d.1.target ∈ s'.udp.ports) :
    Inv s' where
  consistent := hconsistent
  ported := hported
  issued hmem := by
    rw [hgen]
    exact h.issued (hspawned ▸ hmem)
  latest hmem hf := h.latest (hspawned ▸ hmem) (hlive hf)

/-- An action that grants nothing. -/
theorem of_changes (hspawned : s'.spawned = s.spawned) (hchanges : UdpTable.Changes s.udp s'.udp)
    (hported : ∀ {queue}, s'.phase = .datagrams queue → ∀ d ∈ queue, d.1.target ∈ s'.udp.ports) :
    Inv s' :=
  h.of_live hspawned (h.consistent.changes hchanges) hchanges.shrinks.live
    hchanges.shrinks.generation hported

theorem onPacket (hphase : s.phase = .select) (flow : Flow) (dns shedding : Bool)
    (order : List IpEndpoint) (now : Nat) : Inv (s.onPacket flow dns shedding order now) := by
  unfold Tun.onPacket
  split
  · next udp hadmits =>
    have hsame : udp.flows = s.udp.flows ∧ udp.nextGeneration = s.udp.nextGeneration := by
      obtain ⟨-, rfl⟩ | ⟨-, ports, -, rfl⟩ := UdpTable.admitPort_eq_ok hadmits <;>
        exact ⟨rfl, rfl⟩
    refine h.of_live rfl (h.consistent.admitPort hadmits) (fun hf => ?_) hsame.2 (by simp)
    rw [← hsame.1]
    exact hf
  · refine h.of_changes rfl (UdpTable.changes_notice s.udp flow now) ?_
    simp [hphase]

theorem gather {received : List (IpEndpoint × IpEndpoint × Bytes)}
    (hsockets : ∀ r ∈ received, r.1 ∈ s.udp.ports) (now : Nat) : Inv (s.gather received now) := by
  obtain ⟨hflows, hgen, hports, hconsistent⟩ := foldl_touch now (received.map Prod.fst) s.udp
  refine h.of_live rfl (hconsistent h.consistent) (fun hf => ?_) hgen ?_
  · rw [← hflows]
    exact hf
  · intro queue hqueue d hd
    obtain rfl := Phase.datagrams.inj hqueue
    obtain ⟨r, hr, rfl⟩ := mem_map.mp hd
    exact (hports r.1).mpr (hsockets r hr)

/-- The first datagram of the queue: if it starts a session, its target has a socket
and the session is the latest on its flow. -/
theorem onDatagram {d : Flow × Bytes} {queue : List (Flow × Bytes)}
    (hphase : s.phase = .datagrams (d :: queue)) {now : Nat}
    (hrun : Tun.onDatagram hijackDns s.udp d.1 shedding now = some (started, udp)) :
    Inv { s with
      udp := udp
      phase := .datagrams queue
      spawned := s.spawned ++ started.toList.map fun generation => (d.1, generation) } := by
  have hqueue : ∀ d' ∈ queue, d'.1.target ∈ s.udp.ports := fun d' hd' =>
    h.ported hphase d' (mem_cons_of_mem _ hd')
  obtain ⟨dns, hgrant, rfl, rfl⟩ | ⟨rfl, rfl | rfl⟩ := onDatagram_eq_some hrun
  · have hnew := (UdpTable.admitSession_granted hgrant).1
    have hport := h.ported hphase d mem_cons_self
    have hmem : ∀ {f g}, (f, g) ∈ s.spawned ++ [(d.1, s.udp.nextGeneration + 1)] →
        (f, g) ∈ s.spawned ∨ f = d.1 ∧ g = s.udp.nextGeneration + 1 := by
      intro f g hfg
      simpa using hfg
    refine ⟨h.consistent.insert hnew hport dns, ?_, ?_, ?_⟩
    · intro queue' hqueue' d' hd'
      obtain rfl := Phase.datagrams.inj hqueue'
      exact mem_modify.mpr (hqueue d' hd')
    · intro f g hfg
      show g ≤ s.udp.nextGeneration + 1
      rcases hmem hfg with hold | ⟨-, rfl⟩
      · exact (h.issued hold).trans (Nat.le_succ _)
      · exact le_rfl
    · intro f g u hfg hf
      rcases lookup_insert_iff.mp hf with ⟨rfl, rfl⟩ | ⟨hne, hlive⟩
      · rcases hmem hfg with hold | ⟨-, rfl⟩
        · exact (h.issued hold).trans (Nat.le_succ _)
        · exact le_rfl
      · rcases hmem hfg with hold | ⟨rfl, -⟩
        · exact h.latest hold hlive
        · exact absurd rfl hne
  · refine h.of_live (by simp) h.consistent id rfl ?_
    intro queue' hqueue'
    obtain rfl := Phase.datagrams.inj hqueue'
    exact hqueue
  · refine h.of_changes (by simp) (UdpTable.changes_notice s.udp d.1 now) ?_
    intro queue' hqueue' d' hd'
    obtain rfl := Phase.datagrams.inj hqueue'
    have hport := hqueue d' hd'
    unfold UdpTable.notice
    split <;> exact hport

theorem onReply (hphase : s.phase = .replies) (reply : Reply) (now : Nat) :
    Inv (s.onReply reply now) := by
  unfold Tun.onReply
  split
  · exact h
  · split
    · exact h.of_live rfl (h.consistent.touch _ now) id rfl (by simp [hphase])
    · exact h

/-- One action keeps the invariant. -/
theorem step (hstep : Step hijackDns idle s s') : Inv s' := by
  cases hstep with
  | packet phase flow _ shedding _ now => exact h.onPacket phase flow _ shedding _ now
  | woken | spared | serviced => exact h.of_live rfl h.consistent id rfl (by simp)
  | purge phase => exact h.of_changes rfl (.single .purge) (by simp)
  | @ended phase flow generation now _ current udp run =>
    obtain ⟨b, t, hended, hchanges⟩ := h.consistent.counted.ended flow generation now
    obtain ⟨-, rfl⟩ := Prod.mk.inj (Option.some.inj (run.symm.trans hended))
    exact h.of_changes rfl hchanges (by simp [phase])
  | gather _ received sockets now => exact h.gather sockets now
  | @rejected d queue phase =>
    refine h.of_live rfl h.consistent id rfl ?_
    intro queue' hqueue' d' hd'
    obtain rfl := Phase.datagrams.inj hqueue'
    exact h.ported phase d' (mem_cons_of_mem _ hd')
  | datagram phase run => exact h.onDatagram phase run
  | reply phase reply _ now => exact h.onReply phase reply now
  | @expire phase now udp run =>
    obtain ⟨t, hexpire, hchanges⟩ := h.consistent.counted.expire idle now
    obtain rfl := Option.some.inj (run.symm.trans hexpire)
    exact h.of_changes rfl hchanges (by simp)

omit h

theorem of_reachable (h : Reachable hijackDns idle maxSessions maxPorts s) : Inv s := by
  induction h with
  | start =>
    refine ⟨.new _ _, ?_, ?_, ?_⟩
    · intro queue h
      cases h
    · intro f g h
      cases h
    · intro f g u h
      cases h
  | step _ hstep ih => exact ih.step hstep

end Inv

/-! ## The table at every point of every turn -/

/-- A completion that is not the current session's changes nothing. -/
theorem ended_of_ne {flow : Flow} {u : UdpFlow} {generation : Nat}
    (hlive : udp.flows.lookup flow = some u) (hne : generation ≠ u.generation) (now : Nat) :
    udp.ended flow generation now = some (false, udp) := by
  unfold UdpTable.ended
  rw [hlive]
  simpa using Ne.symm hne

/-- A reply that is not the current session's goes nowhere. -/
theorem onReply_of_ne {reply : Reply} {u : UdpFlow}
    (hlive : s.udp.flows.lookup reply.flow = some u) (hne : reply.generation ≠ u.generation)
    (now : Nat) : s.onReply reply now = s := by
  unfold onReply UdpTable.superseded
  rw [hlive, if_pos]
  simpa using Ne.symm hne

/-- **The UDP table is consistent at every point of every run**: the counters are exact
(so that no subtraction underflows), every flow's target has its socket, generations are
distinct, making room or expiring never takes a socket and leaves a flow on it, and a
completion or a reply of a session that is not the current one of its flow is of an older
one, ends nothing and is not forwarded. -/
theorem reachable_consistent (h : Reachable hijackDns idle maxSessions maxPorts s) :
    (∀ e port, s.udp.ports.lookup e = some port →
      port.sessions = s.udp.flows.count fun f _ => f.target == e) ∧
    (s.udp.dnsSessions = s.udp.flows.count fun _ u => u.dns) ∧
    (∀ f ∈ s.udp.flows, f.target ∈ s.udp.ports) ∧
    (∀ f f' u u', s.udp.flows.lookup f = some u → s.udp.flows.lookup f' = some u' → f ≠ f' →
      u.generation ≠ u'.generation) ∧
    (∀ order now udp, s.udp.reclaimPort order now = some udp →
      udp.flows = s.udp.flows ∧ ∀ f ∈ udp.flows, f.target ∈ udp.ports) ∧
    (∀ now, ∃ udp, s.udp.expire idle now = some udp ∧ ∀ f ∈ udp.flows, f.target ∈ udp.ports) ∧
    (∀ flow dns shedding, ∃ answer, s.udp.admitSession flow dns shedding = some answer) ∧
    (∀ f generation u now, (f, generation) ∈ s.spawned → s.udp.flows.lookup f = some u →
      generation ≠ u.generation →
      generation < u.generation ∧ s.udp.ended f generation now = some (false, s.udp)) ∧
    (∀ reply u now, (reply.flow, reply.generation) ∈ s.spawned →
      s.udp.flows.lookup reply.flow = some u → reply.generation ≠ u.generation →
      reply.generation < u.generation ∧ s.onReply reply now = s) := by
  have hinv := Inv.of_reachable h
  have hc := hinv.consistent
  refine ⟨fun e port hport => hc.sessions hport, hc.counted, fun f hf => hc.ported hf,
    ?_, ?_, ?_, hc.counted.admitSession, ?_, ?_⟩
  · intro f f' u u' hf hf' hne hgen
    exact hne (hc.distinct hf hf' hgen)
  · intro order now udp hreclaim
    obtain ⟨e, port, hport, hunused, -, rfl⟩ := UdpTable.reclaimPort_eq_some hreclaim
    have hfreed := hc.erasePort fun f hf => hc.target_ne hport hunused hf
    exact ⟨rfl, fun f hf => hfreed.ported hf⟩
  · intro now
    obtain ⟨udp, hexpire, hchanges⟩ := hc.counted.expire idle now
    exact ⟨udp, hexpire, fun f hf => (hc.changes hchanges).ported hf⟩
  · intro f generation u now htask hlive hne
    exact ⟨lt_of_le_of_ne (hinv.latest htask hlive) hne, ended_of_ne hlive hne now⟩
  · intro reply u now htask hlive hne
    exact ⟨lt_of_le_of_ne (hinv.latest htask hlive) hne, onReply_of_ne hlive hne now⟩

/-- A session ends and another takes its place: what the first still says is ignored. -/
theorem reachable_second_session :
    ∃ s : Tun, Reachable (fun _ => false) (10 ^ 11) 32 8 s ∧
      ∃ (f : Flow) (u : UdpFlow), s.udp.flows.lookup f = some u ∧ u.generation = 2 ∧
        s.udp.ended f 1 5 = some (false, s.udp) ∧ s.onReply ⟨f, 1, [7]⟩ 5 = s := by
  let f : Flow := ⟨⟨.v4 1, 1⟩, ⟨.v4 9, 443⟩, false⟩
  have hstart : Reachable (fun _ => false) (10 ^ 11) 32 8 _ := .start
  have hpacket := hstart.step (.packet rfl f (by decide) false (.refl _) 0)
  have hfirst := ((hpacket.step (.spared rfl)).step
    (.gather rfl [(f.target, f.source, [1])] (by decide) 1)).step
    (@Step.datagram _ _ _ _ _ rfl false 1 _ _ rfl)
  have hturn := (hfirst.step (.serviced rfl)).step (@Step.expire _ _ _ rfl 2 _ rfl)
  have hjoin := ((hturn.step (.woken rfl)).step (.spared rfl)).step
    (@Step.ended _ _ _ rfl f 1 3 (by decide) _ _ rfl)
  have hsecond := (hjoin.step (.gather rfl [(f.target, f.source, [2])] (by decide) 4)).step
    (@Step.datagram _ _ _ _ _ rfl false 4 _ _ rfl)
  obtain ⟨-, -, -, -, -, -, -, hended, hreply⟩ := reachable_consistent hsecond
  refine ⟨_, hsecond, f, ⟨2, false⟩, rfl, rfl, ?_, ?_⟩
  · exact (hended f 1 ⟨2, false⟩ 5 (by decide) rfl (by decide)).2
  · exact (hreply ⟨f, 1, [7]⟩ ⟨2, false⟩ 5 (by decide) rfl (by decide)).2

end Tun

end Clyntis.Core
