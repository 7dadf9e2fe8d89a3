import Clyntis.Lib.Table
import Clyntis.Lib.Text

/-!
# Racing DNS upstreams (`dns.rs`, `Resolver::race` and `Resolver::exchange_policy`)

`race` asks all its servers at once and takes the first answer; a reply that is no
answer is kept for the case that none comes. `exchange_policy` lets the servers of a
nameserver policy race first and the plain nameservers later, or beside them.

Both are futures: they advance when they are polled. `Race.poll` takes the upstreams
that completed since the last poll, in the order in which they are taken, and
`Exchange.step` one poll of `exchange_policy` at its current await. A `Tick` says what
completed and whether the head start is over, so that a list of ticks is one order and
timing. Each upstream ends once, within its five seconds: `Upstream.outcome` is how.

- `Race.Inv`, `Race.poll_spec`: what a race knows and what its result means;
- `Exchange.Inv`, `inv_step`, `inv_run`: the same for `exchange_policy`;
- `refusal_iff`: which upstreams can be hidden behind a refusing one.

`heard`, `queried` and `marks` record what happened; the source does not keep them.
-/

namespace Clyntis.Core.Dns

open Lib List

/-- `ResponseCode`: the two codes that settle a name, and the text of any other. -/
inductive ResponseCode where
  | noError
  | nxDomain
  | other (text : Text)
  deriving DecidableEq, Repr

/-- A DNS message, as far as the race reads it. -/
structure Message where
  code : ResponseCode
  body : Bytes
  deriving DecidableEq, Repr

/-- `answered`. -/
def answered (m : Message) : Bool :=
  match m.code with
  | .noError => true
  | .nxDomain => true
  | .other _ => false

/-- How a code is printed. -/
def ResponseCode.text : ResponseCode → Text
  | noError => "No Error".toList
  | nxDomain => "Non-Existent Domain".toList
  | other text => text

/-- An error with its causes, outermost first. -/
abbrev Error : Type := List Text

/-- How a query ends: with a reply, an error, or at its limit of five seconds. -/
inductive Outcome where
  | reply (m : Message)
  | failed (e : Error)
  | timedOut
  deriving DecidableEq, Repr

/-- A server and how the query sent to it ends. -/
structure Upstream where
  name : Text
  outcome : Outcome
  deriving DecidableEq, Repr

/-- The upstream answers with NOERROR or NXDOMAIN. -/
def Upstream.Answers (u : Upstream) : Prop := ∃ m, u.outcome = .reply m ∧ answered m = true

/-- The upstream replies with another code. -/
def Upstream.Refuses (u : Upstream) : Prop := ∃ m, u.outcome = .reply m ∧ answered m = false

/-- An upstream without a reply neither answers nor refuses. -/
theorem Upstream.quiet {u : Upstream} (h : ∀ m, u.outcome ≠ .reply m) :
    ¬u.Answers ∧ ¬u.Refuses :=
  ⟨fun ⟨m, hm, _⟩ => h m hm, fun ⟨m, hm, _⟩ => h m hm⟩

/-! ## `race` -/

/-- A running `race`. -/
structure Race where
  pending : List Upstream
  error : Error := ["no DNS upstream".toList]
  rejected : Option Message := none
  /-- the upstreams that have completed -/
  heard : List Upstream := []

namespace Race

/-- The race of these servers before its first poll. -/
def start (servers : List Upstream) : Race := { pending := servers }

/-- The upstream at place `i` has completed. -/
def remove (r : Race) (i : Nat) (u : Upstream) : Race :=
  { r with pending := r.pending.eraseIdx i, heard := r.heard ++ [u] }

/-- `rejected.ok_or(error)`. -/
def outcome (r : Race) : Except Error Message :=
  match r.rejected with
  | some m => .ok m
  | none => .error r.error

/-- One poll of the loop: the upstreams at these places complete one after the other.
`none`: the race is still running. -/
def poll (r : Race) : List Nat → Option (Except Error Message) × Race
  | [] => (if r.pending.isEmpty then some r.outcome else none, r)
  | i :: rest =>
    match r.pending[i]? with
    | none => r.poll rest
    | some u =>
      match u.outcome with
      | .reply m =>
        if answered m then (some (.ok m), r.remove i u)
        else
          poll { r.remove i u with
            error := ["DNS upstream ".toList ++ u.name ++ " answered ".toList ++ m.code.text]
            rejected := r.rejected.or (some m) } rest
      | .failed e =>
        poll { r.remove i u with error := ("DNS upstream ".toList ++ u.name) :: e } rest
      | .timedOut =>
        poll { r.remove i u with
          error := ["DNS upstream ".toList ++ u.name ++ " timed out".toList] } rest

/-- `race` alone, polled again and again: its result once it is ready. -/
def run (r : Race) : List (List Nat) → Option (Except Error Message)
  | [] => none
  | batch :: rest =>
    match r.poll batch with
    | (some result, _) => some result
    | (none, r) => r.run rest

/-- What a running race of `servers` knows. -/
structure Inv (servers : List Upstream) (r : Race) : Prop where
  all : ∀ u ∈ servers, u ∈ r.heard ∨ u ∈ r.pending
  known : ∀ u, u ∈ r.heard ∨ u ∈ r.pending → u ∈ servers
  unanswered : ∀ u ∈ r.heard, ¬u.Answers
  kept : ∀ m, r.rejected = some m → answered m = false ∧ ∃ u ∈ r.heard, u.outcome = .reply m
  silent : r.rejected = none → ∀ u ∈ r.heard, ¬u.Refuses

theorem inv_start (servers : List Upstream) : Inv servers (start servers) where
  all _ hu := .inr hu
  known _ hu := hu.elim (fun h => nomatch h) id
  unanswered _ hu := nomatch hu
  kept _ h := nomatch h
  silent _ _ hu := nomatch hu

variable {servers : List Upstream} {r : Race} {i : Nat} {u : Upstream}

/-- What was pending is heard or still pending. -/
theorem all_remove (h : Inv servers r) (hi : r.pending[i]? = some u) :
    ∀ v ∈ servers, v ∈ (r.remove i u).heard ∨ v ∈ (r.remove i u).pending := by
  intro v hv
  have hheard : ∀ {w}, w ∈ r.heard ∨ w = u → w ∈ (r.remove i u).heard := by
    rintro w (hw | rfl)
    · exact mem_append_left _ hw
    · exact mem_append_right _ mem_cons_self
  rcases h.all v hv with hold | hpending
  · exact .inl (hheard (.inl hold))
  · by_cases heq : v = u
    · exact .inl (hheard (.inr heq))
    · right
      obtain ⟨j, hj⟩ := mem_iff_getElem?.mp hpending
      refine mem_eraseIdx_iff_getElem?.mpr ⟨j, ?_, hj⟩
      rintro rfl
      exact heq (Option.some.inj (hj.symm.trans hi))

theorem known_remove (h : Inv servers r) (hi : r.pending[i]? = some u) (v : Upstream)
    (hv : v ∈ (r.remove i u).heard ∨ v ∈ (r.remove i u).pending) : v ∈ servers := by
  rcases hv with hheard | hpending
  · rcases mem_append.mp hheard with hold | hnew
    · exact h.known v (.inl hold)
    · rw [mem_singleton.mp hnew]
      exact h.known u (.inr (mem_of_getElem? hi))
  · exact h.known v (.inr (mem_of_mem_eraseIdx hpending))

/-- A completion that answers nothing keeps the invariant; `rejected` keeps the first
refusing reply. -/
theorem inv_remove (h : Inv servers r) (hi : r.pending[i]? = some u) (hu : ¬u.Answers)
    {rejected : Option Message} (hkept : ∀ m, rejected = some m → r.rejected = some m ∨
      r.rejected = none ∧ answered m = false ∧ u.outcome = .reply m)
    (hsilent : rejected = none → r.rejected = none ∧ ¬u.Refuses) (error : Error) :
    Inv servers { r.remove i u with error := error, rejected := rejected } where
  all := all_remove h hi
  known := known_remove h hi
  unanswered v hv := by
    rcases mem_append.mp hv with hold | hnew
    · exact h.unanswered v hold
    · rw [mem_singleton.mp hnew]
      exact hu
  kept m hm := by
    rcases hkept m hm with hold | ⟨-, hanswered, hreply⟩
    · obtain ⟨hanswered, v, hv, hreply⟩ := h.kept m hold
      exact ⟨hanswered, v, mem_append_left _ hv, hreply⟩
    · exact ⟨hanswered, u, mem_append_right _ mem_cons_self, hreply⟩
  silent hnone v hv := by
    obtain ⟨hold, hquiet⟩ := hsilent hnone
    rcases mem_append.mp hv with hv | hv
    · exact h.silent hold v hv
    · rw [mem_singleton.mp hv]
      exact hquiet

/-- What the result of a race says about its servers and the ones heard so far. -/
def Means (servers heard : List Upstream) : Except Error Message → Prop
  | .ok m => (∃ u ∈ heard, u ∈ servers ∧ u.outcome = .reply m) ∧
      (answered m = false → ∀ u ∈ servers, ¬u.Answers)
  | .error _ => (∀ u ∈ heard, ¬u.Answers) ∧ ∀ u ∈ servers, ¬u.Answers ∧ ¬u.Refuses

/-- At the end of a race every server has been heard. -/
theorem means_outcome (h : Inv servers r) (hdone : r.pending = []) :
    Means servers r.heard r.outcome := by
  have hall : ∀ u ∈ servers, u ∈ r.heard := by
    intro u hu
    rcases h.all u hu with hheard | hpending
    · exact hheard
    · rw [hdone] at hpending
      cases hpending
  unfold outcome
  cases hrej : r.rejected with
  | some m =>
    obtain ⟨-, u, hu, hreply⟩ := h.kept m hrej
    exact ⟨⟨u, hu, h.known u (.inl hu), hreply⟩, fun _ v hv => h.unanswered v (hall v hv)⟩
  | none =>
    exact ⟨h.unanswered, fun u hu => ⟨h.unanswered u (hall u hu), h.silent hrej u (hall u hu)⟩⟩

/-- What a poll of a race comes to. -/
inductive Polled (servers : List Upstream) : Option (Except Error Message) × Race → Prop where
  | going {r : Race} (inv : Inv servers r) : Polled servers (none, r)
  | done {r result} (means : Means servers r.heard result) :
    Polled servers (some result, r)

/-- **One poll of a race**: it keeps the invariant while it runs, and its result means
what it should. The induction is on the completions taken. -/
theorem poll_spec (h : Inv servers r) (batch : List Nat) : Polled servers (r.poll batch) := by
  induction batch generalizing r with
  | nil =>
    rw [poll]
    split
    · next hempty => exact .done (means_outcome h (isEmpty_iff.mp hempty))
    · exact .going h
  | cons i rest ih =>
    rw [poll]
    cases hi : r.pending[i]? with
    | none => exact ih h
    | some u =>
      dsimp only
      cases ho : u.outcome with
      | reply m =>
        dsimp only
        cases ha : answered m with
        | true =>
          have hmem := h.known u (.inr (mem_of_getElem? hi))
          refine .done ⟨⟨u, mem_append_right _ mem_cons_self, hmem, ho⟩, fun hfalse => ?_⟩
          rw [ha] at hfalse
          cases hfalse
        | false =>
          refine ih (inv_remove h hi ?_ ?_ ?_ _)
          · rintro ⟨m', hm', hyes⟩
            rw [ho] at hm'
            rw [← Outcome.reply.inj hm', ha] at hyes
            cases hyes
          · intro m' hm'
            cases hrej : r.rejected with
            | some old =>
              rw [hrej] at hm'
              exact .inl hm'
            | none =>
              rw [hrej] at hm'
              obtain rfl := Option.some.inj hm'
              exact .inr ⟨rfl, ha, ho⟩
          · intro hnone
            cases hrej : r.rejected with
            | some | none => rw [hrej] at hnone; cases hnone
      | failed | timedOut =>
        have hquiet := Upstream.quiet fun m hm => by rw [ho] at hm; cases hm
        exact ih (inv_remove h hi hquiet.1 (fun m hm => .inl hm) (fun hn => ⟨hn, hquiet.2⟩) _)

/-- The result of `race` alone, however its upstreams complete. -/
theorem means_run (h : Inv servers r) {batches : List (List Nat)} {result : Except Error Message}
    (hrun : r.run batches = some result) : ∃ heard, Means servers heard result := by
  induction batches generalizing r with
  | nil => cases hrun
  | cons batch rest ih =>
    have hpoll := poll_spec h batch
    rw [run] at hrun
    generalize r.poll batch = out at hpoll hrun
    cases hpoll with
    | going inv => exact ih inv hrun
    | done means =>
      obtain rfl := Option.some.inj hrun
      exact ⟨_, means⟩

end Race

/-! ## `exchange_policy` -/

/-- One poll: which upstreams of the two races have completed, and whether the head
start is over. -/
structure Tick where
  policy : List Nat := []
  fallback : List Nat := []
  elapsed : Bool := false

/-- A call of `mark`, with the policy servers heard by then. -/
structure Mark where
  reachable : Bool
  heard : List Upstream

/-- Where `exchange_policy` awaits: the policy servers alone, both races, or one of them
after the other has failed. -/
inductive Stage where
  | early (policy : Race)
  | both (policy fallback : Race)
  | fallbackAfter (policyError : Error) (fallback : Race)
  | policyAfter (policy : Race) (fallbackError : Error)
  | done (result : Except Error Message)

/-- A running `exchange_policy`. -/
structure Exchange where
  stage : Stage
  reachable : Table (List Text) Bool
  /-- the upstreams asked for this request -/
  queried : List Upstream
  /-- the calls of `mark` -/
  marks : List Mark := []

/-- The configured servers: those of the policy and the plain nameservers. -/
structure Servers where
  policy : List Upstream
  nameservers : List Upstream

namespace Exchange

variable (servers : Servers)

/-- The key of the policy servers in the reachability record. -/
def key : List Text := servers.policy.map Upstream.name

/-- `head_start` is `None`: servers known to answer are waited for. -/
def waits (reachable : Table (List Text) Bool) : Bool := reachable.lookup (key servers) == some true

/-- `exchange_policy` before its first poll. -/
def start (reachable : Table (List Text) Bool) : Exchange :=
  { stage := .early (.start servers.policy), reachable, queried := servers.policy }

/-- `mark`, with the policy race as it is at that moment. -/
def mark (x : Exchange) (reachable : Bool) (policy : Race) : Exchange :=
  { x with
    reachable := x.reachable.insert (key servers) reachable
    marks := x.marks ++ [⟨reachable, policy.heard⟩] }

/-- The plain nameservers are asked too. -/
def ask (x : Exchange) : Exchange := { x with queried := x.queried ++ servers.nameservers }

/-- `error.context(outer)`: the outer error shows as one message. -/
def context (outer error : Error) : Error := outer.take 1 ++ error

/-- One poll of `exchange_policy`; `waits` says that there is no limit on the head start. -/
def step (waits : Bool) (x : Exchange) (tick : Tick) : Exchange :=
  match x.stage with
  | .early policy =>
    match policy.poll tick.policy with
    | (some (.ok m), policy) => { x.mark servers true policy with stage := .done (.ok m) }
    | (some (.error e), policy) =>
      { (x.mark servers false policy).ask servers with
        stage := .fallbackAfter e (.start servers.nameservers) }
    | (none, policy) =>
      if !waits && tick.elapsed then
        { x.ask servers with stage := .both policy (.start servers.nameservers) }
      else { x with stage := .early policy }
  | .both policy fallback =>
    -- biased: the policy servers are polled first
    match policy.poll tick.policy with
    | (some (.ok m), policy) => { x.mark servers true policy with stage := .done (.ok m) }
    | (some (.error e), policy) =>
      { x.mark servers false policy with stage := .fallbackAfter e fallback }
    | (none, policy) =>
      match fallback.poll tick.fallback with
      | (some (.ok m), _) => { x.mark servers false policy with stage := .done (.ok m) }
      | (some (.error e), _) => { x with stage := .policyAfter policy e }
      | (none, fallback) => { x with stage := .both policy fallback }
  | .fallbackAfter policyError fallback =>
    match fallback.poll tick.fallback with
    | (some (.ok m), _) => { x with stage := .done (.ok m) }
    | (some (.error e), _) => { x with stage := .done (.error (context policyError e)) }
    | (none, fallback) => { x with stage := .fallbackAfter policyError fallback }
  | .policyAfter policy fallbackError =>
    match policy.poll tick.policy with
    | (some (.ok m), policy) => { x.mark servers true policy with stage := .done (.ok m) }
    | (some (.error e), policy) =>
      { x.mark servers false policy with stage := .done (.error (context fallbackError e)) }
    | (none, policy) => { x with stage := .policyAfter policy fallbackError }
  | .done _ => x

/-- `exchange_policy` over an order and timing. -/
def run (reachable : Table (List Text) Bool) (ticks : List Tick) : Exchange :=
  ticks.foldl (step servers (waits servers reachable)) (start servers reachable)

/-- The result, once there is one. -/
def result (x : Exchange) : Option (Except Error Message) :=
  match x.stage with
  | .done r => some r
  | _ => none

end Exchange

/-! ### What holds in every run -/

/-- Unreachable: no policy server had answered. Reachable: one had replied. -/
def Mark.Honest (m : Mark) : Prop :=
  match m.reachable with
  | false => ∀ u ∈ m.heard, ¬u.Answers
  | true => ∃ u ∈ m.heard, ∃ reply, u.outcome = .reply reply

/-- All of these end without an answer, and one of them with a refusing reply. -/
def OnlyRefuse (l : List Upstream) : Prop := (∀ u ∈ l, ¬u.Answers) ∧ ∃ u ∈ l, u.Refuses

namespace Exchange

variable {servers : Servers} {waiting : Bool} {x : Exchange}

/-- What is known at each await. A refusing result can only leave an answer behind when
both races ran and the one that ended first had nothing but refusals. -/
def StageInv (servers : Servers) (waiting : Bool) (queried : List Upstream) : Stage → Prop
  | .early p => p.Inv servers.policy ∧ queried = servers.policy
  | .both p f => waiting = false ∧ p.Inv servers.policy ∧ f.Inv servers.nameservers ∧
      queried = servers.policy ++ servers.nameservers
  | .fallbackAfter _ f => (∀ u ∈ servers.policy, ¬u.Answers) ∧ f.Inv servers.nameservers ∧
      queried = servers.policy ++ servers.nameservers
  | .policyAfter p _ => (∀ u ∈ servers.nameservers, ¬u.Answers) ∧ p.Inv servers.policy ∧
      queried = servers.policy ++ servers.nameservers
  | .done (.ok m) => answered m = false → (∀ u ∈ queried, ¬u.Answers) ∨
      waiting = false ∧ queried = servers.policy ++ servers.nameservers ∧
        (OnlyRefuse servers.policy ∨ OnlyRefuse servers.nameservers)
  | .done (.error _) => True

/-- The invariant of `exchange_policy`. -/
structure Inv (servers : Servers) (waiting : Bool) (x : Exchange) : Prop where
  stage : StageInv servers waiting x.queried x.stage
  marks : ∀ m ∈ x.marks, m.Honest

theorem inv_start (reachable : Table (List Text) Bool) :
    Inv servers waiting (start servers reachable) :=
  ⟨⟨Race.inv_start _, rfl⟩, fun _ h => nomatch h⟩

variable {heard l : List Upstream} {m : Message} {policy : Race} {e : Error}
  {reachable : Table (List Text) Bool}

/-- A refusing result of a race that none of its servers answers. -/
theorem onlyRefuse_of_means (h : Race.Means l heard (.ok m))
    (hm : answered m = false) : OnlyRefuse l := by
  obtain ⟨⟨u, -, hu, hreply⟩, hnone⟩ := h
  exact ⟨hnone hm, u, hu, m, hreply, hm⟩

/-- Marking after a reply, and after a failure. -/
theorem honest_mark (servers : Servers) (h : ∀ m ∈ x.marks, m.Honest) {b : Bool}
    (hnew : Mark.Honest ⟨b, policy.heard⟩) : ∀ m ∈ (x.mark servers b policy).marks, m.Honest := by
  intro m hm
  rcases mem_append.mp hm with hold | hmem
  · exact h m hold
  · rw [mem_singleton.mp hmem]
    exact hnew

theorem honest_ok (h : Race.Means servers.policy heard (.ok m)) : Mark.Honest ⟨true, heard⟩ := by
  obtain ⟨⟨u, hu, -, hreply⟩, -⟩ := h
  exact ⟨u, hu, m, hreply⟩

theorem honest_error (h : Race.Means servers.policy heard (.error e)) :
    Mark.Honest ⟨false, heard⟩ :=
  h.1

section Stages

variable (h : Inv servers waiting x) (tick : Tick) {fallback : Race}

include h

/-- While the policy servers are alone, those asked are the policy servers. -/
theorem inv_early (hx : x.stage = .early policy) :
    Inv servers waiting (step servers waiting x tick) := by
  obtain ⟨hstage, hmarks⟩ := h
  rw [hx] at hstage
  obtain ⟨hp, hq⟩ := hstage
  have hpoll := Race.poll_spec hp tick.policy
  have hasked : x.queried ++ servers.nameservers = servers.policy ++ servers.nameservers := by
    rw [hq]
  rw [step, hx]
  dsimp only
  generalize policy.poll tick.policy = out at hpoll ⊢
  cases hpoll with
  | going hp' =>
    dsimp only
    split
    · next hboth =>
      rw [Bool.and_eq_true, Bool.not_eq_true'] at hboth
      exact ⟨⟨hboth.1, hp', Race.inv_start _, hasked⟩, hmarks⟩
    · exact ⟨⟨hp', hq⟩, hmarks⟩
  | @done _ result hmeans =>
    cases result with
    | ok m =>
      refine ⟨fun hm => .inl ?_, honest_mark servers hmarks (honest_ok hmeans)⟩
      show ∀ u ∈ x.queried, ¬u.Answers
      rw [hq]
      exact hmeans.2 hm
    | error e =>
      exact ⟨⟨fun u hu => (hmeans.2 u hu).1, Race.inv_start _, hasked⟩,
        honest_mark servers hmarks (honest_error hmeans)⟩

/-- While both race, the one that ends first may have nothing but refusals. -/
theorem inv_both (hx : x.stage = .both policy fallback) :
    Inv servers waiting (step servers waiting x tick) := by
  obtain ⟨hstage, hmarks⟩ := h
  rw [hx] at hstage
  obtain ⟨hw, hp, hf, hq⟩ := hstage
  have hpoll := Race.poll_spec hp tick.policy
  have hpoll' := Race.poll_spec hf tick.fallback
  rw [step, hx]
  dsimp only
  generalize policy.poll tick.policy = out at hpoll ⊢
  generalize fallback.poll tick.fallback = out' at hpoll' ⊢
  cases hpoll with
  | @done _ result hmeans =>
    cases result with
    | ok m =>
      exact ⟨fun hm => .inr ⟨hw, hq, .inl (onlyRefuse_of_means hmeans hm)⟩,
        honest_mark servers hmarks (honest_ok hmeans)⟩
    | error e =>
      exact ⟨⟨fun u hu => (hmeans.2 u hu).1, hf, hq⟩,
        honest_mark servers hmarks (honest_error hmeans)⟩
  | going hp' =>
    cases hpoll' with
    | going hf' => exact ⟨⟨hw, hp', hf', hq⟩, hmarks⟩
    | @done _ result hmeans =>
      cases result with
      | ok m =>
        exact ⟨fun hm => .inr ⟨hw, hq, .inr (onlyRefuse_of_means hmeans hm)⟩,
          honest_mark servers hmarks hp'.unanswered⟩
      | error e => exact ⟨⟨fun u hu => (hmeans.2 u hu).1, hp', hq⟩, hmarks⟩

omit h in
/-- None of the two lists answers. -/
theorem unanswered_of_both (hq : x.queried = servers.policy ++ servers.nameservers)
    (hpolicy : ∀ u ∈ servers.policy, ¬u.Answers)
    (hnames : ∀ u ∈ servers.nameservers, ¬u.Answers) : ∀ u ∈ x.queried, ¬u.Answers := by
  rw [hq]
  intro u hu
  exact (mem_append.mp hu).elim (hpolicy u) (hnames u)

/-- After the policy servers have failed, none of them answers. -/
theorem inv_fallbackAfter (hx : x.stage = .fallbackAfter e fallback) :
    Inv servers waiting (step servers waiting x tick) := by
  obtain ⟨hstage, hmarks⟩ := h
  rw [hx] at hstage
  obtain ⟨hnone, hf, hq⟩ := hstage
  have hpoll := Race.poll_spec hf tick.fallback
  rw [step, hx]
  dsimp only
  generalize fallback.poll tick.fallback = out at hpoll ⊢
  cases hpoll with
  | going hf' => exact ⟨⟨hnone, hf', hq⟩, hmarks⟩
  | @done _ result hmeans =>
    cases result with
    | ok m => exact ⟨fun hm => .inl (unanswered_of_both hq hnone (hmeans.2 hm)), hmarks⟩
    | error e => exact ⟨trivial, hmarks⟩

/-- After the nameservers have failed, none of them answers. -/
theorem inv_policyAfter (hx : x.stage = .policyAfter policy e) :
    Inv servers waiting (step servers waiting x tick) := by
  obtain ⟨hstage, hmarks⟩ := h
  rw [hx] at hstage
  obtain ⟨hnone, hp, hq⟩ := hstage
  have hpoll := Race.poll_spec hp tick.policy
  rw [step, hx]
  dsimp only
  generalize policy.poll tick.policy = out at hpoll ⊢
  cases hpoll with
  | going hp' => exact ⟨⟨hnone, hp', hq⟩, hmarks⟩
  | @done _ result hmeans =>
    cases result with
    | ok m =>
      exact ⟨fun hm => .inl (unanswered_of_both hq (hmeans.2 hm) hnone),
        honest_mark servers hmarks (honest_ok hmeans)⟩
    | error e => exact ⟨trivial, honest_mark servers hmarks (honest_error hmeans)⟩

/-- **One poll of `exchange_policy` keeps the invariant**, at each await. -/
theorem inv_step : Inv servers waiting (step servers waiting x tick) := by
  cases hx : x.stage with
  | early policy => exact inv_early h tick hx
  | both policy fallback => exact inv_both h tick hx
  | fallbackAfter policyError fallback => exact inv_fallbackAfter h tick hx
  | policyAfter policy fallbackError => exact inv_policyAfter h tick hx
  | done r =>
    rw [step, hx]
    exact h

end Stages

/-- The invariant over every order and timing. -/
theorem inv_run (servers : Servers) (reachable : Table (List Text) Bool) (ticks : List Tick) :
    Inv servers (waits servers reachable) (run servers reachable ticks) := by
  have hall : ∀ (ticks : List Tick) (x : Exchange), Inv servers (waits servers reachable) x →
      Inv servers (waits servers reachable)
        (ticks.foldl (step servers (waits servers reachable)) x) := by
    intro ticks
    induction ticks with
    | nil => exact fun x hx => hx
    | cons tick ticks ih => exact fun x hx => ih _ (inv_step hx tick)
  exact hall ticks _ (inv_start reachable)

/-- There is a result once the exchange is done. -/
theorem stage_of_result {r : Except Error Message} (h : x.result = some r) :
    x.stage = .done r := by
  unfold result at h
  split at h
  · next hstage =>
    obtain rfl := Option.some.inj h
    exact hstage
  · cases h

/-! ### Which answers can be hidden -/

/-- A refusing result hides no answer, if a list that only refuses never runs beside one
that has an answer. -/
theorem unanswered_of_done {queried : List Upstream}
    (h : StageInv servers waiting queried (.done (.ok m))) (hm : answered m = false)
    (hcond : waiting = true ∨
      ¬(OnlyRefuse servers.policy ∧ ∃ u ∈ servers.nameservers, u.Answers) ∧
        ¬(OnlyRefuse servers.nameservers ∧ ∃ u ∈ servers.policy, u.Answers)) :
    ∀ u ∈ queried, ¬u.Answers := by
  rcases h hm with hnone | ⟨hwaits, hqueried, hrefuse⟩
  · exact hnone
  · -- both races ran: the condition says that the other one has no answer either
    rw [hqueried]
    rcases hcond with hknown | ⟨hpolicy, hfallback⟩
    · rw [hknown] at hwaits
      cases hwaits
    · intro u hu hanswers
      rcases hrefuse with hrefuse | hrefuse
      · rcases mem_append.mp hu with hmem | hmem
        · exact hrefuse.1 u hmem hanswers
        · exact hpolicy ⟨hrefuse, u, hmem, hanswers⟩
      · rcases mem_append.mp hu with hmem | hmem
        · exact hfallback ⟨hrefuse, u, hmem, hanswers⟩
        · exact hrefuse.1 u hmem hanswers

/-- A race whose upstreams have all completed is ready. -/
theorem poll_ready {r : Race} {n : Nat} (h : r.pending.length ≤ n) :
    ∃ result r', r.poll (List.replicate n 0) = (some result, r') := by
  induction n generalizing r with
  | zero =>
    have hempty : r.pending = [] := List.length_eq_zero_iff.mp (Nat.le_zero.mp h)
    exact ⟨r.outcome, r, by rw [List.replicate_zero, Race.poll, hempty]; rfl⟩
  | succ n ih =>
    rw [List.replicate_succ, Race.poll]
    cases hfirst : r.pending[0]? with
    | none =>
      have hlen := List.getElem?_eq_none_iff.mp hfirst
      exact ih (by omega)
    | some u =>
      -- one upstream fewer is pending, whatever it says
      have hlt := (List.getElem?_eq_some_iff.mp hfirst).1
      have hless : (r.remove 0 u).pending.length ≤ n := by
        show (r.pending.eraseIdx 0).length ≤ n
        rw [List.length_eraseIdx, if_pos hlt]
        omega
      dsimp only
      cases u.outcome with
      | reply m =>
        dsimp only
        split
        · exact ⟨_, _, rfl⟩
        · exact ih hless
      | failed | timedOut => exact ih hless

/-- Polled without completions, a race goes on. -/
theorem poll_nil {r : Race} (h : r.pending ≠ []) : r.poll [] = (none, r) := by
  rw [Race.poll, if_neg (by rwa [List.isEmpty_iff])]

/-- Once they have all completed, refusing servers give a refusing reply. -/
theorem refusal_of_onlyRefuse (h : OnlyRefuse l) :
    ∃ m r', (Race.start l).poll (List.replicate l.length 0) = (some (.ok m), r') ∧
      answered m = false := by
  obtain ⟨hnone, u, hu, hrefuses⟩ := h
  obtain ⟨result, r', hpoll⟩ := @poll_ready (Race.start l) l.length le_rfl
  have hmeans : Race.Means l r'.heard result := by
    have hpolled := Race.poll_spec (Race.inv_start l) (List.replicate l.length 0)
    rw [hpoll] at hpolled
    cases hpolled with
    | done means => exact means
  cases result with
  | error e => exact absurd hrefuses (hmeans.2 u hu).2
  | ok m =>
    refine ⟨m, r', hpoll, ?_⟩
    obtain ⟨⟨v, -, hv, hreply⟩, -⟩ := hmeans
    cases hm : answered m with
    | false => rfl
    | true => exact absurd ⟨m, hreply, hm⟩ (hnone v hv)

variable (hwaits : waits servers reachable = false)
include hwaits

/-- The head start passes without a completion: both races run. -/
theorem run_both (hne : servers.policy ≠ []) (ticks : List Tick) :
    run servers reachable ({ elapsed := true } :: ticks)
      = ticks.foldl (step servers false)
        { stage := .both (.start servers.policy) (.start servers.nameservers)
          reachable
          queried := servers.policy ++ servers.nameservers } := by
  have hpoll : (Race.start servers.policy).poll [] = (none, Race.start servers.policy) :=
    poll_nil hne
  unfold run
  rw [foldl_cons, hwaits]
  congr 1
  show step servers false (start servers reachable) _ = _
  unfold step start
  dsimp only
  rw [hpoll]
  rfl

/-- Refusing policy servers that end first hide what the nameservers answer. -/
theorem run_policy_refuses (h : OnlyRefuse servers.policy) :
    ∃ ticks m, (run servers reachable ticks).result = some (.ok m) ∧ answered m = false ∧
      (run servers reachable ticks).queried = servers.policy ++ servers.nameservers := by
  obtain ⟨m, r', hpoll, hm⟩ := refusal_of_onlyRefuse h
  obtain ⟨u, hu, -⟩ := h.2
  refine ⟨[{ elapsed := true }, { policy := List.replicate servers.policy.length 0 }], m, ?_⟩
  rw [run_both hwaits (ne_nil_of_mem hu), foldl_cons]
  unfold step
  dsimp only
  rw [hpoll]
  exact ⟨rfl, hm, rfl⟩

/-- Refusing nameservers that end first hide what the policy servers answer. -/
theorem run_fallback_refuses (hne : servers.policy ≠ []) (h : OnlyRefuse servers.nameservers) :
    ∃ ticks m, (run servers reachable ticks).result = some (.ok m) ∧ answered m = false ∧
      (run servers reachable ticks).queried = servers.policy ++ servers.nameservers := by
  obtain ⟨m, r', hpoll, hm⟩ := refusal_of_onlyRefuse h
  refine ⟨[{ elapsed := true }, { fallback := List.replicate servers.nameservers.length 0 }], m, ?_⟩
  have hpolicy : (Race.start servers.policy).poll [] = (none, Race.start servers.policy) :=
    poll_nil hne
  rw [run_both hwaits hne, foldl_cons]
  unfold step
  dsimp only
  rw [hpolicy]
  rw [hpoll]
  exact ⟨rfl, hm, rfl⟩

omit hwaits

/-- **Which upstreams a refusing one can hide**: whatever the order and timing, a refusing
reply means that no upstream asked for the request answers, and the marks are honest,
exactly if the policy servers are known to answer, or neither of the two lists has only
refusals to offer while the other has an answer. `race` alone never hides one. -/
theorem refusal_iff (servers : Servers) (reachable : Table (List Text) Bool) :
    ((∀ batches m, (Race.start servers.nameservers).run batches = some (.ok m) →
        answered m = false → ∀ u ∈ servers.nameservers, ¬u.Answers) ∧
      ∀ ticks,
        (∀ m, (run servers reachable ticks).result = some (.ok m) → answered m = false →
          ∀ u ∈ (run servers reachable ticks).queried, ¬u.Answers) ∧
        ∀ mark ∈ (run servers reachable ticks).marks, mark.Honest) ↔
      reachable.lookup (key servers) = some true ∨
        ¬(OnlyRefuse servers.policy ∧ ∃ u ∈ servers.nameservers, u.Answers) ∧
          ¬(OnlyRefuse servers.nameservers ∧ ∃ u ∈ servers.policy, u.Answers) := by
  constructor
  · rintro ⟨-, hruns⟩
    by_cases hknown : reachable.lookup (key servers) = some true
    · exact .inl hknown
    · have hwaits : waits servers reachable = false := by
        rw [waits, beq_eq_false_iff_ne]
        exact hknown
      refine .inr ⟨?_, ?_⟩
      · rintro ⟨hrefuse, u, hu, hanswers⟩
        obtain ⟨ticks, m, hresult, hm, hqueried⟩ := run_policy_refuses hwaits hrefuse
        refine (hruns ticks).1 m hresult hm u ?_ hanswers
        rw [hqueried]
        exact mem_append_right _ hu
      · rintro ⟨hrefuse, u, hu, hanswers⟩
        obtain ⟨ticks, m, hresult, hm, hqueried⟩ :=
          run_fallback_refuses hwaits (ne_nil_of_mem hu) hrefuse
        refine (hruns ticks).1 m hresult hm u ?_ hanswers
        rw [hqueried]
        exact mem_append_left _ hu
  · intro hcond
    refine ⟨fun batches m hrun hm => ?_, fun ticks => ⟨fun m hresult hm => ?_, ?_⟩⟩
    · obtain ⟨heard, hmeans⟩ := Race.means_run (Race.inv_start _) hrun
      exact hmeans.2 hm
    · have hinv := (inv_run servers reachable ticks).stage
      rw [stage_of_result hresult] at hinv
      refine unanswered_of_done hinv hm (hcond.imp_left fun hknown => ?_)
      rw [waits, hknown]
      rfl
    · exact (inv_run servers reachable ticks).marks

/-- A home resolver that answers, and a nameserver that refuses. -/
def homeServers : Servers where
  policy := [⟨"192.168.1.1".toList, .reply ⟨.noError, [192, 168, 1, 10]⟩⟩]
  nameservers := [⟨"192.0.2.53".toList, .reply ⟨.other "Query Refused".toList, []⟩⟩]

/-- After the head start the nameserver's refusal comes first and is the result. -/
theorem run_homeServers :
    (run homeServers ∅ [{ elapsed := true }, { fallback := [0] }]).result
        = some (.ok ⟨.other "Query Refused".toList, []⟩) ∧
      answered ⟨.other "Query Refused".toList, []⟩ = false ∧
      ∃ u ∈ (run homeServers ∅ [{ elapsed := true }, { fallback := [0] }]).queried, u.Answers :=
  ⟨rfl, rfl, _, mem_cons_self, _, rfl, rfl⟩

end Exchange

end Clyntis.Core.Dns
