import Clyntis.Core.Resolver
import Clyntis.Lib.Sweep

/-!
# Lookups beside a reset (`dns.rs`, `cached_exchange`, `clear_cache` and `configure`)

A lookup asks the cache, then the network, then stores what it got; servers of a policy are
marked reachable or not on the way. `clear_cache` empties the cache and then forgets the
marks; `configure` ends with it. Between any two of these sections other calls may run.

- `Shared`, `Local`, `Act`: the calls. `Exchange.step` and `Race.poll` are the polls of the
  futures, and what a poll of `exchange_policy` marks is carried to the shared record in a
  step of its own;
- `InTime`: no lookup stores or marks after a later call has cleared;
- `old_answers_not_used`: then a call that begins after a reset sees nothing older.

The record of an `Exchange` is its own, and not read here.
-/

namespace Clyntis.Core.Lookups

open Lib Config Core.Dns Function

variable {φ : Type} {caller : Nat}

/-- The resolver, and what the source does not keep: who has made each mark. Time is in
nanoseconds. -/
structure Shared (φ : Type) where
  resolver : Resolver φ
  markers : List Text → Nat := fun _ => 0
  clock : Nat := 0

/-- What does not change: libraries, `config.nameserver`, and the hosts for `configure`. -/
structure Setup where
  codec : Codec
  lib : RuleLib
  hash : Text → Hash
  nameserver : List Text
  hosts : Table Text Strings

/-- How a call returns. -/
inductive Result where
  /-- from the cache; the call that filled the entry -/
  | cached (response : Response) (filler : Nat)
  | fetched (response : Response)
  | failed (e : Error)
  /-- `configure` failed -/
  | refused (e : ResourceError)
  /-- `clear_cache` or `configure` -/
  | cleared

/-- Where a call is. -/
inductive Local (φ : Type) where
  /-- `cached_exchange` -/
  | lookup (request : Request)
  | missed (request : Request) (key : Bytes)
  | plain (key : Bytes) (race : Race)
  /-- `exchange_policy` -/
  | policy (key : Bytes) (servers : Servers)
  | exchanging (key : Bytes) (servers : Servers) (headStart decider : Option Nat)
      (x : Exchange)
  | marking (key : Bytes) (servers : Servers) (headStart decider : Option Nat)
      (reachable : Bool) (x : Exchange)
  | received (key : Bytes) (m : Message)
  | storing (key bytes : Bytes) (response : Response)
  /-- `configure` -/
  | configure (network : Option NetworkOverride) (resources : Resources φ)
  | compile (network : Option NetworkOverride) (resources : Resources φ)
  /-- `clear_cache` -/
  | clearCache
  | clearMarks

/-- `POLICY_HEAD_START`. -/
def policyHeadStart : Nat := second / 2

/-- `head_start`, from the mark of the servers. -/
def headStart : Option Bool → Option Nat
  | some true => none
  | none => some policyHeadStart
  | some false => some 0

namespace Shared

variable (s : Shared φ)

/-- The servers that the policy has for a name. -/
def serversFor (setup : Setup) (host : Text) : Option (List Text) :=
  (s.resolver.policy.nameservers.find? fun entry =>
    entry.1.evaluate setup.hash host none 0 [] false == some true).map Prod.snd

/-- The mark of these servers. -/
def markOf (servers : Servers) : Option Bool :=
  s.resolver.reachable.lookup (Exchange.key servers)

/-- `mark`. -/
def mark (servers : Servers) (reachable : Bool) (caller : Nat) : Shared φ :=
  { s with
    resolver := { s.resolver with
      reachable := s.resolver.reachable.insert (Exchange.key servers) reachable }
    markers := update s.markers (Exchange.key servers) caller }

/-- The second critical section of `cached_exchange`. -/
def store (key bytes : Bytes) (response : Response) (caller : Nat) : Shared φ :=
  { s with
    resolver := { s.resolver with
      cache := s.resolver.cache.store key bytes response.ttl s.clock caller } }

end Shared

/-- One atomic step of a call. -/
inductive Act (setup : Setup) (caller : Nat) :
    Local φ → Shared φ → Local φ ⊕ Result → Shared φ → Prop where
  -- `cached_exchange`
  | unreadable {request s e} (hkey : request.key = .error e) :
      Act setup caller (.lookup request) s (.inr (.failed e)) s
  | hit {request s key entry response} (hkey : request.key = .ok key)
      (hfind : s.resolver.cache.find setup.codec key request.id s.clock
        = some (entry, response)) :
      Act setup caller (.lookup request) s (.inr (.cached response entry.filler)) s
  | miss {request s key} (hkey : request.key = .ok key)
      (hfind : s.resolver.cache.find setup.codec key request.id s.clock = none) :
      Act setup caller (.lookup request) s (.inl (.missed request key)) s
  | received {key m s} (hkept : (setup.codec.view m).kept = false) :
      Act setup caller (.received key m) s (.inr (.fetched (setup.codec.view m))) s
  | unwritable {key m s e} (hkept : (setup.codec.view m).kept = true)
      (hbytes : setup.codec.encode (setup.codec.view m) = .error e) :
      Act setup caller (.received key m) s (.inr (.failed e)) s
  | written {key m s bytes} (hkept : (setup.codec.view m).kept = true)
      (hbytes : setup.codec.encode (setup.codec.view m) = .ok bytes) :
      Act setup caller (.received key m) s (.inl (.storing key bytes (setup.codec.view m))) s
  | store {key bytes response s} :
      Act setup caller (.storing key bytes response) s (.inr (.fetched response))
        (s.store key bytes response caller)
  -- `exchange`
  | plain {request key s nameservers} (hnone : s.serversFor setup request.host = none)
      (hnames : nameservers.map Upstream.name = setup.nameserver) :
      Act setup caller (.missed request key) s (.inl (.plain key (.start nameservers))) s
  | policy {request key s servers}
      (hsome : s.serversFor setup request.host = some (servers.policy.map Upstream.name))
      (hnames : servers.nameservers.map Upstream.name = setup.nameserver) :
      Act setup caller (.missed request key) s (.inl (.policy key servers)) s
  | wait {key race race' s} (batch : List Nat) (hpoll : race.poll batch = (none, race')) :
      Act setup caller (.plain key race) s (.inl (.plain key race')) s
  | answer {key race race' s m} (batch : List Nat)
      (hpoll : race.poll batch = (some (.ok m), race')) :
      Act setup caller (.plain key race) s (.inl (.received key m)) s
  | noAnswer {key race race' s e} (batch : List Nat)
      (hpoll : race.poll batch = (some (.error e), race')) :
      Act setup caller (.plain key race) s (.inr (.failed e)) s
  -- `exchange_policy`
  | headStart {key servers s} :
      Act setup caller (.policy key servers) s
        (.inl (.exchanging key servers (headStart (s.markOf servers))
          ((s.markOf servers).map fun _ => s.markers (Exchange.key servers))
          (.start servers ∅))) s
  | poll {key servers headStart decider x s} (tick : Tick) (hrunning : x.result = none)
      (hmarks : (x.step servers headStart.isNone tick).marks = x.marks) :
      Act setup caller (.exchanging key servers headStart decider x) s
        (.inl (.exchanging key servers headStart decider (x.step servers headStart.isNone tick))) s
  | pollMark {key servers headStart decider x s mark} (tick : Tick) (hrunning : x.result = none)
      (hmarks : (x.step servers headStart.isNone tick).marks = x.marks ++ [mark]) :
      Act setup caller (.exchanging key servers headStart decider x) s
        (.inl (.marking key servers headStart decider mark.reachable
          (x.step servers headStart.isNone tick))) s
  | mark {key servers headStart decider reachable x s} :
      Act setup caller (.marking key servers headStart decider reachable x) s
        (.inl (.exchanging key servers headStart decider x)) (s.mark servers reachable caller)
  | exchanged {key servers headStart decider x s m} (hresult : x.result = some (.ok m)) :
      Act setup caller (.exchanging key servers headStart decider x) s
        (.inl (.received key m)) s
  | exchangeFailed {key servers headStart decider x s e}
      (hresult : x.result = some (.error e)) :
      Act setup caller (.exchanging key servers headStart decider x) s (.inr (.failed e)) s
  -- `configure`
  | filter {network resources s} :
      Act setup caller (.configure network resources) s (.inl (.compile network resources))
        { s with resolver := { s.resolver with adblock := resources.adblock } }
  | refused {network resources s e}
      (hpolicy : compilePolicy setup.lib resources s.resolver.config setup.hosts network
        = .error e) :
      Act setup caller (.compile network resources) s (.inr (.refused e)) s
  | publish {network resources s policy}
      (hpolicy : compilePolicy setup.lib resources s.resolver.config setup.hosts network
        = .ok policy) :
      Act setup caller (.compile network resources) s (.inl .clearCache)
        { s with resolver := { s.resolver with policy } }
  -- `clear_cache`
  | clearCache {s} :
      Act setup caller .clearCache s (.inl .clearMarks)
        { s with resolver := { s.resolver with cache := {} } }
  | clearMarks {s} :
      Act setup caller .clearMarks s (.inr .cleared)
        { s with resolver := { s.resolver with reachable := ∅ } }

/-- Where a call begins. -/
def Local.Begins : Local φ → Prop
  | .lookup _ => True
  | .configure .. => True
  | .clearCache => True
  | _ => False

/-- The resolver as a component. No lock is held from one step to the next; in between,
time goes on. -/
def component (setup : Setup) : Component Empty (Shared φ) (Local φ) Result where
  starts := Local.Begins
  act caller _ := Act setup caller
  environment s s' := ∃ elapsed, s' = { s with clock := s.clock + elapsed }
  needs _ _ _ := False
  holds _ _ := False
  starts_free _ _ := id
  acquired _ _ := .inl

/-! ## What is old -/

section

variable {setup : Setup} {s t : System (Shared φ) (Local φ) Result}

/-- A call that has emptied the cache. -/
def ClearedCache : Call (Local φ) Result → Prop
  | .running _ .clearMarks => True
  | .done _ _ .cleared => True
  | _ => False

/-- A call that has forgotten the marks too. -/
def ClearedMarks : Call (Local φ) Result → Prop
  | .done _ _ .cleared => True
  | _ => False

/-- The call that made the mark that a lookup's head start was decided by. -/
def Local.decider : Local φ → Option Nat
  | .exchanging _ _ _ decider _ => decider
  | .marking _ _ _ decider _ _ => decider
  | _ => none

/-- An answer of this call is in the cache. -/
def Filled (s : Shared φ) (maker : Nat) : Prop :=
  ∃ key entry, s.resolver.cache.entries.lookup key = some entry ∧ entry.filler = maker

/-- Servers are marked by this call. -/
def Marked (s : Shared φ) (maker : Nat) : Prop :=
  ∃ key reachable, s.resolver.reachable.lookup key = some reachable ∧ s.markers key = maker

/-- A lookup was answered from an entry of this call. -/
def ServedFrom : Call (Local φ) Result → Nat → Prop
  | .done _ _ (.cached _ filler), maker => filler = maker
  | _, _ => False

/-- The head start of a lookup was decided by a mark of this call. -/
def DecidedBy : Call (Local φ) Result → Nat → Prop
  | .running _ here, maker => here.decider = some maker
  | _, _ => False

/-- No lookup stores its answer, or marks servers, after a call that began later than it has
emptied the cache, or forgotten the marks. -/
structure InTime (s t : System (Shared φ) (Local φ) Result) : Prop where
  store : ∀ j asked key bytes response, s.calls j = .running asked (.storing key bytes response) →
    t.calls j ≠ s.calls j →
      ∀ i began, (s.calls i).began = some began → ClearedCache (s.calls i) → began ≤ asked
  mark : ∀ j asked key servers headStart decider reachable x,
    s.calls j = .running asked (.marking key servers headStart decider reachable x) →
    t.calls j ≠ s.calls j →
      ∀ i began, (s.calls i).began = some began → ClearedMarks (s.calls i) → began ≤ asked

variable {here : Local φ} {i : Nat} {shared : Shared φ}

/-- What a step can do to the cache: nothing, store an answer, or empty it. -/
theorem Act.cache_cases {out : Local φ ⊕ Result} {s s' : Shared φ}
    (h : Act setup caller here s out s') (began now : Nat) :
    (s'.resolver.cache = s.resolver.cache ∧
      (ClearedCache (.next began now out) → ClearedCache (.running began here)) ∧
      ∀ maker, ServedFrom (.next began now out) maker → Filled s maker) ∨
    (∃ key bytes response, here = .storing key bytes response ∧ out = .inr (.fetched response) ∧
      s' = s.store key bytes response caller) ∨
    (here = .clearCache ∧ out = .inl .clearMarks ∧ s'.resolver.cache = {}) := by
  cases h with
  | store => exact .inr (.inl ⟨_, _, _, rfl, rfl, rfl⟩)
  | clearCache => exact .inr (.inr ⟨rfl, rfl, rfl⟩)
  | @hit request _ key entry response hkey hfind =>
    exact .inl ⟨rfl, id, fun maker hmaker => ⟨key, entry, (Cache.of_find hfind).1, hmaker⟩⟩
  | clearMarks => exact .inl ⟨rfl, fun _ => trivial, fun _ => False.elim⟩
  | _ => exact .inl ⟨rfl, id, fun _ => False.elim⟩

/-- What a step can do to the marks: nothing, make one, or forget them. -/
theorem Act.marks_cases {out : Local φ ⊕ Result} {s s' : Shared φ}
    (h : Act setup caller here s out s') (began now : Nat) :
    (s'.resolver.reachable = s.resolver.reachable ∧ s'.markers = s.markers ∧
      ¬ ClearedMarks (.next began now out) ∧
      ∀ maker, DecidedBy (.next began now out) maker →
        DecidedBy (.running began here) maker ∨ Marked s maker) ∨
    (∃ key servers headStart decider reachable x,
      here = .marking key servers headStart decider reachable x ∧
      out = .inl (.exchanging key servers headStart decider x) ∧
      s' = s.mark servers reachable caller) ∨
    (here = .clearMarks ∧ out = .inr .cleared ∧ s'.resolver.reachable = ∅) := by
  cases h with
  | mark => exact .inr (.inl ⟨_, _, _, _, _, _, rfl, rfl, rfl⟩)
  | clearMarks => exact .inr (.inr ⟨rfl, rfl, rfl⟩)
  | @headStart key servers =>
    refine .inl ⟨rfl, rfl, id, fun maker hmaker => .inr ?_⟩
    obtain ⟨reachable, hmark, hmarker⟩ := Option.map_eq_some_iff.mp hmaker
    exact ⟨Exchange.key servers, reachable, hmark, hmarker⟩
  | poll | pollMark => exact .inl ⟨rfl, rfl, id, fun _ => .inl⟩
  | _ =>
    refine .inl ⟨rfl, rfl, id, fun maker hmaker => ?_⟩
    cases hmaker

/-- Answers in the cache. -/
def cacheSweep : Sweep (Shared φ) (Local φ) Result :=
  .ofCalls Filled ServedFrom ClearedCache (fun _ => id) id

/-- Marks of servers. -/
def marksSweep : Sweep (Shared φ) (Local φ) Result :=
  .ofCalls Marked DecidedBy ClearedMarks (fun _ => id) id

theorem kept_cache (hstep : Step (component setup) s t) (hok : InTime s t) :
    cacheSweep.Kept s t := by
  cases hstep with
  | @start i here hidle hstart =>
    refine Sweep.kept_ofCalls (.start hidle hstart) (fun _ => .inl) (fun hcleared => ?_)
      fun _ => False.elim
    cases here <;> first | exact hcleared.elim | exact hstart.elim
  | @act i began here out shared hcall hfree hact =>
    have hstep : Step (component setup) s (s.set i (.next began s.now out) shared) :=
      .act hcall hfree hact
    rcases hact.cache_cases began s.now with ⟨hcache, hclears, hserved⟩ |
      ⟨key, bytes, response, rfl, rfl, rfl⟩ | ⟨rfl, rfl, hcache⟩
    · refine Sweep.kept_ofCalls hstep (fun maker htag => .inl ?_) (fun hcleared => .inl ?_)
        fun maker htook => .inr (hserved maker htook)
      · unfold Filled at htag ⊢
        rw [← hcache]
        exact htag
      · rw [hcall]
        exact hclears hcleared
    · refine Sweep.kept_ofCalls hstep ?_ False.elim fun _ => False.elim
      rintro maker ⟨k, entry, hentry, rfl⟩
      rcases Cache.lookup_store hentry with hnew | hold
      · refine .inr ⟨congrArg CacheEntry.filler hnew, fun b hb => ?_⟩
        rw [hcall] at hb
        obtain rfl := Option.some.inj hb
        refine hok.store i began key bytes response hcall fun hsame => ?_
        rw [System.set_calls_self, hcall] at hsame
        cases hsame
      · exact .inl ⟨k, entry, hold, rfl⟩
    · have hempty : ∀ maker, ¬ Filled shared maker := by
        rintro maker ⟨key, entry, hentry, -⟩
        rw [hcache] at hentry
        cases hentry
      exact Sweep.kept_ofCalls hstep (fun maker htag => absurd htag (hempty maker))
        (fun _ => .inr hempty) fun _ => False.elim
  | environment henv =>
    obtain ⟨elapsed, rfl⟩ := henv
    exact Sweep.kept_ofCalls_environment fun _ => id

theorem kept_marks (hstep : Step (component setup) s t) (hok : InTime s t) :
    marksSweep.Kept s t := by
  cases hstep with
  | @start i here hidle hstart =>
    refine Sweep.kept_ofCalls (.start hidle hstart) (fun _ => .inl) False.elim
      fun maker hdecided => ?_
    cases here <;> first | exact hstart.elim | cases hdecided
  | @act i began here out shared hcall hfree hact =>
    have hstep : Step (component setup) s (s.set i (.next began s.now out) shared) :=
      .act hcall hfree hact
    rcases hact.marks_cases began s.now with ⟨hreachable, hmarkers, hnot, hdecided⟩ |
      ⟨key, servers, headStart, decider, reachable, x, rfl, rfl, rfl⟩ | ⟨rfl, rfl, hreachable⟩
    · refine Sweep.kept_ofCalls hstep (fun maker htag => .inl ?_)
        (fun hcleared => absurd hcleared hnot) fun maker htook => ?_
      · unfold Marked at htag ⊢
        rw [← hreachable, ← hmarkers]
        exact htag
      · rw [hcall]
        exact hdecided maker htook
    · refine Sweep.kept_ofCalls hstep ?_ False.elim fun maker htook => .inl ?_
      · rintro maker ⟨k, mark, hmark, hmarker⟩
        rcases Table.lookup_insert_iff.mp hmark with ⟨rfl, -⟩ | ⟨hne, hold⟩
        · refine .inr ⟨?_, fun b hb => ?_⟩
          · rw [← hmarker]
            exact update_self ..
          · rw [hcall] at hb
            obtain rfl := Option.some.inj hb
            refine hok.mark i began key servers headStart decider reachable x hcall
              fun hsame => ?_
            rw [System.set_calls_self, hcall] at hsame
            cases hsame
        · refine .inl ⟨k, mark, hold, ?_⟩
          rw [← hmarker]
          exact (update_of_ne hne ..).symm
      · rw [hcall]
        exact htook
    · have hempty : ∀ maker, ¬ Marked shared maker := by
        rintro maker ⟨key, mark, hmark, -⟩
        rw [hreachable] at hmark
        cases hmark
      exact Sweep.kept_ofCalls hstep (fun maker htag => absurd htag (hempty maker))
        (fun _ => .inr hempty) fun _ => False.elim
  | environment henv =>
    obtain ⟨elapsed, rfl⟩ := henv
    exact Sweep.kept_ofCalls_environment fun _ => id

/-- If no lookup stores or marks too late, a call that begins after a call of `clear_cache`,
or one of `configure` that succeeded, has returned is not answered from an entry of a lookup
that began before that call did, and its head start is not decided by a mark of one. -/
theorem old_answers_not_used (setup : Setup) {s t : System (Shared φ) (Local φ) Result}
    (hreach : Reaches (component setup) InTime s t) (hs : ∀ i, s.calls i = .idle)
    {c j q began ended asked start : Nat} (hc : t.calls c = .done began ended .cleared)
    (hj : (t.calls j).began = some asked) (hq : (t.calls q).began = some start)
    (hbefore : asked < began) (hafter : ended < start) :
    (∀ b e response, t.calls q ≠ .done b e (.cached response j)) ∧
      ∀ here, t.At q here → here.decider ≠ some j := by
  have hcache := Sweep.not_old hreach hs (fun u v _ hstep hok => kept_cache hstep hok) hc
    (show cacheSweep.swept (.done began ended .cleared) from trivial) hq hafter hbefore
  have hmarks := Sweep.not_old hreach hs (fun u v _ hstep hok => kept_marks hstep hok) hc
    (show marksSweep.swept (.done began ended .cleared) from trivial) hq hafter hbefore
  constructor
  · intro b e response hserved
    refine hcache ⟨j, ?_, hj⟩
    rw [hserved]
    exact rfl
  · rintro here ⟨b, hrunning⟩ hdecider
    refine hmarks ⟨j, ?_, hj⟩
    rw [hrunning]
    exact hdecider

/-- An answer that may be kept for a minute. -/
def sampleResponse : Response :=
  { code := .noError, body := [], id := 0, answers := [{ ttl := 60 }] }

/-- One name, one server, which answers. -/
def sampleSetup : Setup where
  codec := ⟨fun m => { sampleResponse with toMessage := m }, fun _ => .ok [],
    fun _ => some sampleResponse⟩
  lib := DataLib.bare.toRuleLib
  hash := DataLib.bare.hash
  nameserver := ["ns".toList]
  hosts := ∅

def sampleRequest : Request := ⟨1, .ok [1], "a.test".toList⟩

/-- The resolver before any call. -/
def sampleStart : System (Shared Unit) (Local Unit) Result where
  now := 0
  shared := { resolver := { config := {} } }
  calls _ := .idle

/-- A call that stores an answer or makes a mark next. -/
def Local.writes : Local φ → Bool
  | .storing .. => true
  | .marking .. => true
  | _ => false

variable {call : Call (Local φ) Result}

/-- One step is in time, if calls that have cleared began before the one that writes. -/
theorem inTime_set (h : ∀ asked here, t.calls i = .running asked here → here.writes = true →
      ∀ k began, (t.calls k).began = some began → ClearedCache (t.calls k) → began ≤ asked) :
    InTime t (t.set i call shared) := by
  have hself : ∀ {j}, (t.set i call shared).calls j ≠ t.calls j → j = i := by
    intro j hj
    by_contra hne
    exact hj (System.set_calls_of_ne t hne _ _)
  constructor
  · intro j asked key bytes response hj hmoved
    exact h asked _ (hself hmoved ▸ hj) rfl
  · intro j asked key servers headStart decider reachable x hj hmoved k began hk hcleared
    refine h asked _ (hself hmoved ▸ hj) rfl k began hk ?_
    cases hcall : t.calls k with
    | done b e result =>
      rw [hcall] at hcleared
      cases result <;> exact hcleared
    | _ =>
      rw [hcall] at hcleared
      exact hcleared.elim

theorem inTime_begin (hidle : t.calls i = .idle) : InTime t (t.set i call shared) :=
  inTime_set (System.forall_running_of_idle hidle)

theorem inTime_go {asked : Nat} (hcall : t.calls i = .running asked here)
    (hquiet : here.writes = false) :
    InTime t (t.set i call shared) := by
  refine inTime_set (System.forall_running hcall fun hwrites => ?_)
  rw [hquiet] at hwrites
  cases hwrites

theorem sampleStart_quiescent : sampleStart.Quiescent := fun _ _ => System.not_at_of_idle rfl

theorem sampleSetup_names : [(⟨"ns".toList, .reply ⟨.noError, []⟩⟩ : Upstream)].map Upstream.name
    = sampleSetup.nameserver := rfl

/-- Of two lookups with a call of `clear_cache` between them, the second one asks again. -/
theorem second_lookup_fetches :
    ∃ (t : System (Shared Unit) (Local Unit) Result) (began ended asked start e : Nat),
      Reaches (component sampleSetup) InTime sampleStart t ∧
      (∃ e, t.calls 0 = .done asked e (.fetched sampleResponse)) ∧
      t.calls 1 = .done began ended .cleared ∧ asked < began ∧ ended < start ∧
      t.calls 2 = .done start e (.fetched sampleResponse) ∧
      ∀ b e response, t.calls 2 ≠ .done b e (.cached response 0) := by
  have hstart : Going (component sampleSetup) InTime sampleStart 0 sampleStart :=
    .refl sampleStart_quiescent
  have hask := hstart
    |>.begin (.lookup sampleRequest) rfl trivial (inTime_begin rfl)
    |>.go rfl (.miss rfl rfl) (inTime_go rfl rfl)
    |>.go rfl (.plain rfl sampleSetup_names) (inTime_go rfl rfl)
    |>.go rfl (.answer [0] rfl) (inTime_go rfl rfl)
    |>.go rfl (.written rfl rfl) (inTime_go rfl rfl)
    |>.go rfl .store (inTime_set <| System.forall_running rfl fun _ k began _ hcleared => by
      rcases k with _ | k
      · exact False.elim hcleared
      · exact False.elim hcleared)
  have hclear := hask.turn_done rfl 1
    |>.begin .clearCache rfl trivial (inTime_begin rfl)
    |>.go rfl .clearCache (inTime_go rfl rfl)
    |>.go rfl .clearMarks (inTime_go rfl rfl)
  have hagain := hclear.turn_done rfl 2
    |>.begin (.lookup sampleRequest) rfl trivial (inTime_begin rfl)
    |>.go rfl (.miss rfl rfl) (inTime_go rfl rfl)
    |>.go rfl (.plain rfl sampleSetup_names) (inTime_go rfl rfl)
    |>.go rfl (.answer [0] rfl) (inTime_go rfl rfl)
    |>.go rfl (.written rfl rfl) (inTime_go rfl rfl)
    |>.go rfl .store (inTime_set <| System.forall_running rfl fun _ k began hbegan hcleared => by
      rcases k with _ | _ | _ | k
      · exact False.elim hcleared
      · obtain rfl := Option.some.inj hbegan
        decide
      · exact False.elim hcleared
      · exact False.elim hcleared)
  refine ⟨_, 6, 8, 0, 9, 14, hagain.reach, ⟨5, rfl⟩, rfl, by decide, by decide, rfl, ?_⟩
  exact (old_answers_not_used sampleSetup (c := 1) (j := 0) (q := 2) hagain.reach (fun _ => rfl)
    rfl rfl rfl (by decide) (by decide)).1

/-- A lookup stores its answer after the cache was emptied; the next one gets it. -/
theorem late_answer_served :
    ∃ (t : System (Shared Unit) (Local Unit) Result) (began ended asked start e : Nat)
      (response : Response),
      Reaches (component sampleSetup) (fun _ _ => True) sampleStart t ∧
      t.calls 1 = .done began ended .cleared ∧ (t.calls 0).began = some asked ∧
      asked < began ∧ ended < start ∧ t.calls 2 = .done start e (.cached response 0) := by
  have hstart : Going (component sampleSetup) (fun _ _ => True) sampleStart 0 sampleStart :=
    .refl sampleStart_quiescent
  -- the lookup has its answer
  have hask := hstart
    |>.begin (.lookup sampleRequest) rfl trivial trivial
    |>.go rfl (.miss rfl rfl) trivial
    |>.go rfl (.plain rfl sampleSetup_names) trivial
    |>.go rfl (.answer [0] rfl) trivial
    |>.go rfl (.written rfl rfl) trivial
  -- the cache is emptied
  have hclear := hask.turn rfl (fun _ => id) 1
    |>.begin .clearCache rfl trivial trivial
    |>.go rfl .clearCache trivial
    |>.go rfl .clearMarks trivial
  -- the answer is stored, and served
  have hfind : (sampleStart.shared.store [1] [] sampleResponse 0).resolver.cache.find
      sampleSetup.codec [1] sampleRequest.id 0
      = some (⟨[], 0, 60 * second, 257, 0⟩, sampleResponse.serve 1 0) := by decide +kernel
  have hserve := hclear.turn_done rfl 0
    |>.go rfl .store trivial
    |>.turn_done rfl 2
    |>.begin (.lookup sampleRequest) rfl trivial trivial
    |>.go rfl (.hit rfl hfind) trivial
  exact ⟨_, 5, 7, 0, 9, 10, sampleResponse.serve 1 0, hserve.reach, rfl, rfl, by decide, by decide,
    rfl⟩

end

end Clyntis.Core.Lookups
