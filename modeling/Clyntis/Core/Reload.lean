import Clyntis.Core.Resolver
import Clyntis.Core.Route
import Clyntis.Lib.Calls

/-!
# Changing the running core (`lib.rs`)

`update_policy`, `prepare_resources`, `set_network` and `set_adblock_allow` change rules,
routing data, the reported network and the allowlist while the core runs, and may be
called side by side. Each piece of state is behind its own lock.

- `Shared`: what the calls share. Conditions on networks and ad-block filters stand behind
  pointers, so that a change is seen by all who hold them;
- `Local`, `Act`: the calls, from one critical section to the next;
- `component`: with the locks on routing data and on the policy, which are held over
  several of these steps.

A critical section inside another one is a step of its own, so that the outer sections
need not be atomic here. Reading and downloading of files is in `load`. What becomes of the
DNS cache is in `Clyntis.Core.Lookups`.
-/

namespace Clyntis.Core.Reload

open Lib Config Function

/-- A `NETWORK-NAME` condition: its name, and which one of that name it is. -/
abbrev Cell : Type := Text × Nat

/-- Compiled rules, with the conditions `networks` finds in them. The flags that the rules
themselves hold are not read. -/
structure Compiled where
  rules : List Rule
  cells : List Cell
  names : cells.map Prod.fst = rules.flatMap fun rule => rule.matcher.networks

/-- What the calls share. -/
structure Shared where
  /-- `resources`; filters are numbered -/
  resources : Resources Nat := {}
  /-- `policy` -/
  mode : Mode
  rawRules : List Text
  compiled : Compiled
  /-- the flags of the conditions -/
  flags : Cell → Bool := fun _ => false
  /-- `network` -/
  info : NetworkInfo := {}
  active : Option Nat := none
  /-- `adblock_allow` -/
  allow : List Text
  /-- the resolver's filter and policy -/
  adblock : Option Nat := none
  dnsPolicy : DnsPolicy
  /-- the filters, and the next number -/
  filters : Nat → Filter
  nextFilter : Nat := 0

/-- What does not change: libraries, and a configuration `Core::new` has accepted. -/
structure Setup where
  lib : DataLib
  config : Config
  valid : config.validate lib.toRuleLib = .ok ()

/-- How a call returns. -/
inductive Outcome where
  | ok
  | invalid (e : ConfigError)
  | refused (e : ResourceError)
  /-- `configure` failed in `prepare_resources` -/
  | prepareFailed (e : ResourceError)
  /-- `configure` failed in `set_network` -/
  | networkFailed (e : ResourceError)

/-- Where a call is. -/
inductive Local where
  | updateStart (mode : Option Mode) (rules : Option (List Text))
  | updateRaw (mode : Option Mode) (update : Bool) (raw : List Text)
  | updateCompiled (mode : Option Mode) (update : Bool) (raw : List Text) (compiled : Compiled)
  /-- the policy is locked -/
  | updateMarked (mode : Option Mode) (raw : List Text) (compiled : Compiled)
  | prepareStart (refresh : Bool)
  | prepareRaw (refresh : Bool) (raw : List Text)
  | preparePrevious (refresh : Bool) (raw : List Text) (previous : Resources Nat)
  | prepareLoaded (next : Resources Nat)
  /-- the resources are locked, from `prepareRules` on the policy too -/
  | prepareLocked (next : Resources Nat)
  | prepareRules (next : Resources Nat) (compiled : Compiled)
  | prepareNetwork (next : Resources Nat) (compiled : Compiled) (active : Option Nat)
  | prepareFilter (next : Resources Nat) (compiled : Compiled) (active : Option Nat)
  | preparePolicy (next : Resources Nat) (compiled : Compiled)
  | prepareAllow (next : Resources Nat) (compiled : Compiled)
  | prepareMarked (next : Resources Nat) (compiled : Compiled)
  | networkStart (info : NetworkInfo)
  | networkStored (previous active : Option Nat)
  | networkMarked (previous active : Option Nat)
  /-- the resources are locked -/
  | networkLocked
  | networkRead (active : Option Nat)
  | networkFilter (active : Option Nat)
  | allowStart (allow : List Text)
  | allowStored (allow : List Text)
  | allowFilter (allow : List Text) (filter : Nat)

namespace Setup

variable (setup : Setup)

/-- The networks a device is on. -/
def matched (info : NetworkInfo) : List Text :=
  matching setup.lib.toRuleLib setup.config.networks info

/-- `active_override`. -/
def activeFor (info : NetworkInfo) : Option Nat :=
  activeOverride setup.lib.toRuleLib setup.config.networks setup.config.networkOverrides info

/-- The override at an index that `active_override` returned. -/
def overrideAt (active : Option Nat) : Option NetworkOverride :=
  active.bind fun index => setup.config.networkOverrides[index]?

/-- The configuration with other rules. -/
def withRules (raw : List Text) : Config := { setup.config with rules := raw }

/-- The policy that `configure` compiles. -/
def policyFor (resources : Resources Nat) (active : Option Nat) : Except ResourceError DnsPolicy :=
  compilePolicy setup.lib.toRuleLib resources setup.config.dns setup.config.hosts
    (setup.overrideAt active)

/-- `set_adblock_allow` checks the patterns as those of a configuration. -/
def checkAllow (allow : List Text) : Except ConfigError Unit :=
  ({ allow } : Adblock).validate setup.lib.toRuleLib

end Setup

namespace Shared

variable (setup : Setup) (s : Shared)

/-- `mark_networks`. -/
def mark (compiled : Compiled) : Shared :=
  { s with
    flags := fun cell =>
      if cell ∈ compiled.cells then (setup.matched s.info).contains cell.1 else s.flags cell }

/-- The snapshot with the filter behind its number. -/
def view (resources : Resources Nat) : Resources Filter :=
  { resources with adblock := resources.adblock.map s.filters }

variable (out : Resources Filter)

/-- The snapshot with the number of a new filter. -/
def numbered : Resources Nat :=
  { out with adblock := out.adblock.map fun _ => s.nextFilter }

/-- The new filter of a snapshot. -/
def allocate : Shared :=
  match out.adblock with
  | some filter =>
    { s with
      filters := update s.filters s.nextFilter filter
      nextFilter := s.nextFilter + 1 }
  | none => s

/-- `set_allow`. -/
def setAllow (filter : Nat) (allow : List Text) : Shared :=
  { s with
    filters := update s.filters filter
      ((s.filters filter).setAllow setup.lib allow) }

/-- `set_allow` on the filter of a snapshot, if it has one. -/
def setAllowOf (next : Resources Nat) : Shared :=
  match next.adblock with
  | some filter => s.setAllow setup filter s.allow
  | none => s

/-- A new filter leaves the rest alone. -/
theorem allocate_eq :
    ∃ filters nextFilter, s.allocate out = { s with filters, nextFilter } := by
  unfold allocate
  split
  · exact ⟨_, _, rfl⟩
  · exact ⟨s.filters, s.nextFilter, rfl⟩

theorem setAllowOf_eq (next : Resources Nat) :
    ∃ filters, s.setAllowOf setup next = { s with filters } := by
  unfold setAllowOf
  split
  · exact ⟨_, rfl⟩
  · exact ⟨s.filters, rfl⟩

end Shared

open Local

/-- One atomic step of a call. -/
inductive Act (setup : Setup) : Local → Shared → Local ⊕ Outcome → Shared → Prop where
  -- `update_policy`
  | updateGiven {mode raw s} :
      Act setup (updateStart mode (some raw)) s (.inl (updateRaw mode true raw)) s
  | updateRead {mode s} :
      Act setup (updateStart mode none) s (.inl (updateRaw mode false s.rawRules)) s
  | updateInvalid {mode update raw s e}
      (hvalid : (setup.withRules raw).validate setup.lib.toRuleLib = .error e) :
      Act setup (updateRaw mode update raw) s (.inr (.invalid e)) s
  | updateRefused {mode update raw s e}
      (hvalid : (setup.withRules raw).validate setup.lib.toRuleLib = .ok ())
      (hrules : s.resources.rules setup.lib.toRuleLib raw = .error e) :
      Act setup (updateRaw mode update raw) s (.inr (.refused e)) s
  | updateCompile {mode update raw s compiled}
      (hvalid : (setup.withRules raw).validate setup.lib.toRuleLib = .ok ())
      (hrules : s.resources.rules setup.lib.toRuleLib raw = .ok compiled.rules) :
      Act setup (updateRaw mode update raw) s
        (.inl (updateCompiled mode update raw compiled)) s
  | updateMode {mode raw compiled s} :
      Act setup (updateCompiled mode false raw compiled) s (.inr .ok)
        { s with mode := mode.getD s.mode }
  | updateMark {mode raw compiled s} :
      Act setup (updateCompiled mode true raw compiled) s
        (.inl (updateMarked mode raw compiled)) (s.mark setup compiled)
  | updatePublish {mode raw compiled s} :
      Act setup (updateMarked mode raw compiled) s (.inr .ok)
        { s with mode := mode.getD s.mode, rawRules := raw, compiled }
  -- `prepare_resources`
  | prepareRead {refresh s} :
      Act setup (prepareStart refresh) s (.inl (prepareRaw refresh s.rawRules)) s
  | prepareClone {refresh raw s} :
      Act setup (prepareRaw refresh raw) s (.inl (preparePrevious refresh raw s.resources)) s
  | load {refresh raw previous s out now proxy script disk rest after}
      (hload : load setup.lib now (setup.withRules raw) refresh proxy (s.view previous) script disk
        = .ok out rest after) :
      Act setup (preparePrevious refresh raw previous) s (.inl (prepareLoaded (s.numbered out)))
        (s.allocate out)
  | loadRefused {refresh raw previous s e now proxy script disk rest after}
      (hload : load setup.lib now (setup.withRules raw) refresh proxy (s.view previous) script disk
        = .error e rest after) :
      Act setup (preparePrevious refresh raw previous) s (.inr (.refused e)) s
  | prepareLock {next s} : Act setup (prepareLoaded next) s (.inl (prepareLocked next)) s
  | prepareRefused {next s e} (hrules : next.rules setup.lib.toRuleLib s.rawRules = .error e) :
      Act setup (prepareLocked next) s (.inr (.refused e)) s
  | prepareCompile {next s compiled}
      (hrules : next.rules setup.lib.toRuleLib s.rawRules = .ok compiled.rules) :
      Act setup (prepareLocked next) s (.inl (prepareRules next compiled)) s
  | prepareActive {next compiled s} :
      Act setup (prepareRules next compiled) s (.inl (prepareNetwork next compiled s.active)) s
  | prepareAdblock {next compiled active s} :
      Act setup (prepareNetwork next compiled active) s
        (.inl (prepareFilter next compiled active)) { s with adblock := next.adblock }
  | prepareFailed {next compiled active s e} (hpolicy : setup.policyFor next active = .error e) :
      Act setup (prepareFilter next compiled active) s (.inr (.prepareFailed e)) s
  | prepareConfigure {next compiled active s dnsPolicy}
      (hpolicy : setup.policyFor next active = .ok dnsPolicy) :
      Act setup (prepareFilter next compiled active) s (.inl (preparePolicy next compiled))
        { s with dnsPolicy }
  | prepareSetAllow {next compiled s} :
      Act setup (preparePolicy next compiled) s (.inl (prepareAllow next compiled))
        (s.setAllowOf setup next)
  | prepareMark {next compiled s} :
      Act setup (prepareAllow next compiled) s (.inl (prepareMarked next compiled))
        (s.mark setup compiled)
  | preparePublish {next compiled s} :
      Act setup (prepareMarked next compiled) s (.inr .ok) { s with compiled, resources := next }
  -- `set_network`
  | networkStore {info s} :
      Act setup (networkStart info) s (.inl (networkStored s.active (setup.activeFor info)))
        { s with info, active := setup.activeFor info }
  | networkUnnamed {previous active s} (hnone : setup.config.networks.entries = []) :
      Act setup (networkStored previous active) s (.inr .ok) s
  | networkMark {previous active s} (hsome : setup.config.networks.entries ≠ []) :
      Act setup (networkStored previous active) s (.inl (networkMarked previous active))
        (s.mark setup s.compiled)
  | networkSame {active s} : Act setup (networkMarked active active) s (.inr .ok) s
  | networkLock {previous active s} (hne : previous ≠ active) :
      Act setup (networkMarked previous active) s (.inl networkLocked) s
  | networkActive {s} : Act setup networkLocked s (.inl (networkRead s.active)) s
  | networkAdblock {active s} :
      Act setup (networkRead active) s (.inl (networkFilter active))
        { s with adblock := s.resources.adblock }
  | networkFailed {active s e} (hpolicy : setup.policyFor s.resources active = .error e) :
      Act setup (networkFilter active) s (.inr (.networkFailed e)) s
  | networkConfigure {active s dnsPolicy}
      (hpolicy : setup.policyFor s.resources active = .ok dnsPolicy) :
      Act setup (networkFilter active) s (.inr .ok) { s with dnsPolicy }
  -- `set_adblock_allow`
  | allowInvalid {allow s e} (hcheck : setup.checkAllow allow = .error e) :
      Act setup (allowStart allow) s (.inr (.invalid e)) s
  | allowStore {allow s} (hcheck : setup.checkAllow allow = .ok ()) :
      Act setup (allowStart allow) s (.inl (allowStored allow)) { s with allow }
  | allowUnused {allow s} (hnone : s.adblock = none) :
      Act setup (allowStored allow) s (.inr .ok) s
  | allowRead {allow s filter} (hsome : s.adblock = some filter) :
      Act setup (allowStored allow) s (.inl (allowFilter allow filter)) s
  | allowSet {allow filter s} :
      Act setup (allowFilter allow filter) s (.inr .ok) (s.setAllow setup filter allow)

/-- The locks that are held over several steps. -/
inductive Lock where
  | resources
  | policy
  deriving DecidableEq

/-- The locks the next step takes. -/
def Local.needs (setup : Setup) : Local → Lock → Prop
  | updateStart _ none, lock => lock = .policy
  | updateRaw .., lock => lock = .resources
  | updateCompiled .., lock => lock = .policy
  | prepareStart _, lock => lock = .policy
  | prepareRaw .., lock => lock = .resources
  | prepareLoaded _, lock => lock = .resources
  | prepareLocked _, lock => lock = .policy
  | networkStored .., lock => lock = .policy ∧ setup.config.networks.entries ≠ []
  | networkMarked previous active, lock => lock = .resources ∧ previous ≠ active
  | _, _ => False

/-- The locks held between steps. -/
def Local.holds : Local → Lock → Prop
  | updateMarked .., lock => lock = .policy
  | prepareLocked _, lock => lock = .resources
  | prepareRules .., _ => True
  | prepareNetwork .., _ => True
  | prepareFilter .., _ => True
  | preparePolicy .., _ => True
  | prepareAllow .., _ => True
  | prepareMarked .., _ => True
  | networkLocked, lock => lock = .resources
  | networkRead _, lock => lock = .resources
  | networkFilter _, lock => lock = .resources
  | _, _ => False

/-- Where a call begins. -/
def Local.Begins : Local → Prop
  | updateStart .. => True
  | prepareStart _ => True
  | networkStart _ => True
  | allowStart _ => True
  | _ => False

/-- A call that begins holds no lock. -/
theorem Local.not_holds_of_begins {here : Local} (h : here.Begins) (lock : Lock) :
    ¬ here.holds lock := by
  cases here <;> first | exact id | exact h.elim

/-- A lock that is held after a step was held before it, or taken by it. -/
theorem Act.acquired {setup : Setup} {here there : Local} {s s' : Shared}
    (h : Act setup here s (.inl there) s') (lock : Lock) (hheld : there.holds lock) :
    here.holds lock ∨ here.needs setup lock := by
  cases h with
  | prepareCompile hrules =>
    cases lock with
    | resources => exact .inl rfl
    | policy => exact .inr rfl
  | networkLock hne => exact .inr ⟨hheld, hne⟩
  | _ => first | exact .inl hheld | exact .inr hheld

/-- The core as a component. -/
def component (setup : Setup) : Component Lock Shared Local Outcome where
  starts := Local.Begins
  act _ _ := Act setup
  environment _ _ := False
  needs here _ := here.needs setup
  holds := Local.holds
  starts_free := Local.not_holds_of_begins
  acquired := Act.acquired

/-! ## Rules and data -/

section

variable {setup : Setup} {s t : System Shared Local Outcome}

/-- The compiled rules are the stored ones, compiled with the active data. -/
def InStep (setup : Setup) (s : Shared) : Prop :=
  s.resources.rules setup.lib.toRuleLib s.rawRules = .ok s.compiled.rules

/-- What compiled rules in the hands of a call were compiled from. -/
def Local.Fits (setup : Setup) (s : Shared) : Local → Prop
  | updateCompiled _ true raw compiled =>
    s.resources.rules setup.lib.toRuleLib raw = .ok compiled.rules
  | updateMarked _ raw compiled => s.resources.rules setup.lib.toRuleLib raw = .ok compiled.rules
  | prepareRules next compiled => next.rules setup.lib.toRuleLib s.rawRules = .ok compiled.rules
  | prepareNetwork next compiled _ =>
    next.rules setup.lib.toRuleLib s.rawRules = .ok compiled.rules
  | prepareFilter next compiled _ =>
    next.rules setup.lib.toRuleLib s.rawRules = .ok compiled.rules
  | preparePolicy next compiled => next.rules setup.lib.toRuleLib s.rawRules = .ok compiled.rules
  | prepareAllow next compiled => next.rules setup.lib.toRuleLib s.rawRules = .ok compiled.rules
  | prepareMarked next compiled => next.rules setup.lib.toRuleLib s.rawRules = .ok compiled.rules
  | _ => True

/-- A call that has compiled new rules and waits for the policy. -/
def Local.HasCompiled : Local → Prop
  | updateCompiled _ update _ _ => update = true
  | _ => False

/-- A call of `prepare_resources` or `update_policy` that publishes what it has compiled next. -/
def Local.publishes : Local → Bool
  | updateMarked .. => true
  | prepareMarked .. => true
  | _ => false

variable {here : Local} {s' shared : Shared} {call : Call Local Outcome}

/-- What a step can do to rules and data: nothing, or one of the two publications. -/
theorem Act.rules_cases {out : Local ⊕ Outcome} {s : Shared} (h : Act setup here s out s') :
    (here.publishes = false ∧
      s'.resources = s.resources ∧ s'.rawRules = s.rawRules ∧ s'.compiled = s.compiled ∧
      ∀ there, out = .inl there → here.Fits setup s → there.Fits setup s) ∨
    (∃ mode raw compiled, here = updateMarked mode raw compiled ∧ out = .inr .ok ∧
      s'.resources = s.resources ∧ s'.rawRules = raw ∧ s'.compiled = compiled) ∨
    ∃ next compiled, here = prepareMarked next compiled ∧ out = .inr .ok ∧
      s'.resources = next ∧ s'.rawRules = s.rawRules ∧ s'.compiled = compiled := by
  cases h with
  | updatePublish => exact .inr (.inl ⟨_, _, _, rfl, rfl, rfl, rfl, rfl⟩)
  | preparePublish => exact .inr (.inr ⟨_, _, rfl, rfl, rfl, rfl, rfl⟩)
  | @updateCompile _ update _ _ _ _ hrules =>
    refine .inl ⟨rfl, rfl, rfl, rfl, fun there hthere _ => ?_⟩
    obtain rfl := Sum.inl.inj hthere
    cases update with
    | true => exact hrules
    | false => exact trivial
  | prepareCompile hrules =>
    refine .inl ⟨rfl, rfl, rfl, rfl, fun there hthere _ => ?_⟩
    obtain rfl := Sum.inl.inj hthere
    exact hrules
  | @load _ _ _ _ out =>
    obtain ⟨filters, nextFilter, hs⟩ := s.allocate_eq out
    rw [hs]
    refine .inl ⟨rfl, rfl, rfl, rfl, fun there hthere _ => ?_⟩
    obtain rfl := Sum.inl.inj hthere
    exact trivial
  | @prepareSetAllow next =>
    obtain ⟨filters, hs⟩ := s.setAllowOf_eq setup next
    rw [hs]
    refine .inl ⟨rfl, rfl, rfl, rfl, fun there hthere hfits => ?_⟩
    obtain rfl := Sum.inl.inj hthere
    exact hfits
  | _ =>
    -- the other steps leave rules and data alone, and a call keeps what it has compiled
    refine .inl ⟨rfl, rfl, rfl, rfl, fun there hthere hfits => ?_⟩
    cases hthere <;> exact hfits

/-- Compiled rules fit as long as the active data, the stored rules and the call stay. -/
theorem Local.Fits.congr {s : Shared} (h : here.Fits setup s)
    (hresources : s'.resources = s.resources) (hraw : s'.rawRules = s.rawRules) :
    here.Fits setup s' := by
  unfold Local.Fits at h ⊢
  rw [hresources, hraw]
  exact h

/-- What a call other than one that publishes has compiled fits after the publication. -/
theorem Local.Fits.of_not_holds {s : Shared} (h : here.Fits setup s)
    (hpolicy : ¬ here.holds .policy)
    (hresources : s'.resources = s.resources ∨ ¬ here.HasCompiled) : here.Fits setup s' := by
  cases here with
  | updateCompiled mode update raw compiled =>
    cases update with
    | true =>
      rcases hresources with hsame | hnot
      · show s'.resources.rules _ raw = _
        rw [hsame]
        exact h
      · exact absurd rfl hnot
    | false => exact trivial
  | updateMarked mode raw compiled => exact absurd rfl hpolicy
  | prepareRules | prepareNetwork | prepareFilter | preparePolicy | prepareAllow | prepareMarked =>
    exact absurd trivial hpolicy
  | _ => exact trivial

theorem Local.fits_of_begins {s : Shared} (h : here.Begins) : here.Fits setup s := by
  cases here <;> first | exact trivial | exact h.elim

/-- The invariant of rules and data. -/
structure RulesInv (setup : Setup) (s : System Shared Local Outcome) : Prop where
  exclusive : Exclusive (component setup) s
  fits : ∀ i here, s.At i here → here.Fits setup s.shared

/-- A call publishes its rules in this step. -/
def Publishes (s t : System Shared Local Outcome) : Prop :=
  ∃ i here, s.At i here ∧ here.publishes = true ∧ ∀ there, ¬ t.At i there

/-- No call of `prepare_resources` makes its data active while one of `update_policy` has
compiled its rules and not yet stored them. -/
def Undisturbed (s t : System Shared Local Outcome) : Prop :=
  ∀ i next compiled, s.At i (prepareMarked next compiled) → (∀ here, ¬ t.At i here) →
    ∀ j here, s.At j here → ¬ here.HasCompiled

/-- A step of another kind publishes nothing. -/
theorem not_publishes_set {i : Nat}
    (h : ∀ began here, s.calls i = .running began here → here.publishes = false) :
    ¬ Publishes s (s.set i call shared) := by
  rintro ⟨j, here, ⟨began, hj⟩, hpublishes, hgone⟩
  by_cases hji : j = i
  · rw [h began here (hji ▸ hj)] at hpublishes
    cases hpublishes
  · exact hgone here ((System.at_set_of_ne hji).mpr ⟨began, hj⟩)

theorem not_publishes_go {i began : Nat} (hcall : s.calls i = .running began here)
    (hnot : here.publishes = false) : ¬ Publishes s (s.set i call shared) :=
  not_publishes_set (System.forall_running hcall hnot)

theorem undisturbed_of_not_publishes (h : ¬ Publishes s t) : Undisturbed s t :=
  fun i _ _ hat hgone => absurd ⟨i, _, hat, rfl, hgone⟩ h

/-- Rules and data change only where they are published. -/
theorem inStep_of_not_publishes (hstep : Step (component setup) s t) (hnot : ¬ Publishes s t) :
    InStep setup t.shared ↔ InStep setup s.shared := by
  cases hstep with
  | start => exact .rfl
  | @act i began here out shared hcall hfree hact =>
    rcases hact.rules_cases with ⟨-, hresources, hraw, hcompiled, -⟩ |
      ⟨mode, raw, compiled, rfl, rfl, -⟩ | ⟨next, compiled, rfl, rfl, -⟩
    · show InStep setup shared ↔ _
      unfold InStep
      rw [hresources, hraw, hcompiled]
    · exact absurd ⟨i, _, ⟨began, hcall⟩, rfl, fun _ => System.not_at_set_done⟩ hnot
    · exact absurd ⟨i, _, ⟨began, hcall⟩, rfl, fun _ => System.not_at_set_done⟩ hnot
  | environment henv => exact henv.elim

theorem RulesInv.step (h : RulesInv setup s) (hstep : Step (component setup) s t)
    (hok : Undisturbed s t) : RulesInv setup t ∧ (Publishes s t → InStep setup t.shared) := by
  have hexclusive := h.exclusive.step hstep
  cases hstep with
  | @start i here hidle hstart =>
    refine ⟨⟨hexclusive, System.forall_at_set (fun there hthere => ?_)
      fun j there _ hj => h.fits j there hj⟩, fun hpublishes => absurd hpublishes ?_⟩
    · obtain rfl := System.at_set_running.mp hthere
      exact Local.fits_of_begins hstart
    · exact not_publishes_set (System.forall_running_of_idle hidle)
  | @act i began here out shared hcall hfree hact =>
    have hat : s.At i here := ⟨began, hcall⟩
    rcases hact.rules_cases with ⟨hquiet, hresources, hraw, hcompiled, hfits⟩ |
      ⟨mode, raw, compiled, rfl, rfl, hresources, hraw, hcompiled⟩ |
      ⟨next, compiled, rfl, rfl, hresources, hraw, hcompiled⟩
    · refine ⟨⟨hexclusive, System.forall_at_set (fun there hthere => ?_)
        fun j there _ hj => (h.fits j there hj).congr hresources hraw⟩,
        fun hpublishes => absurd hpublishes (not_publishes_go hcall hquiet)⟩
      exact (hfits there (System.at_set_next.mp hthere) (h.fits i here hat)).congr hresources hraw
    · -- new rules: no other call can be in the policy
      refine ⟨⟨hexclusive, System.forall_at_set (fun there hthere => ?_) ?_⟩, fun _ => ?_⟩
      · exact absurd hthere System.not_at_set_done
      · intro j there hne hj
        exact (h.fits j there hj).of_not_holds
          (h.exclusive i j _ there hne.symm hat hj .policy rfl) (.inl hresources)
      · show InStep setup shared
        unfold InStep
        rw [hresources, hraw, hcompiled]
        exact h.fits i _ hat
    · -- new data: nor is any call with rules compiled from the old one
      refine ⟨⟨hexclusive, System.forall_at_set (fun there hthere => ?_) ?_⟩, fun _ => ?_⟩
      · exact absurd hthere System.not_at_set_done
      · intro j there hne hj
        exact (h.fits j there hj).of_not_holds
          (h.exclusive i j _ there hne.symm hat hj .policy trivial)
          (.inr (hok i next compiled hat (fun _ => System.not_at_set_done) j there hj))
      · show InStep setup shared
        unfold InStep
        rw [hresources, hraw, hcompiled]
        exact h.fits i _ hat
  | environment henv => exact henv.elim

/-- Take any run from a state without calls, such as the one `Core::new` leaves, where rules are
read but not bound. As long as no rules are published, rules and data are in step exactly if they
were at first. If no new data is made active between the compilation and the publication of new
rules, they are in step from the first publication on. -/
theorem rules_in_step (setup : Setup) {s : System Shared Local Outcome} (hs : s.Quiescent) :
    (∀ t, Reaches (component setup) (fun u v => ¬ Publishes u v) s t →
      (InStep setup t.shared ↔ InStep setup s.shared)) ∧
    ∀ u v t, Reaches (component setup) Undisturbed s u → Step (component setup) u v →
      Undisturbed u v → Publishes u v → Reaches (component setup) Undisturbed v t →
        InStep setup t.shared := by
  constructor
  · intro t hreach
    exact hreach.invariant (I := fun t => InStep setup t.shared ↔ InStep setup s.shared) .rfl
      fun _ _ h hstep hnot => (inStep_of_not_publishes hstep hnot).trans h
  · intro u v t hu hstep hok hpublishes ht
    have hinv : RulesInv setup s := ⟨hs.exclusive, fun i here hat => absurd hat (hs i here)⟩
    obtain ⟨hv, hin⟩ := (hu.invariant hinv fun _ _ h hstep hok => (h.step hstep hok).1).step
      hstep hok
    refine (ht.invariant (I := fun t => RulesInv setup t ∧ InStep setup t.shared)
      ⟨hv, hin hpublishes⟩ ?_).2
    rintro u v ⟨h, hin⟩ hstep hok
    refine ⟨(h.step hstep hok).1, ?_⟩
    by_cases hp : Publishes u v
    · exact (h.step hstep hok).2 hp
    · exact (inStep_of_not_publishes hstep hp).mpr hin

/-- Rules with the conditions in them numbered alike. -/
def Compiled.ofRules (rules : List Rule) : Compiled where
  rules
  cells := (rules.flatMap fun rule => rule.matcher.networks).map (·, 0)
  names := by
    rw [List.map_map]
    exact List.map_id _

/-- A file with rules is empty, or it has one rule. -/
def providerLib : DataLib :=
  { DataLib.bare with
    parsePayload := fun bytes _ => some (if bytes = [] then [] else ["NETWORK,tcp".toList]) }

/-- One provider, no rules. -/
def providerConfig : Config where
  rules := []
  dns := { fakeIpFilter := [] }
  geoxUrl := ⟨[], [], []⟩
  ruleProviders := AList.singleton ['p']
    { kind := "file".toList, behavior := "classical".toList, path := ['p'] }

/-- The core with these rules. -/
def providerSetup (rules : List Text)
    (valid : ({ providerConfig with rules } : Config).validate providerLib.toRuleLib = .ok ()) :
    Setup := ⟨providerLib, { providerConfig with rules }, valid⟩

/-- The core before any call. -/
def providerStart : Shared where
  mode := .rule
  rawRules := []
  compiled := .ofRules []
  allow := []
  dnsPolicy := {}
  filters _ := ⟨providerLib.endpoints.domains, providerLib.endpoints.domains,
    providerLib.endpoints.domains, [], providerLib.endpoints, false, false⟩

/-- No call has begun, and there are these rules. -/
def startWith (rules : List Text) (parsed : Compiled) : System Shared Local Outcome :=
  ⟨0, { providerStart with rawRules := rules, compiled := parsed }, fun _ => .idle⟩

theorem startWith_quiescent {rules : List Text} {parsed : Compiled} :
    (startWith rules parsed).Quiescent :=
  fun _ _ => System.not_at_of_idle rfl

/-- No call has begun, and there are no rules. -/
def startSystem : System Shared Local Outcome := startWith [] (.ofRules [])

theorem startSystem_quiescent : startSystem.Quiescent := startWith_quiescent

/-- Loading the provider's file with these contents, for these rules. -/
def providerLoad (rules : List Text) (data : Bytes) (previous : Resources Filter) :
    Ending Event Disk ResourceError (Resources Filter) :=
  Core.load providerLib 0 { providerConfig with rules } false false previous []
    ⟨fun path => if path = .real "./p".toList then some ⟨data, 0⟩ else none, 0, []⟩

/-- The data with an empty file, and after the file has got a rule. -/
def dataBefore : Resources Filter := ((providerLoad [] [] {}).value).getD {}

def dataAfter : Resources Filter := ((providerLoad [] [1] dataBefore).value).getD {}

/-- A rule that uses the provider. -/
def providerRules : List Text := ["RULE-SET,p,DIRECT".toList]

/-- Whether compiled rules stand for an empty provider. -/
def emptySets (rules : Except ResourceError (List Rule)) : Option (List Bool) :=
  rules.toOption.map fun rules => rules.map fun rule =>
    match rule.matcher with
    | .or [] => true
    | _ => false

theorem exists_of_emptySets {r : Except ResourceError (List Rule)} {l : List Bool}
    (h : emptySets r = some l) : ∃ rules, r = .ok rules := by
  cases r with
  | ok rules => exact ⟨rules, rfl⟩
  | error e => cases h

variable {rules : List Text}
  (valid : ({ providerConfig with rules } : Config).validate providerLib.toRuleLib = .ok ())

theorem provider_policy (resources : Resources Nat) :
    (providerSetup rules valid).policyFor resources none = .ok {} := by
  have hentries : policyEntries providerConfig.dns none = [] := ordered_empty
  exact compilePolicy_of_no_keys _ _ hentries rfl _

theorem dataBefore_loaded : (providerLoad [] [] {}).value.isSome = true := by decide +kernel

theorem dataBefore_adblock : dataBefore.adblock = none :=
  Option.isNone_iff_eq_none.mp (by decide +kernel)

/-- A call of `prepare_resources` alone, and its last step. -/
theorem provider_prepare (parsed compiled : Compiled) {data : Resources Filter}
    {rest : List Event} {after : Disk} (hload : providerLoad rules [] {} = .ok data rest after)
    (hnone : data.adblock = none)
    (hrules : data.rules providerLib.toRuleLib rules = .ok compiled.rules) :
    let c := component (providerSetup rules valid)
    ∃ u v, Reaches c (fun u v => ¬ Publishes u v) (startWith rules parsed) u ∧
      Step c u v ∧ Undisturbed u v ∧ Publishes u v ∧ v.Quiescent ∧ (∀ j, v.calls (j + 1) = .idle) ∧
      ∃ flags, v.shared = { providerStart with
        rawRules := rules, compiled, flags, resources := providerStart.numbered data } := by
  intro c
  obtain ⟨matchers, adblock, providers, sources⟩ := data
  obtain rfl : adblock = none := hnone
  have hstart : Going c (fun u v => ¬ Publishes u v) (startWith rules parsed) 0 _ :=
    .refl startWith_quiescent
  have hprepare := hstart
    |>.begin (prepareStart false) rfl trivial
      (not_publishes_set (System.forall_running_of_idle rfl))
    |>.go rfl .prepareRead (not_publishes_go rfl rfl)
    |>.go rfl .prepareClone (not_publishes_go rfl rfl)
    |>.go rfl (.load hload) (not_publishes_go rfl rfl)
    |>.go rfl .prepareLock (not_publishes_go rfl rfl)
    |>.go rfl (.prepareCompile hrules) (not_publishes_go rfl rfl)
    |>.go rfl .prepareActive (not_publishes_go rfl rfl)
    |>.go rfl .prepareAdblock (not_publishes_go rfl rfl)
    |>.go rfl (.prepareConfigure (provider_policy valid _)) (not_publishes_go rfl rfl)
    |>.go rfl .prepareSetAllow (not_publishes_go rfl rfl)
    |>.go rfl .prepareMark (not_publishes_go rfl rfl)
  refine ⟨_, _, hprepare.reach,
    .act rfl (fun j there hne hj lock _ => hprepare.alone j there hne hj lock) .preparePublish,
    fun _ _ _ _ _ j there hj => ?_, ⟨0, _, ⟨_, rfl⟩, rfl, fun _ => System.not_at_set_done⟩,
    fun j there => ?_, fun _ => rfl, _, rfl⟩
  · rcases j with _ | j
    · rw [System.At.unique hj ⟨_, rfl⟩]
      exact id
    · exact absurd hj (System.not_at_of_idle rfl)
  · rcases j with _ | j
    · exact System.not_at_set_done
    · exact System.not_at_of_idle rfl

/-- The rules as `Core::new` reads them, and rules for an update. -/
def parsedRules : Compiled :=
  .ofRules ((providerRules.mapM (Rule.parse providerLib.toRuleLib)).toOption.getD [])

def updatedRules : List Text := providerRules ++ ["MATCH,DIRECT".toList]

/-- The core with a rule that uses the provider. -/
def ruledSetup : Setup := providerSetup providerRules rfl

/-- Its data, with an empty file. -/
def ruledData : Resources Filter := ((providerLoad providerRules [] {}).value).getD {}

/-- Data is prepared and then the rules are updated. Rules and data are out of step until the data
is there, and in step from then on. -/
theorem prepared_in_step :
    ∃ u v t : System Shared Local Outcome,
      Reaches (component ruledSetup) (fun u v => ¬ Publishes u v)
        (startWith providerRules parsedRules) u ∧ ¬ InStep ruledSetup u.shared ∧
      Step (component ruledSetup) u v ∧ Reaches (component ruledSetup) Undisturbed v t ∧
      t.Quiescent ∧ t.shared.rawRules = updatedRules ∧ InStep ruledSetup t.shared := by
  have hsome : (providerLoad providerRules [] {}).value.isSome = true := by decide +kernel
  have hnone : ruledData.adblock = none := Option.isNone_iff_eq_none.mp (by decide +kernel)
  have hold : emptySets (ruledData.rules providerLib.toRuleLib providerRules) = some [true] := by
    decide +kernel
  have hnew : emptySets (ruledData.rules providerLib.toRuleLib updatedRules)
      = some [true, false] := by decide +kernel
  obtain ⟨rest, hload⟩ := Ending.eq_ok_of_isSome hsome {}
  obtain ⟨rules, hrules⟩ := exists_of_emptySets hold
  obtain ⟨rules', hrules'⟩ := exists_of_emptySets hnew
  obtain ⟨u, ⟨now, shared, calls⟩, hu, hpublish, hok, hpublishes, hquiet, hidle, flags, rfl⟩ :=
    provider_prepare rfl parsedRules (.ofRules rules) hload hnone hrules
  -- the rule is not bound at first
  have hunbound : emptySets (({} : Resources Nat).rules providerLib.toRuleLib providerRules)
      = none := by decide +kernel
  have hstart : ¬ InStep ruledSetup (startWith providerRules parsedRules).shared := fun hin => by
    change ({} : Resources Nat).rules providerLib.toRuleLib providerRules = _ at hin
    rw [hin] at hunbound
    cases hunbound
  have hupdate := (Going.refl hquiet : Going (component ruledSetup) Undisturbed _ 1 _)
    |>.begin (updateStart none (some updatedRules)) (hidle 0) trivial
      (undisturbed_of_not_publishes (not_publishes_set (System.forall_running_of_idle (hidle 0))))
    |>.go rfl .updateGiven (undisturbed_of_not_publishes (not_publishes_go rfl rfl))
    |>.go rfl (@Act.updateCompile _ _ _ _ _ (.ofRules rules') rfl hrules')
      (undisturbed_of_not_publishes (not_publishes_go rfl rfl))
    |>.go rfl .updateMark (undisturbed_of_not_publishes (not_publishes_go rfl rfl))
    |>.go rfl .updatePublish fun j next compiled hj => by
      rcases j with _ | _ | j
      · exact absurd hj (hquiet 0 _)
      · cases System.At.unique hj ⟨_, rfl⟩
      · exact absurd hj (System.not_at_of_idle (hidle (j + 1)))
  obtain ⟨hbefore, hafter⟩ := rules_in_step ruledSetup
    (startWith_quiescent : (startWith providerRules parsedRules).Quiescent)
  refine ⟨u, _, _, hu, (hbefore u hu).not.mpr hstart, hpublish, hupdate.reach, fun j there => ?_,
    rfl, hafter u _ _ (hu.mono fun _ _ => undisturbed_of_not_publishes) hpublish hok hpublishes
      hupdate.reach⟩
  rcases j with _ | _ | j
  · exact hquiet 0 there
  · exact System.not_at_set_done
  · exact System.not_at_of_idle (hidle (j + 1))

/-- A call of `update_policy` compiles its rules, the provider is loaded anew, and the call
stores the rules: they stand for the provider as it was. -/
theorem rules_fall_out_of_step :
    let setup := providerSetup [] rfl
    ∃ s t : System Shared Local Outcome, s.shared = providerStart ∧ s.Quiescent ∧
      InStep setup s.shared ∧ Reaches (component setup) (fun _ _ => True) s t ∧
      t.Quiescent ∧ ¬ InStep setup t.shared := by
  intro setup
  have hbefore : emptySets (dataBefore.rules providerLib.toRuleLib providerRules)
      = some [true] := by decide +kernel
  have hafter : emptySets (dataAfter.rules providerLib.toRuleLib providerRules)
      = some [false] := by decide +kernel
  have hnone : dataAfter.adblock = none := Option.isNone_iff_eq_none.mp (by decide +kernel)
  have hsome : (providerLoad [] [1] dataBefore).value.isSome = true := by decide +kernel
  obtain ⟨rules, hrules⟩ := exists_of_emptySets hbefore
  -- the provider's file is empty
  obtain ⟨rest, hload⟩ := Ending.eq_ok_of_isSome dataBefore_loaded {}
  obtain ⟨u, ⟨now, shared, calls⟩, hu, hpublish, -, -, hquiet, hidle, flags, rfl⟩ :=
    provider_prepare rfl (.ofRules []) (.ofRules []) hload dataBefore_adblock rfl
  -- the file has got a rule
  obtain ⟨rest', hload'⟩ := Ending.eq_ok_of_isSome hsome {}
  change providerLoad [] [1] dataBefore = .ok dataAfter rest' _ at hload'
  generalize dataAfter = after at hload' hnone hafter
  obtain ⟨matchers, adblock, providers, sources⟩ := after
  obtain rfl : adblock = none := hnone
  -- new rules are compiled, the data is loaded anew, and the rules are stored
  have hprepare : Going (component setup) (fun _ _ => True) startSystem 1 _ :=
    ⟨(hu.mono fun _ _ _ => trivial).tail hpublish trivial,
      fun j there _ hj => absurd hj (hquiet j there)⟩
  have hlast := hprepare
    |>.begin (updateStart none (some providerRules)) (hidle 0) trivial trivial
    |>.go rfl .updateGiven trivial
    |>.go rfl (@Act.updateCompile _ _ _ _ _ (.ofRules rules) rfl hrules) trivial
    |>.turn rfl (fun _ => id) 2
    |>.begin (prepareStart false) (hidle 1) trivial trivial
    |>.go rfl .prepareRead trivial
    |>.go rfl .prepareClone trivial
    |>.go rfl (.load hload') trivial
    |>.go rfl .prepareLock trivial
    |>.go rfl (@Act.prepareCompile _ _ _ (.ofRules []) rfl) trivial
    |>.go rfl .prepareActive trivial
    |>.go rfl .prepareAdblock trivial
    |>.go rfl (.prepareConfigure (provider_policy rfl _)) trivial
    |>.go rfl .prepareSetAllow trivial
    |>.go rfl .prepareMark trivial
    |>.go rfl .preparePublish trivial
    |>.turn_done rfl 1
    |>.go rfl .updateMark trivial
    |>.go rfl .updatePublish trivial
  refine ⟨startSystem, _, rfl, startSystem_quiescent, rfl, hlast.reach, fun j there => ?_,
    fun hstep => ?_⟩
  · rcases j with _ | _ | _ | j
    · exact hquiet 0 there
    · exact System.not_at_of_done rfl
    · exact System.not_at_of_done rfl
    · exact System.not_at_of_idle (hidle (j + 2))
  · have hrules' : Resources.rules providerLib.toRuleLib
        (⟨matchers, none, providers, sources⟩ : Resources Filter) providerRules = .ok rules := hstep
    rw [hrules', ← hrules, hbefore] at hafter
    cases hafter

end

end Clyntis.Core.Reload
