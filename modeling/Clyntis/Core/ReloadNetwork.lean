import Clyntis.Core.Reload

/-!
# Network reports (`lib.rs`, `set_network`)

A report is stored, the `NETWORK-NAME` conditions of the active rules are set for it, and
if another override is in effect, the resolver is configured again. Rules and data that are
made active at the same time read the stored network themselves.

- `Act.flags_cases`, `FlagsInv`: the conditions are right, or a report has been stored
  whose call has not yet set them;
- `Act.policy_cases`, `PolicyInv`: the resolver has the stored override and the active data,
  or a call still has to configure it or to make data active.
-/

namespace Clyntis.Core.Reload

open Lib Config Local Option

variable {setup : Setup} {s t : System Shared Local Outcome}

/-! ## The conditions on networks -/

/-- Each condition is on exactly when the stored network is of its name. -/
def Right (setup : Setup) (s : Shared) (compiled : Compiled) : Prop :=
  ∀ cell ∈ compiled.cells, s.flags cell = (setup.matched s.info).contains cell.1

theorem right_mark (s : Shared) (compiled : Compiled) :
    Right setup (s.mark setup compiled) compiled := by
  intro cell hcell
  exact if_pos hcell

variable {compiled : Compiled} {s' : Shared} {here : Local} {out : Local ⊕ Outcome}

/-- Setting some conditions does not make others wrong. -/
theorem Right.mark {s : Shared} (h : Right setup s compiled) (other : Compiled) :
    Right setup (s.mark setup other) compiled := by
  intro cell hcell
  show (if cell ∈ other.cells then _ else _) = _
  split
  · rfl
  · exact h cell hcell

theorem Right.congr {s : Shared} (h : Right setup s compiled) (hflags : s'.flags = s.flags)
    (hmatched : setup.matched s'.info = setup.matched s.info) : Right setup s' compiled := by
  intro cell hcell
  rw [hflags, hmatched]
  exact h cell hcell

/-- Without configured networks no device is on any. -/
theorem Setup.matched_of_no_networks (hnone : setup.config.networks.entries = [])
    (info : NetworkInfo) : setup.matched info = [] := by
  unfold Setup.matched matching
  rw [hnone]
  rfl

/-- A call that has stored a report and has not yet set the conditions. -/
def Local.HasStored : Local → Prop
  | networkStored .. => True
  | _ => False

/-- Rules whose conditions a call has set, before it makes them active. -/
def Local.marked : Local → Option Compiled
  | updateMarked _ _ compiled => some compiled
  | prepareMarked _ compiled => some compiled
  | _ => none

theorem Local.holds_policy_of_marked (h : here.marked = some compiled) : here.holds .policy := by
  cases here <;> first | exact trivial | rfl | cases h

/-- What a step can do to the conditions. -/
theorem Act.flags_cases {s : Shared} (h : Act setup here s out s') :
    -- it does nothing to them
    (s'.flags = s.flags ∧ s'.info = s.info ∧ s'.compiled = s.compiled ∧
      (here.HasStored → setup.config.networks.entries = []) ∧
      ∀ there, out = .inl there → there.marked = none) ∨
    -- it stores a report
    (s'.flags = s.flags ∧ s'.compiled = s.compiled ∧ ¬ here.HasStored ∧
      ∃ there, out = .inl there ∧ there.HasStored ∧ there.marked = none) ∨
    -- it sets the conditions of rules that are not yet active
    (∃ there compiled, out = .inl there ∧ there.marked = some compiled ∧ ¬ here.HasStored ∧
      s' = s.mark setup compiled) ∨
    -- it sets those of the active ones
    (setup.config.networks.entries ≠ [] ∧ here.needs setup .policy ∧
      s' = s.mark setup s.compiled ∧ ∀ there, out = .inl there → there.marked = none) ∨
    -- it makes rules active
    ∃ compiled result, here.marked = some compiled ∧ out = .inr result ∧ ¬ here.HasStored ∧
      s'.flags = s.flags ∧ s'.info = s.info ∧ s'.compiled = compiled := by
  cases h with
  | networkStore => exact .inr (.inl ⟨rfl, rfl, id, _, rfl, trivial, rfl⟩)
  | updateMark | prepareMark => exact .inr (.inr (.inl ⟨_, _, rfl, rfl, id, rfl⟩))
  | networkMark hsome =>
    refine .inr (.inr (.inr (.inl ⟨hsome, ⟨rfl, hsome⟩, rfl, fun there hthere => ?_⟩)))
    cases hthere
    rfl
  | updatePublish | preparePublish =>
    exact .inr (.inr (.inr (.inr ⟨_, _, rfl, rfl, id, rfl, rfl, rfl⟩)))
  | @load _ _ _ _ out =>
    obtain ⟨filters, nextFilter, hs⟩ := s.allocate_eq out
    rw [hs]
    refine .inl ⟨rfl, rfl, rfl, False.elim, fun there hthere => ?_⟩
    cases hthere
    rfl
  | @prepareSetAllow next =>
    obtain ⟨filters, hs⟩ := s.setAllowOf_eq setup next
    rw [hs]
    refine .inl ⟨rfl, rfl, rfl, False.elim, fun there hthere => ?_⟩
    cases hthere
    rfl
  | networkUnnamed hnone =>
    refine .inl ⟨rfl, rfl, rfl, fun _ => hnone, fun there hthere => ?_⟩
    cases hthere
  | _ =>
    refine .inl ⟨rfl, rfl, rfl, False.elim, fun there hthere => ?_⟩
    cases hthere <;> rfl

/-- A stored report whose conditions have not been set. -/
def Stale (setup : Setup) (s : System Shared Local Outcome) : Prop :=
  setup.config.networks.entries ≠ [] ∧ s.Any Local.HasStored

/-- The conditions are right, in the active rules and in those that will be made active,
or they are about to be set. -/
structure FlagsInv (setup : Setup) (s : System Shared Local Outcome) : Prop where
  active : Stale setup s ∨ Right setup s.shared s.shared.compiled
  marked : ∀ i here, s.At i here → ∀ compiled, here.marked = some compiled →
    Stale setup s ∨ Right setup s.shared compiled

theorem Local.marked_of_begins (h : here.Begins) : here.marked = none := by
  cases here <;> first | rfl | exact h.elim

theorem FlagsInv.step (h : FlagsInv setup s) (hstep : Step (component setup) s t) :
    FlagsInv setup t := by
  cases hstep with
  | @start i here hidle hstart =>
    have hstale : Stale setup s → Stale setup (s.set i (.running s.now here) s.shared) :=
      fun ⟨hsome, hcall⟩ => ⟨hsome, hcall.start hidle⟩
    exact ⟨h.active.imp_left hstale, System.Shows.start h.marked (fun _ _ => Or.imp_left hstale)
      (Local.marked_of_begins hstart)⟩
  | @act i began here out shared hcall hfree hact =>
    have hat : s.At i here := ⟨began, hcall⟩
    have hkeep : ¬ here.HasStored → Stale setup s →
        Stale setup (s.set i (.next began s.now out) shared) :=
      fun hnot ⟨hsome, hstored⟩ => ⟨hsome, hstored.keep hat hnot⟩
    rcases hact.flags_cases with ⟨hflags, hinfo, hcompiled, hunnamed, hout⟩ |
      ⟨hflags, hcompiled, hnot, next, rfl, hstored, hnone⟩ |
      ⟨next, compiled, rfl, hmarked, hnot, rfl⟩ | ⟨hsome, hneeds, rfl, hout⟩ |
      ⟨compiled, result, hmarked, rfl, hnot, hflags, hinfo, hcompiled⟩
    · have hstale : Stale setup s → Stale setup (s.set i (.next began s.now out) shared) :=
        fun hs => hkeep (fun hin => hs.1 (hunnamed hin)) hs
      have hright : ∀ {rules}, Right setup s.shared rules → Right setup shared rules :=
        fun hs => hs.congr hflags (by rw [hinfo])
      refine ⟨?_, System.Shows.next_none h.marked (fun _ _ => Or.imp hstale hright) hout⟩
      rw [System.set_shared, hcompiled]
      exact h.active.imp hstale hright
    · -- a report: its call will set the conditions, unless no network has a name
      by_cases hunnamed : setup.config.networks.entries = []
      · have hright : ∀ {rules}, Right setup s.shared rules → Right setup shared rules := by
          intro rules hs
          refine hs.congr hflags ?_
          rw [setup.matched_of_no_networks hunnamed, setup.matched_of_no_networks hunnamed]
        have hnostale : ¬ Stale setup s := fun hs => hs.1 hunnamed
        refine ⟨.inr ?_, System.Shows.move_none h.marked (fun _ _ hs => .inr ?_) hnone⟩
        · rw [System.set_shared, hcompiled]
          exact hright (h.active.resolve_left hnostale)
        · exact hright (hs.resolve_left hnostale)
      · have hstale : Stale setup (s.set i (.next began s.now (.inl next)) shared) :=
          ⟨hunnamed, .move hstored⟩
        exact ⟨.inl hstale, fun _ _ _ _ _ => .inl hstale⟩
    · have hright : ∀ {rules}, Right setup s.shared rules →
          Right setup (s.shared.mark setup compiled) rules := fun hs => hs.mark compiled
      exact ⟨h.active.imp (hkeep hnot) hright, System.Shows.move_some h.marked
        (fun _ _ => Or.imp (hkeep hnot) hright) hmarked (.inr (right_mark s.shared compiled))⟩
    · -- no call can be about to publish while another one reads the policy
      refine ⟨.inr (right_mark s.shared s.shared.compiled), System.Shows.of_others
        (fun j there hne hj => eq_none_iff_forall_ne_some.mpr fun rules hrules => ?_)
        fun there hthere rules hrules => ?_⟩
      · exact hfree j there hne hj .policy hneeds (Local.holds_policy_of_marked hrules)
      · rw [hout there hthere] at hrules
        cases hrules
    · have hright : ∀ {rules}, Right setup s.shared rules → Right setup shared rules :=
        fun hs => hs.congr hflags (by rw [hinfo])
      refine ⟨?_, System.Shows.done h.marked fun _ _ => Or.imp (hkeep hnot) hright⟩
      rw [System.set_shared, hcompiled]
      exact (h.marked i here hat compiled hmarked).imp (hkeep hnot) hright
  | environment henv => exact henv.elim

/-! ## The override in effect -/

/-- The policy before the resolver is configured for the first time. -/
def Setup.startPolicy (setup : Setup) : DnsPolicy := { hosts := setup.config.hosts }

/-- The resolver's policy was compiled from this data with the stored override, or it was
never configured, there is no data and no override. -/
def Applied (setup : Setup) (s : Shared) (resources : Resources Nat) : Prop :=
  (s.active = none ∧ resources = {} ∧ s.dnsPolicy = setup.startPolicy) ∨
    setup.policyFor resources s.active = .ok s.dnsPolicy

/-- A call of `set_network` that will configure the resolver for what is stored then. -/
def Local.Owes : Local → Prop
  | networkStored previous active => previous ≠ active
  | networkMarked previous active => previous ≠ active
  | networkLocked => True
  | _ => False

/-- What a call has done under the lock on the resources: it has read the override, or it
has configured the resolver for data that it will make active. -/
inductive Stage where
  | read (active : Option Nat)
  | configured (next : Resources Nat)

/-- How far a call is. -/
def Local.stage : Local → Option Stage
  | prepareNetwork _ _ active => some (.read active)
  | prepareFilter _ _ active => some (.read active)
  | preparePolicy next _ => some (.configured next)
  | prepareAllow next _ => some (.configured next)
  | prepareMarked next _ => some (.configured next)
  | networkRead active => some (.read active)
  | networkFilter active => some (.read active)
  | _ => none

/-- What was done is right for what is stored. -/
def Stage.Fits (setup : Setup) (s : Shared) : Stage → Prop
  | read active => active = s.active
  | configured next => Applied setup s next

variable {stage : Stage}

theorem Local.holds_resources_of_stage (h : here.stage = some stage) : here.holds .resources := by
  cases here <;> first | exact trivial | rfl | cases h

theorem Local.not_owes_of_stage (h : here.stage = some stage) : ¬ here.Owes := by
  cases here <;> first | exact id | cases h

/-- What a step can do to the override in effect. -/
theorem Act.policy_cases {s : Shared} (h : Act setup here s out s') :
    -- it does nothing to it
    (s'.active = s.active ∧ s'.dnsPolicy = s.dnsPolicy ∧ s'.resources = s.resources ∧
      (∀ there, out = .inl there → there.stage = here.stage ∧ (here.Owes → there.Owes)) ∧
      ∀ result, out = .inr result →
        here.stage = none ∧ (here.Owes → setup.config.networks.entries = [])) ∨
    -- `configure` fails
    (∃ e, out = .inr (.prepareFailed e) ∨ out = .inr (.networkFailed e)) ∨
    -- it stores a report
    (∃ info, out = .inl (networkStored s.active (setup.activeFor info)) ∧
      s'.active = setup.activeFor info ∧ s'.dnsPolicy = s.dnsPolicy ∧
      s'.resources = s.resources ∧ here.stage = none ∧ ¬ here.Owes) ∨
    -- it reads the stored override
    (∃ there, out = .inl there ∧ there.stage = some (.read s.active) ∧ here.stage = none ∧
      here.holds .resources ∧ s' = s) ∨
    -- it configures the resolver, or makes data active
    ∃ stage, here.stage = some stage ∧ s'.active = s.active ∧
      ((∃ there new, out = .inl there ∧ there.stage = some new ∧
        (stage.Fits setup s → new.Fits setup s')) ∨
      ∃ result, out = .inr result ∧ (stage.Fits setup s → Applied setup s' s'.resources)) := by
  cases h with
  | prepareFailed hpolicy => exact .inr (.inl ⟨_, .inl rfl⟩)
  | networkFailed hpolicy => exact .inr (.inl ⟨_, .inr rfl⟩)
  | networkStore => exact .inr (.inr (.inl ⟨_, rfl, rfl, rfl, rfl, rfl, id⟩))
  | prepareActive => exact .inr (.inr (.inr (.inl ⟨_, rfl, rfl, rfl, trivial, rfl⟩)))
  | networkActive => exact .inr (.inr (.inr (.inl ⟨_, rfl, rfl, rfl, rfl, rfl⟩)))
  | prepareConfigure hpolicy =>
    refine .inr (.inr (.inr (.inr ⟨_, rfl, rfl, .inl ⟨_, _, rfl, rfl, fun hread => .inr ?_⟩⟩)))
    exact hread ▸ hpolicy
  | networkConfigure hpolicy =>
    refine .inr (.inr (.inr (.inr ⟨_, rfl, rfl, .inr ⟨_, rfl, fun hread => .inr ?_⟩⟩)))
    exact hread ▸ hpolicy
  | preparePublish => exact .inr (.inr (.inr (.inr ⟨_, rfl, rfl, .inr ⟨_, rfl, id⟩⟩)))
  | @load _ _ _ _ out =>
    obtain ⟨filters, nextFilter, hs⟩ := s.allocate_eq out
    rw [hs]
    refine .inl ⟨rfl, rfl, rfl, fun there hthere => ?_, fun result hresult => ?_⟩
    · cases hthere
      exact ⟨rfl, id⟩
    · cases hresult
  | @prepareSetAllow next =>
    obtain ⟨filters, hs⟩ := s.setAllowOf_eq setup next
    rw [hs]
    refine .inl ⟨rfl, rfl, rfl, fun there hthere => ?_, fun result hresult => ?_⟩
    · cases hthere
      exact ⟨rfl, id⟩
    · cases hresult
  | networkUnnamed hnone =>
    refine .inl ⟨rfl, rfl, rfl, fun there hthere => ?_, fun _ _ => ⟨rfl, fun _ => hnone⟩⟩
    cases hthere
  | networkSame =>
    refine .inl ⟨rfl, rfl, rfl, fun there hthere => ?_, fun _ _ => ⟨rfl, fun hne => absurd rfl hne⟩⟩
    cases hthere
  | networkLock hne =>
    refine .inl ⟨rfl, rfl, rfl, fun there hthere => ?_, fun result hresult => ?_⟩
    · cases hthere
      exact ⟨rfl, fun _ => trivial⟩
    · cases hresult
  | _ =>
    refine .inl ⟨rfl, rfl, rfl, fun there hthere => ?_, fun result hresult => ?_⟩
    · cases hthere <;> exact ⟨rfl, id⟩
    · cases hresult <;> exact ⟨rfl, False.elim⟩

/-- A call of `set_network` has yet to read the override it configures. -/
def Pending (setup : Setup) (s : System Shared Local Outcome) : Prop :=
  setup.config.networks.entries ≠ [] ∧ s.Any Local.Owes

/-- The resolver is right for the active data and the stored override, or a call has yet to
configure it or to make data active; what such a call has done is right, unless a later
call has yet to configure the resolver. -/
structure PolicyInv (setup : Setup) (s : System Shared Local Outcome) : Prop where
  exclusive : Exclusive (component setup) s
  unnamed : setup.config.networks.entries = [] → s.shared.active = none
  applied : Applied setup s.shared s.shared.resources ∨ Pending setup s ∨
    s.Any fun here => here.stage.isSome
  stage : ∀ i here, s.At i here → ∀ stage, here.stage = some stage →
    stage.Fits setup s.shared ∨ Pending setup s

/-- `configure` has not failed. -/
def Configures (_ t : System Shared Local Outcome) : Prop :=
  ∀ i began ended e, t.calls i ≠ .done began ended (.prepareFailed e) ∧
    t.calls i ≠ .done began ended (.networkFailed e)

theorem Local.stage_of_begins (h : here.Begins) : here.stage = none := by
  cases here <;> first | rfl | exact h.elim

section

variable {s : Shared} (hactive : s'.active = s.active) (hpolicy : s'.dnsPolicy = s.dnsPolicy)
include hactive hpolicy

theorem Applied.congr {resources : Resources Nat} (h : Applied setup s resources) :
    Applied setup s' resources := by
  unfold Applied
  rw [hactive, hpolicy]
  exact h

theorem Stage.Fits.congr (h : stage.Fits setup s) : stage.Fits setup s' := by
  cases stage with
  | read active => exact h.trans hactive.symm
  | configured next => exact Applied.congr hactive hpolicy h

end

theorem PolicyInv.step (h : PolicyInv setup s) (hstep : Step (component setup) s t)
    (hok : Configures s t) : PolicyInv setup t := by
  have hexclusive := h.exclusive.step hstep
  cases hstep with
  | @start i here hidle hstart =>
    have hpending : Pending setup s → Pending setup (s.set i (.running s.now here) s.shared) :=
      fun ⟨hsome, hcall⟩ => ⟨hsome, hcall.start hidle⟩
    exact ⟨hexclusive, h.unnamed, h.applied.imp_right (Or.imp hpending (·.start hidle)),
      System.Shows.start h.stage (fun _ _ => Or.imp_right hpending)
        (Local.stage_of_begins hstart)⟩
  | @act i began here out shared hcall hfree hact =>
    have hat : s.At i here := ⟨began, hcall⟩
    have hothers : here.holds .resources → ∀ j there, j ≠ i → s.At j there →
        there.stage = none :=
      h.exclusive.others (fun _ _ => Local.holds_resources_of_stage) hat
    have hpending : ¬ here.Owes → Pending setup s →
        Pending setup (s.set i (.next began s.now out) shared) :=
      fun hnot ⟨hsome, howed⟩ => ⟨hsome, howed.keep hat hnot⟩
    rcases hact.policy_cases with ⟨hactive, hpolicy, hresources, hinl, hinr⟩ | ⟨e, hfailed⟩ |
      ⟨info, rfl, hactive, hpolicy, hresources, hstage, howes⟩ |
      ⟨next, rfl, hnext, hstage, hheld, rfl⟩ | ⟨stage, hstage, hactive, hout⟩
    · have hpending : Pending setup s →
          Pending setup (s.set i (.next began s.now out) shared) := by
        rintro ⟨hsome, howed⟩
        refine ⟨hsome, howed.next hat fun hin => ?_⟩
        cases out with
        | inl there => exact ⟨there, rfl, (hinl there rfl).2 hin⟩
        | inr result => exact absurd ((hinr result rfl).2 hin) hsome
      refine ⟨hexclusive, hactive ▸ h.unnamed, ?_, System.Shows.next_same h.stage
        (fun _ _ => Or.imp (·.congr hactive hpolicy) hpending) hat
        fun there hthere => (hinl there hthere).1⟩
      · rw [System.set_shared, hresources]
        refine h.applied.imp (·.congr hactive hpolicy) (Or.imp hpending (·.next hat fun hin => ?_))
        cases out with
        | inl there =>
          rw [← (hinl there rfl).1] at hin
          exact ⟨there, rfl, hin⟩
        | inr result =>
          rw [(hinr result rfl).1] at hin
          cases hin
    · exfalso
      rcases hfailed with rfl | rfl
      · exact (hok i began s.now e).1 (System.set_calls_self s i _ _)
      · exact (hok i began s.now e).2 (System.set_calls_self s i _ _)
    · by_cases hsame : s.shared.active = setup.activeFor info
      · -- the same override: nothing changes
        have hactive' : shared.active = s.shared.active := hactive.trans hsame.symm
        refine ⟨hexclusive, hactive' ▸ h.unnamed, ?_, System.Shows.move_none h.stage
          (fun _ _ => Or.imp (·.congr hactive' hpolicy) (hpending howes)) rfl⟩
        rw [System.set_shared, hresources]
        refine h.applied.imp (·.congr hactive' hpolicy) (Or.imp (hpending howes) (·.keep hat ?_))
        rw [hstage]
        exact Bool.false_ne_true
      · -- another one: this call will configure the resolver
        have hsome : setup.config.networks.entries ≠ [] := by
          intro hnone
          refine hsame ((h.unnamed hnone).trans ?_)
          exact (activeOverride_of_no_networks setup.valid hnone info).symm
        have hpending : Pending setup
            (s.set i (.next began s.now (.inl (networkStored s.shared.active
              (setup.activeFor info)))) shared) :=
          ⟨hsome, .move hsame⟩
        exact ⟨hexclusive, fun hnone => absurd hnone hsome, .inr (.inl hpending),
          fun _ _ _ _ _ => .inr hpending⟩
    · refine ⟨hexclusive, h.unnamed, ?_, System.Shows.of_others (hothers hheld) ?_⟩
      · exact .inr (.inr (.move (isSome_of_eq_some hnext)))
      · rintro _ ⟨⟩ stage hstage
        obtain rfl := Option.some.inj (hstage.symm.trans hnext)
        exact .inl rfl
    · have hlater := hpending (Local.not_owes_of_stage hstage)
      have halone := hothers (Local.holds_resources_of_stage hstage)
      have hfits := h.stage i here hat stage hstage
      rcases hout with ⟨next, new, rfl, hnext, hnew⟩ | ⟨result, rfl, happlied⟩
      · refine ⟨hexclusive, hactive ▸ h.unnamed, ?_, System.Shows.of_others halone ?_⟩
        · exact .inr (.inr (.move (isSome_of_eq_some hnext)))
        · rintro _ ⟨⟩ stage' hstage'
          obtain rfl := Option.some.inj (hstage'.symm.trans hnext)
          exact hfits.imp hnew hlater
      · exact ⟨hexclusive, hactive ▸ h.unnamed, (hfits.imp happlied hlater).imp_right .inl,
          System.Shows.of_others halone nofun⟩
  | environment henv => exact henv.elim

/-! ## No report is lost -/

/-- The core as `Core::new` leaves it. -/
structure Initial (setup : Setup) (s : Shared) : Prop where
  parsed : setup.config.rules.mapM (Rule.parse setup.lib.toRuleLib) = .ok s.compiled.rules
  rawRules : s.rawRules = setup.config.rules
  resources : s.resources = {}
  flags : ∀ cell ∈ s.compiled.cells, s.flags cell = false
  info : s.info = {}
  active : s.active = none
  allow : s.allow = setup.config.adblock.allow
  adblock : s.adblock = none
  dnsPolicy : s.dnsPolicy = setup.startPolicy

/-- A named network with an override, and a rule that asks for it. -/
def homeConfig : Config where
  rules := ["NETWORK-NAME,home,DIRECT".toList]
  dns := { fakeIpFilter := [] }
  geoxUrl := ⟨[], [], []⟩
  networks := AList.singleton "home".toList { ssid := some (.one "home".toList) }
  networkOverrides := [{ network := "home".toList }]

def homeSetup : Setup := ⟨DataLib.bare, homeConfig, rfl⟩

/-- The core before any call. -/
def homeStart : System Shared Local Outcome where
  now := 0
  shared := {
    mode := .rule
    rawRules := homeConfig.rules
    compiled := .ofRules [⟨.onNetwork "home".toList false, "DIRECT".toList, false⟩]
    allow := []
    dnsPolicy := homeSetup.startPolicy
    filters := providerStart.filters }
  calls _ := .idle

/-- A call that has not failed. -/
def Fine : Call Local Outcome → Prop
  | .done _ _ (.prepareFailed _) => False
  | .done _ _ (.networkFailed _) => False
  | _ => True

theorem configures_set {call : Call Local Outcome} {shared : Shared}
    (hidle : ∀ j, s.calls (j + 1) = .idle) (hcall : Fine call) :
    Configures s (s.set 0 call shared) := by
  intro i began ended e
  rcases i with _ | i
  · constructor
    · rintro rfl
      exact hcall
    · rintro rfl
      exact hcall
  · rw [System.set_calls_of_ne s (Nat.succ_ne_zero i), hidle i]
    constructor <;> rintro ⟨⟩

end Clyntis.Core.Reload
