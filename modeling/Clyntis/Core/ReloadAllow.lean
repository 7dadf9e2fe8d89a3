import Clyntis.Core.Reload

/-!
# The user's allowlist (`lib.rs`, `set_adblock_allow`)

The stored list and the set in the filter are changed in separate steps, and the filter in
use may be replaced in between by one of newly loaded lists.

- `AllowEffect`: what a step can do to list and filters;
- `FilterInv`: filters are new when they are loaded, and the resolver uses the filter of the
  active data, or of the data that is being made active;
- `AllowInv`: the filter in use has the stored list, or a call will still set it.
-/

namespace Clyntis.Core.Reload

open Lib Config Local Function Option

variable {setup : Setup} {s t : System Shared Local Outcome}

/-- A call of `set_adblock_allow`. -/
def Local.SetsAllow : Local → Prop
  | allowStart _ => True
  | allowStored _ => True
  | allowFilter .. => True
  | _ => False

/-- The list such a call has stored. -/
def Local.stored : Local → Option (List Text)
  | allowStored allow => some allow
  | allowFilter allow _ => some allow
  | _ => none

/-- The data a call of `prepare_resources` has loaded. -/
def Local.loaded : Local → Option (Resources Nat)
  | prepareLoaded next => some next
  | prepareLocked next => some next
  | prepareRules next _ => some next
  | prepareNetwork next _ _ => some next
  | prepareFilter next _ _ => some next
  | preparePolicy next _ => some next
  | prepareAllow next _ => some next
  | prepareMarked next _ => some next
  | _ => none

/-- The data whose filter such a call has put into use. -/
def Local.installed : Local → Option (Resources Nat)
  | prepareFilter next _ _ => some next
  | preparePolicy next _ => some next
  | prepareAllow next _ => some next
  | prepareMarked next _ => some next
  | _ => none

/-- A call that will set the list in filter `f`, if that is the one in use. -/
def Local.WillSet (f : Nat) : Local → Prop
  | allowStored _ => True
  | allowFilter _ filter => filter = f
  | prepareFilter next _ _ => next.adblock = some f
  | preparePolicy next _ => next.adblock = some f
  | _ => False

variable {here : Local} {out : Local ⊕ Outcome} {next : Resources Nat}

theorem Local.holds_resources_of_installed (h : here.installed = some next) :
    here.holds .resources := by
  cases here <;> first | exact trivial | cases h

theorem Local.loaded_of_installed (h : here.installed = some next) : here.loaded = some next := by
  cases here <;> first | exact h | cases h

theorem Local.setsAllow_of_stored {allow : List Text} (h : here.stored = some allow) :
    here.SetsAllow := by
  cases here <;> first | exact trivial | cases h

/-- A call that has nothing to do with list and filters at this point. -/
structure Local.Neutral (here : Local) : Prop where
  stored : here.stored = none
  installed : here.installed = none
  willSet : ∀ f, ¬ here.WillSet f

/-- What a step can do to the list and the filters. -/
inductive AllowEffect (setup : Setup) (here : Local) (s : Shared) :
    Local ⊕ Outcome → Shared → Prop where
  | quiet {out s'} (hadblock : s'.adblock = s.adblock) (hresources : s'.resources = s.resources)
      (hallow : s'.allow = s.allow) (hfilters : s'.filters = s.filters)
      (hnext : s'.nextFilter = s.nextFilter)
      (hinl : ∀ there, out = .inl there → there.loaded = here.loaded ∧
        there.installed = here.installed ∧ there.stored = here.stored ∧
        ∀ f, s.adblock = some f → here.WillSet f → there.WillSet f)
      (hinr : ∀ result, out = .inr result → here.installed = none ∧
        ∀ f, s.adblock = some f → ¬ here.WillSet f) : AllowEffect setup here s out s'
  | failed {e s'} : AllowEffect setup here s (.inr (.prepareFailed e)) s'
  /-- lists are loaded into a new filter -/
  | allocate {there} (data : Resources Filter) (hhere : here.Neutral) (hthere : there.Neutral)
      (hloaded : there.loaded = some (s.numbered data)) :
      AllowEffect setup here s (.inl there) (s.allocate data)
  /-- a new filter is put into use -/
  | install {there} (next : Resources Nat) (hhere : here.Neutral)
      (hheld : here.holds .resources) (hfrom : here.loaded = some next)
      (hloaded : there.loaded = some next) (hinstalled : there.installed = some next)
      (hstored : there.stored = none) (hwill : ∀ f, next.adblock = some f → there.WillSet f) :
      AllowEffect setup here s (.inl there) { s with adblock := next.adblock }
  /-- the filter of the active data is put into use -/
  | reinstall {there} (hhere : here.Neutral) (hthere : there.Neutral)
      (hheld : here.holds .resources) (hloaded : there.loaded = none) :
      AllowEffect setup here s (.inl there) { s with adblock := s.resources.adblock }
  /-- the stored list is set in the new filter -/
  | setStored {there} (next : Resources Nat) (hfrom : here.installed = some next)
      (hstored : here.stored = none) (hloaded : there.loaded = some next)
      (hinstalled : there.installed = some next) (hnone : there.stored = none)
      (hwill : ∀ f, here.WillSet f → next.adblock = some f) :
      AllowEffect setup here s (.inl there) (s.setAllowOf setup next)
  /-- new data is made active -/
  | publish {result s'} (next : Resources Nat) (hfrom : here.installed = some next)
      (hadblock : s'.adblock = s.adblock) (hresources : s'.resources = next)
      (hallow : s'.allow = s.allow) (hfilters : s'.filters = s.filters)
      (hnext : s'.nextFilter = s.nextFilter) (hwill : ∀ f, ¬ here.WillSet f) :
      AllowEffect setup here s (.inr result) s'
  /-- a list is stored -/
  | store {there} (allow : List Text) (hhere : here.Neutral) (hsets : here.SetsAllow)
      (hloaded : there.loaded = none) (hinstalled : there.installed = none)
      (hstored : there.stored = some allow) (hwill : ∀ f, there.WillSet f) :
      AllowEffect setup here s (.inl there) { s with allow }
  /-- and set in the filter -/
  | set {result} (allow : List Text) (filter : Nat) (hstored : here.stored = some allow)
      (hinstalled : here.installed = none) (hwill : ∀ f, here.WillSet f → f = filter) :
      AllowEffect setup here s (.inr result) (s.setAllow setup filter allow)

theorem Act.allowEffect {s s' : Shared} (h : Act setup here s out s') :
    AllowEffect setup here s out s' := by
  cases h with
  | load hload => exact .allocate _ ⟨rfl, rfl, fun _ => id⟩ ⟨rfl, rfl, fun _ => id⟩ rfl
  | prepareFailed hpolicy => exact .failed
  | prepareAdblock =>
    exact .install _ ⟨rfl, rfl, fun _ => id⟩ trivial rfl rfl rfl rfl fun _ h => h
  | networkAdblock => exact .reinstall ⟨rfl, rfl, fun _ => id⟩ ⟨rfl, rfl, fun _ => id⟩ rfl rfl
  | prepareSetAllow => exact .setStored _ rfl rfl rfl rfl rfl fun _ h => h
  | preparePublish => exact .publish _ rfl rfl rfl rfl rfl rfl fun _ => id
  | allowStore hcheck =>
    exact .store _ ⟨rfl, rfl, fun _ => id⟩ trivial rfl rfl rfl fun _ => trivial
  | allowSet => exact .set _ _ rfl rfl fun _ h => h.symm
  | allowRead hsome =>
    refine .quiet rfl rfl rfl rfl rfl (fun there hthere => ?_) (fun result hresult => ?_)
    · cases hthere
      exact ⟨rfl, rfl, rfl, fun f hf _ => Option.some.inj (hsome.symm.trans hf)⟩
    · cases hresult
  | allowUnused hnone =>
    refine .quiet rfl rfl rfl rfl rfl (fun there hthere => ?_) (fun result _ => ⟨rfl, ?_⟩)
    · cases hthere
    · intro f hf
      rw [hnone] at hf
      cases hf
  | _ =>
    refine .quiet rfl rfl rfl rfl rfl (fun there hthere => ?_) (fun result hresult => ?_)
    · cases hthere <;> exact ⟨rfl, rfl, rfl, fun _ _ h => h⟩
    · cases hresult <;> exact ⟨rfl, fun _ _ => id⟩

/-! ## Filters -/

/-- A new filter has a new number. -/
theorem Shared.allocate_spec (s : Shared) (data : Resources Filter) :
    (s.allocate data).adblock = s.adblock ∧ (s.allocate data).resources = s.resources ∧
      (s.allocate data).allow = s.allow ∧ s.nextFilter ≤ (s.allocate data).nextFilter ∧
      (∀ f, (s.numbered data).adblock = some f → f < (s.allocate data).nextFilter) ∧
      ∀ f, f < s.nextFilter → (s.allocate data).filters f = s.filters f := by
  unfold allocate numbered
  cases data.adblock with
  | none =>
    refine ⟨rfl, rfl, rfl, Nat.le_refl _, fun f hf => ?_, fun _ _ => rfl⟩
    cases hf
  | some filter =>
    refine ⟨rfl, rfl, rfl, Nat.le_succ _, fun f hf => ?_, fun f hf => ?_⟩
    · obtain rfl := Option.some.inj hf
      exact Nat.lt_succ_self _
    · exact update_of_ne (Nat.ne_of_lt hf) _ _

/-- Which filters there are. -/
structure FilterInv (setup : Setup) (s : System Shared Local Outcome) : Prop where
  exclusive : Exclusive (component setup) s
  inUse : ∀ f, s.shared.adblock = some f → f < s.shared.nextFilter
  active : ∀ f, s.shared.resources.adblock = some f → f < s.shared.nextFilter
  loaded : ∀ i here, s.At i here → ∀ next, here.loaded = some next →
    ∀ f, next.adblock = some f → f < s.shared.nextFilter
  installed : ∀ i here, s.At i here → ∀ next, here.installed = some next →
    s.shared.adblock = next.adblock
  linked : s.shared.adblock = s.shared.resources.adblock ∨
    s.Any fun here => here.installed ≠ none

/-- Calls of `set_adblock_allow` do not overlap, and `configure` does not fail in
`prepare_resources`. -/
def OneAtATime (_ t : System Shared Local Outcome) : Prop :=
  (∀ i j here there, i ≠ j → t.At i here → t.At j there → here.SetsAllow → ¬ there.SetsAllow) ∧
    ∀ i began ended e, t.calls i ≠ .done began ended (.prepareFailed e)

theorem Local.loaded_of_begins (h : here.Begins) : here.loaded = none ∧ here.Neutral := by
  cases here <;> first | exact ⟨rfl, rfl, rfl, fun _ => id⟩ | exact h.elim

/-- A step that leaves alone which filters there are. -/
theorem FilterInv.of_same {i began : Nat} {shared : Shared}
    (h : FilterInv setup s) (hat : s.At i here)
    (hexclusive : Exclusive (component setup) (s.set i (.next began s.now out) shared))
    (hadblock : shared.adblock = s.shared.adblock)
    (hresources : shared.resources = s.shared.resources)
    (hnext : shared.nextFilter = s.shared.nextFilter) (hinl : ∀ there, out = .inl there →
      (∀ next, there.loaded = some next → here.loaded = some next) ∧
        there.installed = here.installed)
    (hinr : ∀ result, out = .inr result → here.installed = none) :
    FilterInv setup (s.set i (.next began s.now out) shared) := by
  refine ⟨hexclusive, ?_, ?_, System.Shows.next h.loaded ?_ ?_,
    System.Shows.next_same h.installed ?_ hat ?_, ?_⟩
  · rw [System.set_shared, hadblock, hnext]
    exact h.inUse
  · rw [System.set_shared, hresources, hnext]
    exact h.active
  · rw [System.set_shared, hnext]
    exact fun _ _ => id
  · intro there hthere next hloaded
    rw [System.set_shared, hnext]
    exact h.loaded i here hat next ((hinl there hthere).1 next hloaded)
  · rw [System.set_shared, hadblock]
    exact fun _ _ => id
  · exact fun there hthere => (hinl there hthere).2
  · rw [System.set_shared, hadblock, hresources]
    refine h.linked.imp_right (·.next hat fun hin => ?_)
    cases out with
    | inl there => exact ⟨there, rfl, (hinl there rfl).2 ▸ hin⟩
    | inr result => exact absurd (hinr result rfl) hin

theorem FilterInv.step (h : FilterInv setup s) (hstep : Step (component setup) s t)
    (hok : OneAtATime s t) : FilterInv setup t := by
  have hexclusive := h.exclusive.step hstep
  cases hstep with
  | @start i here hidle hstart =>
    obtain ⟨hloaded, hneutral⟩ := Local.loaded_of_begins hstart
    exact ⟨hexclusive, h.inUse, h.active, System.Shows.start h.loaded (fun _ _ => id) hloaded,
      System.Shows.start h.installed (fun _ _ => id) hneutral.installed,
      h.linked.imp_right (·.start hidle)⟩
  | @act i began here out shared hcall hfree hact =>
    have hat : s.At i here := ⟨began, hcall⟩
    -- a call that has the resources locked is the only one with a filter of its own in use
    have halone : here.holds .resources → ∀ j there, j ≠ i → s.At j there →
        there.installed = none :=
      h.exclusive.others (fun _ _ => Local.holds_resources_of_installed) hat
    cases hact.allowEffect with
    | quiet hadblock hresources hallow hfilters hnext hinl hinr =>
      refine h.of_same hat hexclusive hadblock hresources hnext (fun there hthere => ?_)
        fun result hresult => (hinr result hresult).1
      obtain ⟨hloaded, hinstalled, -⟩ := hinl there hthere
      exact ⟨fun next hnext => hloaded ▸ hnext, hinstalled⟩
    | failed => exact absurd (System.set_calls_self s i _ _) (hok.2 i began s.now _)
    | @allocate there data hhere hthere hloaded =>
      obtain ⟨hadblock, hresources, -, hle, hnew, -⟩ := s.shared.allocate_spec data
      refine ⟨hexclusive, fun f hf => (h.inUse f (hadblock ▸ hf)).trans_le hle,
        fun f hf => (h.active f (hresources ▸ hf)).trans_le hle,
        System.Shows.move_some h.loaded (fun _ _ hlt f hf => (hlt f hf).trans_le hle) hloaded hnew,
        System.Shows.move_none h.installed (fun _ _ => hadblock.trans) hthere.installed, ?_⟩
      · rw [System.set_shared, hadblock, hresources]
        exact h.linked.imp_right (·.keep hat (not_not.mpr hhere.installed))
    | @install there next hhere hheld hfrom hloaded hinstalled hstored hwill =>
      refine ⟨hexclusive, h.loaded i here hat next hfrom, h.active,
        System.Shows.move_some h.loaded (fun _ _ => id) hloaded (h.loaded i here hat next hfrom),
        System.Shows.of_others (halone hheld) ?_, ?_⟩
      · rintro _ ⟨⟩ next' hnext'
        obtain rfl := Option.some.inj (hinstalled.symm.trans hnext')
        rfl
      · refine .inr (.move ?_)
        rw [hinstalled]
        exact some_ne_none _
    | @reinstall there hhere hthere hheld hloaded =>
      refine ⟨hexclusive, h.active, h.active,
        System.Shows.move_none h.loaded (fun _ _ => id) hloaded,
        System.Shows.of_others (halone hheld) ?_, .inl rfl⟩
      · rintro _ ⟨⟩ next hnext
        rw [hthere.installed] at hnext
        cases hnext
    | @setStored there next hfrom hstored hloaded hinstalled hnone hwill =>
      obtain ⟨filters, hs⟩ := s.shared.setAllowOf_eq setup next
      rw [hs] at hexclusive ⊢
      refine h.of_same hat hexclusive rfl rfl rfl (fun other hother => ?_) fun result hresult => ?_
      · obtain rfl := Sum.inl.inj hother
        refine ⟨fun next' hnext' => ?_, hinstalled.trans hfrom.symm⟩
        rw [Local.loaded_of_installed hfrom, ← hloaded]
        exact hnext'
      · cases hresult
    | publish next hfrom hadblock hresources hallow hfilters hnext hwill =>
      have hsame := h.installed i here hat next hfrom
      refine ⟨hexclusive, ?_, ?_, System.Shows.done h.loaded ?_,
        System.Shows.done h.installed fun _ _ => hadblock.trans, ?_⟩
      · rw [System.set_shared, hadblock, hnext]
        exact h.inUse
      · rw [System.set_shared, hresources, hnext]
        exact h.loaded i here hat next (Local.loaded_of_installed hfrom)
      · rw [System.set_shared, hnext]
        exact fun _ _ => id
      · rw [System.set_shared, hadblock, hresources]
        exact .inl hsame
    | @store there allow hhere hsets hloaded hinstalled hstored hwill =>
      refine h.of_same hat hexclusive rfl rfl rfl (fun other hother => ?_) fun result hresult => ?_
      · obtain rfl := Sum.inl.inj hother
        refine ⟨fun next hnext => ?_, hinstalled.trans hhere.installed.symm⟩
        rw [hloaded] at hnext
        cases hnext
      · cases hresult
    | set allow filter hstored hinstalled hwill =>
      refine h.of_same hat hexclusive rfl rfl rfl (fun other hother => ?_) fun _ _ => hinstalled
      cases hother
  | environment henv => exact henv.elim

/-! ## The list in the filter -/

/-- The list of a filter is the set compiled from the stored one. -/
def HasAllow (setup : Setup) (s : Shared) (f : Nat) : Prop :=
  (s.filters f).userAllow = allowSet setup.lib s.allow

theorem hasAllow_setAllow (s : Shared) (f : Nat) :
    HasAllow setup (s.setAllow setup f s.allow) f := by
  show (update s.filters f _ f).userAllow = _
  rw [update_self]
  rfl

theorem HasAllow.setAllow {s : Shared} {f : Nat} (h : HasAllow setup s f) (g : Nat) :
    HasAllow setup (s.setAllow setup g s.allow) f := by
  by_cases hfg : f = g
  · subst hfg
    exact hasAllow_setAllow s f
  · show (update s.filters g _ f).userAllow = _
    rw [update_of_ne hfg]
    exact h

theorem HasAllow.congr {s s' : Shared} {f : Nat} (h : HasAllow setup s f)
    (hfilters : s'.filters f = s.filters f) (hallow : s'.allow = s.allow) :
    HasAllow setup s' f := by
  unfold HasAllow
  rw [hfilters, hallow]
  exact h

/-- The filter in use has the stored list, or a call will set it. -/
structure AllowInv (setup : Setup) (s : System Shared Local Outcome) : Prop where
  filters : FilterInv setup s
  single : ∀ i j here there, i ≠ j → s.At i here → s.At j there → here.SetsAllow →
    ¬ there.SetsAllow
  given : ∀ i here, s.At i here → ∀ allow, here.stored = some allow → allow = s.shared.allow
  current : ∀ f, s.shared.adblock = some f → HasAllow setup s.shared f ∨
    s.Any fun here => here.WillSet f

theorem AllowInv.step (h : AllowInv setup s) (hstep : Step (component setup) s t)
    (hok : OneAtATime s t) : AllowInv setup t := by
  have hfiltersInv := h.filters.step hstep hok
  cases hstep with
  | @start i here hidle hstart =>
    obtain ⟨-, hneutral⟩ := Local.loaded_of_begins hstart
    exact ⟨hfiltersInv, hok.1, System.Shows.start h.given (fun _ _ => id) hneutral.stored,
      fun f hf => (h.current f hf).imp_right (·.start hidle)⟩
  | @act i began here out shared hcall hfree hact =>
    have hat : s.At i here := ⟨began, hcall⟩
    cases hact.allowEffect with
    | quiet hadblock hresources hallow hfilters hnext hinl hinr =>
      refine ⟨hfiltersInv, hok.1, System.Shows.next_same h.given (fun _ _ hgiven =>
        hgiven.trans hallow.symm) hat fun there hthere => (hinl there hthere).2.2.1, ?_⟩
      intro f hf
      rw [System.set_shared, hadblock] at hf
      refine (h.current f hf).imp (fun hhas => hhas.congr (congrFun hfilters f) hallow)
        (·.next hat fun hin => ?_)
      cases out with
      | inl there => exact ⟨there, rfl, (hinl there rfl).2.2.2 f hf hin⟩
      | inr result => exact absurd hin ((hinr result rfl).2 f hf)
    | failed => exact absurd (System.set_calls_self s i _ _) (hok.2 i began s.now _)
    | @allocate there data hhere hthere hloaded =>
      obtain ⟨hadblock, -, hallow, -, -, hold⟩ := s.shared.allocate_spec data
      refine ⟨hfiltersInv, hok.1, System.Shows.move_none h.given (fun _ _ hgiven =>
        hgiven.trans hallow.symm) hthere.stored, ?_⟩
      intro f hf
      rw [System.set_shared, hadblock] at hf
      exact (h.current f hf).imp
        (fun hhas => hhas.congr (hold f (h.filters.inUse f hf)) hallow)
        (·.keep hat (hhere.willSet f))
    | @install there next hhere hheld hfrom hloaded hinstalled hstored hwill =>
      exact ⟨hfiltersInv, hok.1, System.Shows.move_none h.given (fun _ _ => id) hstored,
        fun f hf => .inr (.move (hwill f hf))⟩
    | @reinstall there hhere hthere hheld hloaded =>
      -- it was in use already: no other call can have the resources locked
      have hsame : s.shared.adblock = s.shared.resources.adblock := by
        rcases h.filters.linked with hsame | ⟨j, other, hj, hother⟩
        · exact hsame
        · refine absurd ?_ hother
          by_cases hji : j = i
          · subst hji
            rw [hj.unique hat]
            exact hhere.installed
          · exact h.filters.exclusive.others (fun _ _ => Local.holds_resources_of_installed) hat
              hheld j other hji hj
      exact ⟨hfiltersInv, hok.1, System.Shows.move_none h.given (fun _ _ => id) hthere.stored,
        fun f hf => (h.current f (hsame.trans hf)).imp id (·.keep hat (hhere.willSet f))⟩
    | @setStored there next hfrom hstored hloaded hinstalled hnone hwill =>
      obtain ⟨filters, hs⟩ := s.shared.setAllowOf_eq setup next
      refine ⟨hfiltersInv, hok.1, System.Shows.move_none h.given ?_ hnone, ?_⟩
      · rw [hs]
        exact fun _ _ => id
      · intro f hf
        have hnext : next.adblock = some f := by
          rw [← h.filters.installed i here hat next hfrom]
          rw [hs] at hf
          exact hf
        refine .inl ?_
        show HasAllow setup (s.shared.setAllowOf setup next) f
        rw [Shared.setAllowOf, hnext]
        exact hasAllow_setAllow s.shared f
    | publish next hfrom hadblock hresources hallow hfilters hnext hwill =>
      refine ⟨hfiltersInv, hok.1, System.Shows.done h.given fun _ _ hgiven =>
        hgiven.trans hallow.symm, ?_⟩
      intro f hf
      rw [System.set_shared, hadblock] at hf
      exact (h.current f hf).imp (fun hhas => hhas.congr (congrFun hfilters f) hallow)
        (·.keep hat (hwill f))
    | @store there allow hhere hsets hloaded hinstalled hstored hwill =>
      refine ⟨hfiltersInv, hok.1, System.Shows.of_others (fun j other hne hj => ?_) ?_,
        fun f _ => .inr (.move (hwill f))⟩
      · refine eq_none_iff_forall_ne_some.mpr fun allow' hother => ?_
        exact h.single i j here other hne.symm hat hj hsets (Local.setsAllow_of_stored hother)
      · rintro _ ⟨⟩ allow' hother
        exact Option.some.inj (hother.symm.trans hstored)
    | set allow filter hstored hinstalled hwill =>
      obtain rfl := h.given i here hat allow hstored
      refine ⟨hfiltersInv, hok.1, System.Shows.done h.given fun _ _ => id, fun f hf => ?_⟩
      by_cases hfilter : f = filter
      · subst hfilter
        exact .inl (hasAllow_setAllow s.shared f)
      · exact (h.current f hf).imp (fun hhas => hhas.setAllow filter)
          (·.keep hat fun hin => hfilter (hwill f hin))
  | environment henv => exact henv.elim

/-- As long as calls of `set_adblock_allow` do not overlap and `configure` does not fail in
`prepare_resources`, whenever no call is in progress the filter in use has the stored
allowlist. -/
theorem live_allowlist_is_stored (setup : Setup) {s t : System Shared Local Outcome}
    (hreach : Reaches (component setup) OneAtATime s t) (hs : s.Quiescent)
    (hstart : s.shared.adblock = none ∧ s.shared.resources.adblock = none)
    (ht : t.Quiescent) :
    ∀ f, t.shared.adblock = some f →
      (t.shared.filters f).userAllow = allowSet setup.lib t.shared.allow := by
  have hnone : ∀ f : Nat, ¬ none = some f := fun f hf => by cases hf
  have hfilters : FilterInv setup s :=
    ⟨hs.exclusive, fun f hf => absurd (hstart.1.symm.trans hf) (hnone f),
      fun f hf => absurd (hstart.2.symm.trans hf) (hnone f),
      fun i here hat => absurd hat (hs i here), fun i here hat => absurd hat (hs i here),
      .inl (hstart.1.trans hstart.2.symm)⟩
  have hinv : AllowInv setup s :=
    ⟨hfilters, fun i _ here _ _ hat => absurd hat (hs i here),
      fun i here hat => absurd hat (hs i here),
      fun f hf => absurd (hstart.1.symm.trans hf) (hnone f)⟩
  intro f hf
  rcases (hreach.invariant hinv fun _ _ h hstep hok => h.step hstep hok).current f hf with
    hhas | ⟨i, here, hat, -⟩
  · exact hhas
  · exact absurd hat (ht i here)

/-- Ad-blocking without any list. -/
def adblockConfig : Config where
  rules := []
  dns := { fakeIpFilter := [] }
  geoxUrl := ⟨[], [], []⟩
  adblock := { enable := true }

def adblockSetup : Setup := ⟨DataLib.bare, adblockConfig, rfl⟩

/-- The filter of this configuration. -/
def adblockData : Resources Filter :=
  ((Core.load DataLib.bare 0 adblockConfig false false {} [] ⟨fun _ => none, 0, []⟩).value).getD {}

/-- Two lists, the second of which lets no name through. -/
def someNames : List Text := ["ads.test".toList]

def noNames : List Text := []

theorem allowSet_ne : allowSet DataLib.bare someNames ≠ allowSet DataLib.bare noNames := by
  intro h
  have hsome : (allowSet DataLib.bare someNames).matchesHost DataLib.bare.hash "ads.test".toList
      = true := by decide +kernel
  have hnone : (allowSet DataLib.bare noNames).matchesHost DataLib.bare.hash "ads.test".toList
      = false := by decide +kernel
  rw [h, hnone] at hsome
  cases hsome

/-- A step in which `configure` fails. -/
def prepareFails : Local ⊕ Outcome → Bool
  | .inr (.prepareFailed _) => true
  | _ => false

/-- A run in which a call begins when the others have returned. -/
structure Sequential (setup : Setup) (s : System Shared Local Outcome) (i : Nat)
    (t : System Shared Local Outcome) : Prop where
  going : Going (component setup) OneAtATime s i t
  others : ∀ j here, j ≠ i → ¬ t.At j here
  fine : ∀ j began ended e, t.calls j ≠ .done began ended (.prepareFailed e)

namespace Sequential

variable {i began : Nat} {shared : Shared} (h : Sequential setup s i t)
include h

theorem set {call : Call Local Outcome}
    (hcall : ∀ began ended e, call ≠ .done began ended (.prepareFailed e))
    (hgoing : OneAtATime t (t.set i call shared) →
      Going (component setup) OneAtATime s i (t.set i call shared)) :
    Sequential setup s i (t.set i call shared) := by
  have hothers : ∀ j here, j ≠ i → ¬ (t.set i call shared).At j here :=
    fun j here hne hj => h.others j here hne ((System.at_set_of_ne hne).mp hj)
  have hfine : ∀ j began ended e,
      (t.set i call shared).calls j ≠ .done began ended (.prepareFailed e) := by
    intro j
    by_cases hji : j = i
    · subst hji
      rw [System.set_calls_self]
      exact hcall
    · rw [System.set_calls_of_ne t hji]
      exact h.fine j
  refine ⟨hgoing ⟨fun j k here there hne hj hk => ?_, hfine⟩, hothers, hfine⟩
  by_cases hji : j = i
  · exact absurd hk (hothers k there (hji ▸ hne.symm))
  · exact absurd hj (hothers j here hji)

theorem begin (here : Local) (hidle : t.calls i = .idle)
    (hstart : here.Begins) : Sequential setup s i (t.set i (.running t.now here) t.shared) :=
  h.set (fun _ _ _ hcall => by cases hcall) (h.going.begin here hidle hstart)

theorem go (hcall : t.calls i = .running began here)
    (hact : Act setup here t.shared out shared) (hout : prepareFails out = false) :
    Sequential setup s i (t.set i (.next began t.now out) shared) := by
  refine h.set (fun b ended e hfailed => ?_) (h.going.go hcall hact)
  cases out with
  | inl there => cases hfailed
  | inr result =>
    rw [(Call.done.inj hfailed).2.2] at hout
    cases hout

theorem quiescent {ended : Nat} {result : Outcome}
    (hdone : t.calls i = .done began ended result) : t.Quiescent := by
  intro j here
  by_cases hji : j = i
  · exact System.not_at_of_done (hji ▸ hdone)
  · exact h.others j here hji

end Sequential

/-- The filter is put into use. -/
theorem adblock_prepare : ∃ t, Sequential adblockSetup startSystem 1 t ∧
    t.shared.adblock = some 0 ∧ (∃ began ended, t.calls 0 = .done began ended .ok) ∧
    ∀ j, t.calls (j + 1) = .idle := by
  have hloaded : (Core.load DataLib.bare 0 adblockConfig false false {} []
      ⟨fun _ => none, 0, []⟩).value.isSome = true := by decide +kernel
  obtain ⟨data, rest, hdata, hload⟩ : ∃ data rest, adblockData = data ∧ Core.load DataLib.bare 0
      adblockConfig false false {} [] ⟨fun _ => none, 0, []⟩ = .ok data rest _ :=
    ⟨_, _, rfl, (Ending.eq_ok_of_isSome hloaded {}).choose_spec⟩
  have hfilter : data.adblock.isSome = true := hdata ▸ by decide +kernel
  obtain ⟨matchers, adblock, providers, sources⟩ := data
  obtain ⟨filter, rfl : adblock = some filter⟩ := isSome_iff_exists.mp hfilter
  have hentries : policyEntries adblockConfig.dns none = [] := ordered_empty
  have hpolicy : ∀ resources, adblockSetup.policyFor resources none = .ok {} :=
    fun _ => compilePolicy_of_no_keys _ _ hentries rfl _
  have hstart : Sequential adblockSetup startSystem 0 startSystem :=
    ⟨.refl startSystem_quiescent, fun j here _ => startSystem_quiescent j here,
      fun _ _ _ _ hdone => by cases hdone⟩
  have hprepare := hstart
    |>.begin (prepareStart false) rfl trivial
    |>.go rfl .prepareRead rfl
    |>.go rfl .prepareClone rfl
    |>.go rfl (.load hload) rfl
    |>.go rfl .prepareLock rfl
    |>.go rfl (@Act.prepareCompile _ _ _ (.ofRules []) rfl) rfl
    |>.go rfl .prepareActive rfl
    |>.go rfl .prepareAdblock rfl
    |>.go rfl (.prepareConfigure (hpolicy _)) rfl
    |>.go rfl .prepareSetAllow rfl
    |>.go rfl .prepareMark rfl
    |>.go rfl .preparePublish rfl
  exact ⟨_, ⟨hprepare.going.turn_done rfl 1, fun j here _ => hprepare.quiescent rfl j here,
    hprepare.fine⟩, rfl, ⟨_, _, rfl⟩, fun _ => rfl⟩

/-- One call alone: its list is in the filter. -/
theorem lone_call_is_live : ∃ t : System Shared Local Outcome,
    Reaches (component adblockSetup) OneAtATime startSystem t ∧ t.Quiescent ∧
      t.shared.adblock = some 0 ∧ t.shared.allow = someNames ∧
      (t.shared.filters 0).userAllow = allowSet adblockSetup.lib someNames := by
  obtain ⟨s, hprepare, hlive, ⟨b, e, hdone⟩, hidle⟩ := adblock_prepare
  have hset := hprepare
    |>.begin (allowStart someNames) (hidle 0) trivial
    |>.go rfl (.allowStore rfl) rfl
    |>.go rfl (.allowRead hlive) rfl
    |>.go rfl .allowSet rfl
  have hquiet := hset.quiescent rfl
  exact ⟨_, hset.going.reach, hquiet, hlive, rfl, live_allowlist_is_stored adblockSetup
    hset.going.reach startSystem_quiescent ⟨rfl, rfl⟩ hquiet 0 hlive⟩

/-- One call stores its list; a second one stores another and sets it in the filter; then
the first one sets its own. -/
theorem overlapping_calls_diverge :
    ∃ s t : System Shared Local Outcome, s.Quiescent ∧
      (s.shared.adblock = none ∧ s.shared.resources.adblock = none) ∧
      Reaches (component adblockSetup) (fun _ _ => True) s t ∧ t.Quiescent ∧
      t.shared.adblock = some 0 ∧ t.shared.allow = noNames ∧
      (t.shared.filters 0).userAllow = allowSet adblockSetup.lib someNames ∧
      (t.shared.filters 0).userAllow ≠ allowSet adblockSetup.lib t.shared.allow := by
  obtain ⟨s, hprepare, hlive, ⟨b, e, hdone⟩, hidle⟩ := adblock_prepare
  have hset := hprepare.going.mono (fun _ _ _ => trivial)
    -- the first list is stored
    |>.begin (allowStart someNames) (hidle 0) trivial trivial
    |>.go rfl (.allowStore rfl) trivial
    -- the second one is stored and set
    |>.turn rfl (fun _ => id) 2
    |>.begin (allowStart noNames) (hidle 1) trivial trivial
    |>.go rfl (.allowStore rfl) trivial
    |>.go rfl (.allowRead hlive) trivial
    |>.go rfl .allowSet trivial
    -- the first one is set
    |>.turn_done rfl 1
    |>.go rfl (.allowRead hlive) trivial
    |>.go rfl .allowSet trivial
  refine ⟨startSystem, _, startSystem_quiescent, ⟨rfl, rfl⟩, hset.reach, fun j there => ?_, hlive,
    rfl, rfl, allowSet_ne⟩
  rcases j with _ | _ | _ | j
  · exact System.not_at_of_done hdone
  · exact System.not_at_of_done rfl
  · exact System.not_at_of_done rfl
  · exact System.not_at_of_idle (hidle (j + 2))

end Clyntis.Core.Reload
