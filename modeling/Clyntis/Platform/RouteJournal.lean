import Clyntis.Lib.Scripted
import Clyntis.Net.Addr

/-!
# The route journal (`desktop.rs`, `Transaction`)

The TUN device adds routes to the system's table. A journal file names every route that
may have been added, so that they can be taken out again after a crash: a route is
journaled before it is added, and leaves the journal after it was removed.

- `RouteSpec.matchesRoute`: which routes of the table an entry stands for;
- `apply`, `restore`, `openJournal`: the transaction, as programs that any operation may
  interrupt;
- `Clean`: the table without the routes of some entries is the initial one;
- `Inv`: the table is clean both for the journal in memory and for the one on disk. Each
  operation keeps it, if the file names what the transaction has journaled (`Saved`) when
  `apply` starts;
- `Reached`: any sequence of calls, with crashes and reopenings.

A route is listed as it was added. The lock file is left out.
-/

namespace Clyntis.Platform

open Lib Net List

/-- `std::env::consts::OS`, for the desktop systems. -/
inductive Os where
  | windows
  | macos
  | linux
  deriving DecidableEq, Repr

/-- The system's name. -/
def Os.name : Os → Text
  | windows => "windows".toList
  | macos => "macos".toList
  | linux => "linux".toList

/-- `ExitInterface`. -/
structure ExitInterface where
  index : UInt32
  name : Text
  gateway : Option IpAddr
  deriving DecidableEq, Repr

/-- `route_manager::Route`: destination and prefix, and what the code sets or compares. -/
structure Route where
  destination : IpNet
  gateway : Option IpAddr := none
  ifIndex : Option UInt32 := none
  metric : Option UInt32 := none
  table : Nat := 0
  deriving DecidableEq, Repr

/-- `RouteSpec`. -/
structure RouteSpec where
  network : IpNet
  interface : ExitInterface
  deriving DecidableEq, Repr

variable (os : Os)

namespace RouteSpec

/-- `route`. -/
def route (spec : RouteSpec) : Route where
  destination := spec.network.trunc
  gateway := spec.interface.gateway
  ifIndex := some spec.interface.index
  metric := match os with
    | .macos => none
    | _ => some 7
  table := match os with
    | .linux => 254
    | _ => 0

/-- The comparison of `matches` and `matches_existing_windows_route`. -/
def sameKey (spec : RouteSpec) (route : Route) : Bool :=
  spec.network.network == route.destination.network &&
    spec.network.prefixLen == route.destination.prefixLen &&
    route.ifIndex == some spec.interface.index &&
    route.gateway.filter (fun ip => !ip.isUnspecified) == spec.interface.gateway

/-- `matches`. -/
def matchesRoute (spec : RouteSpec) (route : Route) : Bool :=
  match os with
  | .macos => spec.sameKey route
  | _ => route.metric == some 7 && spec.sameKey route

/-- `matches_existing_windows_route`, which only exists there. -/
def matchesExistingWindowsRoute (spec : RouteSpec) (route : Route) : Bool :=
  match os with
  | .windows => spec.sameKey route
  | _ => false

variable {spec : RouteSpec}

/-- An entry recognises its own route unless its gateway is the unspecified address,
which `matches` reads as none. -/
theorem matchesRoute_route {os : Os}
    (h : ∀ ip, spec.interface.gateway = some ip → ip.isUnspecified = false) :
    spec.matchesRoute os (spec.route os) = true := by
  have hgateway : spec.interface.gateway.filter (fun ip => !ip.isUnspecified)
      = spec.interface.gateway := by
    cases hg : spec.interface.gateway with
    | none => rfl
    | some ip => simp [h ip hg]
  have hkey : spec.sameKey (spec.route os) = true := by
    simp [sameKey, route, hgateway, IpNet.network_trunc, IpNet.prefixLen_trunc]
  cases os <;> simp [matchesRoute, hkey] <;> rfl

end RouteSpec

/-- `Journal`. -/
structure Journal where
  format : Nat
  platform : Text
  routes : List RouteSpec
  deriving DecidableEq, Repr

/-- The journal of a transaction that found no file. -/
def Journal.new : Journal := ⟨1, os.name, []⟩

/-- A journal that `open` accepts. -/
def Journal.Supported (j : Journal) : Prop :=
  j.format = 1 ∧ j.platform = os.name ∧ j.routes.length ≤ 4096

instance (os : Os) (j : Journal) : Decidable (j.Supported os) :=
  inferInstanceAs (Decidable (_ ∧ _ ∧ _))

/-- `journal.routes.retain(|r| r != spec)`. -/
def Journal.without (j : Journal) (spec : RouteSpec) : Journal :=
  { j with routes := j.routes.filter (· != spec) }

/-- What the calls work on: the system's routes, the journal file and the transaction's
own journal. -/
structure System where
  routes : List Route
  file : Option Journal
  journal : Journal
  deriving DecidableEq, Repr

/-- Why a call fails. -/
inductive Failure where
  | list
  | add (network : IpNet)
  | delete
  | save
  | removeFile
  | open
  | sizeLimit
  | unsupported
  | routeLimit
  deriving DecidableEq, Repr

/-- A call on the transaction: every operation may fail without effect or be cut off. -/
abbrev Program (α : Type) : Type := Scripted (Verdict Unit) System Failure α

section Transaction

open Scripted

/-- An operation that has its effect or none. -/
def atomic {α : Type} (e : Failure) (act : Program α) : Program α := operation e (fun _ => id) act

/-- `backend.list()`. -/
def list : Program (List Route) :=
  atomic .list do
    return (← get).routes

/-- `backend.add(&route)`. -/
def add (network : IpNet) (route : Route) : Program Unit :=
  atomic (.add network) (modify fun s => { s with routes := s.routes ++ [route] })

/-- `backend.delete(&route)`. -/
def delete (route : Route) : Program Unit :=
  atomic .delete (modify fun s => { s with routes := s.routes.filter (· != route) })

/-- `save`: the file is replaced by renaming, so it is the old one or the new one. -/
def save : Program Unit := atomic .save (modify fun s => { s with file := some s.journal })

/-- `remove`. -/
def remove (spec : RouteSpec) : Program Unit := do
  let routes ← list
  forEach delete (routes.filter (spec.matchesRoute os))

/-- Journals an entry before its route is added. -/
def journalRoute (spec : RouteSpec) : Program Unit := do
  let journal := (← get).journal
  if journal.routes.contains spec then pure ()
  else if journal.routes.length < 4096 then do
    modify fun s => { s with journal.routes := s.journal.routes ++ [spec] }
    save
  else throw .routeLimit

/-- The loop of `apply` over the desired routes. -/
def addMissing (os : Os) : (present : List Route) → List RouteSpec → Program Unit
  | _, [] => pure ()
  | present, spec :: desired =>
    if present.any (spec.matchesExistingWindowsRoute os) || present.any (spec.matchesRoute os) then
      addMissing os present desired
    else do
      journalRoute spec
      add spec.network (spec.route os)
      addMissing os (if os = .windows then present ++ [spec.route os] else present) desired

/-- Removes an entry's routes, and then the entry. -/
def retire (spec : RouteSpec) : Program Unit := do
  remove os spec
  modify fun s => { s with journal := s.journal.without spec }
  save

/-- `apply`. -/
def apply (desired : List RouteSpec) : Program Unit := do
  let replaced := (← get).journal.routes.filter fun old =>
    !desired.contains old && desired.any fun new => new.network == old.network
  forEach (remove os) replaced
  let present ← list
  addMissing os present desired
  let obsolete := (← get).journal.routes.filter fun r => !desired.contains r
  forEach (retire os) obsolete

/-- `restore`. -/
def restore : Program Unit := do
  forEach (retire os) (← get).journal.routes.reverse
  if (← get).file.isSome then
    atomic .removeFile (modify fun s => { s with file := none })

/-- `open`, where `encodedLen` is the length of a journal's JSON text. -/
def openJournal (encodedLen : Journal → Nat) : Program Unit := do
  match (← get).file with
  | none => modify fun s => { s with journal := Journal.new os }
  | some journal => atomic .open do
    if 1024 * 1024 < encodedLen journal then throw .sizeLimit
    else if journal.Supported os then
      modify fun s => { s with journal := journal }
    else throw .unsupported

end Transaction

/-! ## The table without the journaled routes -/

/-- Whether one of the entries stands for the route. -/
def owned (specs : List RouteSpec) (route : Route) : Bool :=
  specs.any fun spec => spec.matchesRoute os route

/-- Without the routes of these entries the table is the initial one. -/
def Clean (initial : List Route) (specs : List RouteSpec) (routes : List Route) : Prop :=
  routes.filter (fun r => !owned os specs r) = initial

variable {os : Os}

section Clean

variable {initial routes : List Route} {specs specs' : List RouteSpec} {spec : RouteSpec}
  {route : Route}

/-- The initial routes are still there. -/
theorem Clean.mem (h : Clean os initial specs routes) (hr : route ∈ initial) : route ∈ routes := by
  rw [← h] at hr
  exact mem_of_mem_filter hr

/-- No entry stands for an initial route. -/
theorem Clean.not_owned (h : Clean os initial specs routes) (hr : route ∈ initial) :
    owned os specs route = false := by
  rw [← h] at hr
  simpa using (mem_filter.mp hr).2

theorem owned_of_mem (hspec : spec ∈ specs) (h : spec.matchesRoute os route = true) :
    owned os specs route = true :=
  any_eq_true.mpr ⟨spec, hspec, h⟩

variable (h : Clean os initial specs routes)
include h

/-- Deleting a route that is not initial. -/
theorem Clean.delete (hnot : route ∉ initial) :
    Clean os initial specs (routes.filter (· != route)) := by
  unfold Clean at h ⊢
  rw [filter_comm, h, filter_eq_self]
  intro r hr
  exact bne_iff_ne.mpr fun heq => hnot (heq ▸ hr)

/-- Adding a route that has an entry. -/
theorem Clean.add (hown : owned os specs route = true) :
    Clean os initial specs (routes ++ [route]) := by
  unfold Clean at h ⊢
  rw [filter_append, h]
  simp [hown]

/-- A further entry that stands for no initial route. -/
theorem Clean.push (hspec : ∀ r ∈ initial, spec.matchesRoute os r = false) :
    Clean os initial (specs ++ [spec]) routes := by
  have hsplit : (fun r => !owned os (specs ++ [spec]) r)
      = fun r => !spec.matchesRoute os r && !owned os specs r := by
    funext r
    simp [owned, Bool.and_comm]
  unfold Clean at h ⊢
  rw [hsplit, ← filter_filter, h, filter_eq_self]
  intro r hr
  rw [hspec r hr]
  rfl

/-- An entry without routes is not needed. -/
theorem Clean.drop (hspec : ∀ r ∈ routes, spec.matchesRoute os r = false) :
    Clean os initial (specs.filter (· != spec)) routes := by
  rw [← h]
  refine filter_congr fun r hr => congrArg (!·) ?_
  rw [Bool.eq_iff_iff]
  constructor
  · intro hown
    obtain ⟨other, hmem, hmatch⟩ := any_eq_true.mp hown
    exact owned_of_mem (mem_of_mem_filter hmem) hmatch
  · intro hown
    obtain ⟨other, hmem, hmatch⟩ := any_eq_true.mp hown
    refine owned_of_mem (mem_filter.mpr ⟨hmem, bne_iff_ne.mpr ?_⟩) hmatch
    rintro rfl
    rw [hspec r hr] at hmatch
    cases hmatch

end Clean

/-! ## The invariant -/

/-- The entries on disk. -/
def System.saved (s : System) : List RouteSpec := (s.file.map Journal.routes).getD []

/-- Both journals, the one in memory and the one on disk, name every route that is not
initial and no initial one. -/
structure Inv (os : Os) (initial : List Route) (s : System) : Prop where
  memory : Clean os initial s.journal.routes s.routes
  disk : Clean os initial s.saved s.routes
  supported : s.journal.Supported os
  supportedFile : ∀ j, s.file = some j → j.Supported os

/-- What is left of it when the transaction is gone. -/
structure Durable (os : Os) (initial : List Route) (s : System) : Prop where
  disk : Clean os initial s.saved s.routes
  supportedFile : ∀ j, s.file = some j → j.Supported os

theorem Inv.durable {os : Os} {initial : List Route} {s : System} (h : Inv os initial s) :
    Durable os initial s :=
  ⟨h.disk, h.supportedFile⟩

/-- The file names all that the transaction has journaled. -/
def Saved (s : System) : Prop := ∀ spec ∈ s.journal.routes, spec ∈ s.saved

section Operations

variable {initial : List Route} {α : Type}

/-- A program that keeps the invariant at its errors and leaves the durable part of it at
a crash; `P` and `Q` say more about start and end. -/
abbrev Holds (os : Os) (initial : List Route) (P : System → Prop) (m : Program α)
    (Q : α → System → Prop) : Prop :=
  Keeps (Inv os initial) (Durable os initial) P m Q

variable {P : System → Prop} {Q : Unit → System → Prop} {specs : List RouteSpec} {spec : RouteSpec}

/-- An operation that has its effect or none keeps what its effect keeps. -/
theorem holds_atomic {Q : α → System → Prop} {e : Failure} {m : Program α}
    (h : Holds os initial P m Q) : Holds os initial P (atomic e m) Q :=
  .operation h (fun _ _ hs _ => hs) fun _ hs => hs.durable

theorem holds_list : Holds os initial P list fun routes s => P s ∧ routes = s.routes :=
  holds_atomic <| .bind (R := fun t s => P s ∧ t = s) (.get fun _ _ hs => ⟨hs, rfl⟩) fun t =>
    .pure fun s _ hs => ⟨hs.1, by rw [hs.2]⟩

/-- The two journals are these. -/
def Journals (j : Journal) (f : Option Journal) (s : System) : Prop := s.journal = j ∧ s.file = f

/-- Deleting a route that is not initial. -/
theorem holds_delete {route : Route} (hnot : ∀ s, P s → route ∉ initial)
    (hQ : ∀ s, P s → Q () { s with routes := s.routes.filter (· != route) }) :
    Holds os initial P (delete route) Q :=
  holds_atomic <| .modify fun s hs hP =>
    ⟨⟨hs.memory.delete (hnot s hP), hs.disk.delete (hnot s hP), hs.supported, hs.supportedFile⟩,
      hQ s hP⟩

/-- The entry stands for no initial route. -/
def Foreign (os : Os) (initial : List Route) (spec : RouteSpec) : Prop :=
  ∀ r ∈ initial, spec.matchesRoute os r = false

theorem Inv.foreign {s : System} (h : Inv os initial s)
    (hspec : spec ∈ s.journal.routes) : Foreign os initial spec := by
  intro r hr
  have hown := h.memory.not_owned hr
  rw [owned, any_eq_false] at hown
  simpa using hown spec hspec

/-- `remove` takes out every route of the entry and leaves the journals alone. The
invariant of its loop: what is still to be removed is in the rest of the list. -/
theorem holds_remove (hspec : Foreign os initial spec) (j : Journal) (f : Option Journal) :
    Holds os initial (Journals j f) (remove os spec) fun _ s =>
      Journals j f s ∧ ∀ r ∈ s.routes, spec.matchesRoute os r = false := by
  refine .bind holds_list fun routes => ?_
  have hnot : ∀ r ∈ routes.filter (spec.matchesRoute os), r ∉ initial := by
    intro r hr hinit
    rw [mem_filter, hspec r hinit] at hr
    exact absurd hr.2 (by decide)
  refine Keeps.conseq (Keeps.forEach (fun rest s => (∀ r ∈ rest, r ∉ initial) ∧ Journals j f s ∧
    ∀ r ∈ s.routes, spec.matchesRoute os r = true → r ∈ rest) ?_ _) ?_ ?_
  · intro route rest
    refine holds_delete (fun s hs => hs.1 route mem_cons_self) ?_
    rintro s ⟨hrest, hjournals, hleft⟩
    refine ⟨fun r hr => hrest r (mem_cons_of_mem _ hr), hjournals, fun r hr hmatch => ?_⟩
    obtain ⟨hmem, hne⟩ := mem_filter.mp hr
    exact (mem_cons.mp (hleft r hmem hmatch)).resolve_left (bne_iff_ne.mp hne)
  · rintro s - ⟨hjournals, rfl⟩
    exact ⟨hnot, hjournals, fun r hr hmatch => mem_filter.mpr ⟨hr, hmatch⟩⟩
  · rintro - s - ⟨-, hjournals, hleft⟩
    refine ⟨hjournals, fun r hr => ?_⟩
    by_contra hmatch
    exact absurd (hleft r hr (by simpa using hmatch)) not_mem_nil

/-- Saving makes the journal on disk the one in memory. -/
theorem holds_save (hQ : ∀ s, P s → Q () { s with file := some s.journal }) :
    Holds os initial P save Q :=
  holds_atomic <| .modify fun s hs hP =>
    ⟨⟨hs.memory, hs.memory, hs.supported, fun _ hj => Option.some.inj hj ▸ hs.supported⟩, hQ s hP⟩

/-- Adding a route that both journals name. -/
theorem holds_add {network : IpNet} {route : Route}
    (hmem : ∀ s, P s → owned os s.journal.routes route = true ∧ owned os s.saved route = true)
    (hQ : ∀ s, P s → Q () { s with routes := s.routes ++ [route] }) :
    Holds os initial P (add network route) Q :=
  holds_atomic <| .modify fun s hs hP =>
    ⟨⟨hs.memory.add (hmem s hP).1, hs.disk.add (hmem s hP).2, hs.supported, hs.supportedFile⟩,
      hQ s hP⟩

/-- What was journaled before the call is on disk after it. The only way out with an
entry in memory alone is a failed save, which is an error. -/
theorem holds_journalRoute (hspec : Foreign os initial spec) :
    Holds os initial Saved (journalRoute spec) fun _ s => Saved s ∧ spec ∈ s.journal.routes := by
  refine .get_bind fun t _ hsaved => ?_
  dsimp only
  split
  · next hold =>
    refine .pure ?_
    rintro s - rfl
    exact ⟨hsaved, contains_iff_mem.mp hold⟩
  · split
    · next hroom =>
      refine .bind (R := fun _ s => spec ∈ s.journal.routes) (.modify ?_) fun _ => holds_save ?_
      · rintro s hs rfl
        refine ⟨⟨hs.memory.push hspec, hs.disk, ⟨hs.supported.1, hs.supported.2.1, ?_⟩,
          hs.supportedFile⟩, mem_append_right _ mem_cons_self⟩
        rw [length_append]
        exact hroom
      · intro s hmem
        exact ⟨fun _ h => h, hmem⟩
    · exact Triple.throw fun s hs => hs.1

/-- The loop over the desired routes: every initial route is among those `present`, so an
entry that none of these matches is foreign. -/
theorem holds_addMissing (desired : List RouteSpec) (present : List Route)
    (hgateway : ∀ spec ∈ desired, spec.matchesRoute os (spec.route os) = true)
    (hpresent : ∀ r ∈ initial, r ∈ present) :
    Holds os initial Saved (addMissing os present desired) fun _ => Saved := by
  induction desired generalizing present with
  | nil => exact .pure fun _ _ hs => hs
  | cons spec desired ih =>
    have hrest : ∀ spec ∈ desired, spec.matchesRoute os (spec.route os) = true :=
      fun other h => hgateway other (mem_cons_of_mem _ h)
    rw [addMissing]
    split
    · exact ih present hrest hpresent
    · next hmissing =>
      rw [Bool.or_eq_true, not_or] at hmissing
      have hforeign : Foreign os initial spec := by
        intro r hr
        by_contra hmatch
        exact hmissing.2 (any_eq_true.mpr ⟨r, hpresent r hr, by simpa using hmatch⟩)
      have hown := hgateway spec mem_cons_self
      refine .bind (holds_journalRoute hforeign) fun _ => .bind (holds_add (Q := fun _ => Saved)
        ?_ ?_) fun _ => ih _ hrest ?_
      · rintro s ⟨hsaved, hmem⟩
        exact ⟨owned_of_mem hmem hown, owned_of_mem (hsaved spec hmem) hown⟩
      · intro s hs
        exact hs.1
      · intro r hr
        split
        · exact mem_append_left _ (hpresent r hr)
        · exact hpresent r hr

/-- `retire` removes an entry together with its routes. -/
theorem holds_retire (hspec : Foreign os initial spec)
    (hQ : ∀ s routes, P s → Q () ⟨routes, some (s.journal.without spec), s.journal.without spec⟩) :
    Holds os initial P (retire os spec) Q := by
  refine .of_state fun s _ hs => ?_
  refine .bind ((holds_remove hspec s.journal s.file).from_state ⟨rfl, rfl⟩) fun _ => .bind
    (R := fun _ t => t.journal = s.journal.without spec) (.modify ?_) fun _ => holds_save ?_
  · rintro t ht ⟨⟨hjournal, -⟩, hnone⟩
    have hlength : (t.journal.without spec).routes.length ≤ 4096 :=
      (length_filter_le _ _).trans ht.supported.2.2
    refine ⟨⟨ht.memory.drop hnone, ht.disk, ⟨ht.supported.1, ht.supported.2.1, hlength⟩,
      ht.supportedFile⟩, ?_⟩
    show t.journal.without spec = _
    rw [hjournal]
  · intro t ht
    have hend := hQ s t.routes hs
    rw [← ht] at hend
    exact hend

/-- Removing the routes of foreign entries leaves the journals alone. -/
theorem holds_forEach_remove (hP : ∀ s routes, P s → P { s with routes })
    (hspecs : ∀ spec ∈ specs, Foreign os initial spec) :
    Holds os initial P (Scripted.forEach (remove os) specs) fun _ => P := by
  refine Keeps.conseq (Keeps.forEach (fun rest s => (∀ spec ∈ rest, Foreign os initial spec) ∧ P s)
    ?_ specs) (fun s _ hs => ⟨hspecs, hs⟩) fun _ s _ hs => hs.2
  intro spec rest
  refine .of_state fun s _ ⟨hforeign, hs⟩ => ((holds_remove (hforeign spec mem_cons_self)
    s.journal s.file).from_state ⟨rfl, rfl⟩).conseq (fun _ _ h => h) ?_
  rintro - t - ⟨⟨hjournal, hfile⟩, -⟩
  have ht := hP s t.routes hs
  rw [← hjournal, ← hfile] at ht
  exact ⟨fun other h => hforeign other (mem_cons_of_mem _ h), ht⟩

/-- Retiring foreign entries one after the other. -/
theorem holds_forEach_retire (I : List RouteSpec → System → Prop)
    (hI : ∀ spec rest s routes, I (spec :: rest) s →
      I rest ⟨routes, some (s.journal.without spec), s.journal.without spec⟩) (hspecs :
    ∀ spec ∈ specs, Foreign os initial spec) :
    Holds os initial (I specs) (Scripted.forEach (retire os) specs) fun _ => I [] := by
  refine Keeps.conseq (Keeps.forEach (fun rest s => (∀ spec ∈ rest, Foreign os initial spec) ∧
    I rest s) ?_ specs) (fun s _ hs => ⟨hspecs, hs⟩) fun _ s _ hs => hs.2
  intro spec rest
  refine .of_state fun s _ ⟨hforeign, hs⟩ => ?_
  refine (holds_retire (P := I (spec :: rest)) (hforeign spec mem_cons_self) ?_).from_state hs
  intro t routes ht
  exact ⟨fun other h => hforeign other (mem_cons_of_mem _ h), hI spec rest t routes ht⟩

/-- **`apply` keeps the invariant**, whatever fails, if the file names all that the
transaction has journaled when it starts. -/
theorem holds_apply {desired : List RouteSpec}
    (hgateway : ∀ spec ∈ desired, spec.matchesRoute os (spec.route os) = true) :
    Holds os initial Saved (apply os desired) fun _ _ => True := by
  refine .get_bind fun t hinv hsaved => ?_
  have hreplaced : ∀ spec ∈ t.journal.routes.filter (fun old => !desired.contains old &&
      desired.any fun new => new.network == old.network), Foreign os initial spec :=
    fun spec h => hinv.foreign (mem_of_mem_filter h)
  refine .bind ((holds_forEach_remove (P := Saved) (fun _ _ h => h) hreplaced).from_state hsaved)
    fun _ => .bind holds_list fun present => .of_state fun s hinv ⟨hsaved, hroutes⟩ => ?_
  have hpresent : ∀ r ∈ initial, r ∈ present := by
    intro r hr
    rw [hroutes]
    exact hinv.memory.mem hr
  refine .bind ((holds_addMissing desired present hgateway hpresent).from_state hsaved) fun _ =>
    .get_bind fun t hinv _ => ?_
  exact (holds_forEach_retire (fun _ _ => True) (fun _ _ _ _ _ => trivial)
    fun spec h => hinv.foreign (mem_of_mem_filter h)).from_state trivial

/-- **`restore` ends with the initial table**, or fails with the invariant kept. -/
theorem holds_restore :
    Holds os initial (fun _ => True) (restore os) fun _ s => s.routes = initial := by
  refine .get_bind fun t hinv _ => ?_
  have hforeign : ∀ spec ∈ t.journal.routes.reverse, Foreign os initial spec :=
    fun spec h => hinv.foreign (mem_reverse.mp h)
  refine .bind ((holds_forEach_retire (fun rest s => ∀ spec ∈ s.journal.routes, spec ∈ rest)
    ?_ hforeign).from_state ?_) fun _ =>
      .bind (R := fun _ s => s.journal.routes = []) (.get ?_) fun u => ?_
  · intro spec rest s routes hleft other h
    obtain ⟨hmem, hne⟩ := mem_filter.mp h
    exact (mem_cons.mp (hleft other hmem)).resolve_left (bne_iff_ne.mp hne)
  · exact fun spec h => mem_reverse.mpr h
  · intro s _ hleft
    exact eq_nil_iff_forall_not_mem.mpr fun spec h => absurd (hleft spec h) not_mem_nil
  · have hroutes : ∀ s, Inv os initial s → s.journal.routes = [] → s.routes = initial := by
      intro s hinv hnil
      have hclean := hinv.memory
      rw [hnil] at hclean
      simpa [Clean, owned] using hclean
    split
    · refine holds_atomic (.modify fun s hinv hnil => ⟨⟨hinv.memory, ?_, hinv.supported, ?_⟩, ?_⟩)
      · have hclean := hinv.memory
        rw [hnil] at hclean
        exact hclean
      · intro j hj
        cases hj
      · exact hroutes s hinv hnil
    · exact .pure fun s hinv hnil => hroutes s hinv hnil

end Operations

/-! ## When nothing fails -/

section

variable {α : Type}

/-- The program returns if nothing fails. -/
def Returns (m : Program α) : Prop := ∀ s, ∃ a t, m [] s = .ok a [] t

theorem returns_atomic {e : Failure} {m : Program α} (h : Returns m) : Returns (atomic e m) := h

theorem returns_modify (f : System → System) : Returns (Scripted.modify f) :=
  fun s => ⟨(), f s, rfl⟩

theorem returns_bind {β : Type} {m : Program β} {f : β → Program α} (hm : Returns m)
    (hf : ∀ b, Returns (f b)) : Returns (m >>= f) := by
  intro s
  obtain ⟨b, t, hb⟩ := hm s
  rw [Scripted.bind_of_ok hb]
  exact hf b t

theorem returns_get : Returns (Scripted.get : Program System) := fun s => ⟨s, s, rfl⟩

theorem returns_pure (a : α) : Returns (Pure.pure a : Program α) := fun s => ⟨a, s, rfl⟩

theorem returns_forEach {β : Type} {f : β → Program Unit} (hf : ∀ b, Returns (f b)) :
    ∀ l, Returns (Scripted.forEach f l)
  | [] => returns_pure ()
  | b :: l => returns_bind (hf b) fun _ => returns_forEach hf l

theorem returns_retire (spec : RouteSpec) : Returns (retire os spec) :=
  returns_bind
    (returns_bind (returns_atomic (returns_bind returns_get fun _ => returns_pure _)) fun _ =>
      returns_forEach (fun _ => returns_atomic (returns_modify _)) _)
    fun _ => returns_bind (returns_modify _) fun _ => returns_atomic (returns_modify _)

/-- `restore` returns. -/
theorem returns_restore : Returns (restore os) := by
  refine returns_bind returns_get fun _ => returns_bind (returns_forEach returns_retire _) fun _ =>
    returns_bind returns_get fun _ => ?_
  split
  · exact returns_atomic (returns_modify _)
  · exact returns_pure ()

/-- A supported journal within the size limit can be opened. -/
theorem openJournal_returns {encodedLen : Journal → Nat} {s : System}
    (hsupported : ∀ j, s.file = some j → j.Supported os)
    (hsize : ∀ j, s.file = some j → encodedLen j ≤ 1024 * 1024) :
    ∃ t, openJournal os encodedLen [] s = .ok () [] t := by
  rw [openJournal, Scripted.get_bind]
  cases hfile : s.file with
  | none => exact ⟨_, rfl⟩
  | some j =>
    dsimp only
    rw [if_neg (Nat.not_lt.mpr (hsize j hfile)), if_pos (hsupported j hfile)]
    exact ⟨_, rfl⟩

end

/-! ## Runs -/

section

variable (os : Os) (encodedLen : Journal → Nat) (initial : List Route)
  (allowed : System → List RouteSpec → Prop)

/-- The states that calls lead to from a fresh transaction: with a transaction open
(`running`), or after the process has ended, when only the file and the routes are left.
`allowed` restricts the calls of `apply`. -/
inductive Reached : (running : Bool) → System → Prop where
  | start : Reached true ⟨initial, none, Journal.new os⟩
  | apply {s desired} (script : List (Verdict Unit)) :
      Reached true s → allowed s desired →
      Reached (apply os desired script s).survived (apply os desired script s).state
  | restore {s} (script : List (Verdict Unit)) :
      Reached true s → Reached (restore os script s).survived (restore os script s).state
  | stop {s} : Reached true s → Reached false s
  | reopen {s t script rest} :
      Reached false s → openJournal os encodedLen script s = .ok () rest t → Reached true t

end

section Recovery

variable {encodedLen : Journal → Nat} {initial : List Route} {s t : System} {running : Bool}

/-- When `apply` is called: the file names all that the transaction has journaled, and no
desired gateway is the unspecified address. -/
def Recoverable (s : System) (desired : List RouteSpec) : Prop :=
  Saved s ∧ ∀ spec ∈ desired, ∀ ip, spec.interface.gateway = some ip → ip.isUnspecified = false

/-- Reopening finds the journal on disk. -/
theorem inv_reopen (h : Durable os initial s) {script rest : List (Verdict Unit)}
    (hopen : openJournal os encodedLen script s = .ok () rest t) : Inv os initial t := by
  have hsaved : s.saved = (s.file.map Journal.routes).getD [] := rfl
  have hspec : Triple (fun u => u = s) (openJournal os encodedLen) (fun _ u => Inv os initial u)
      (fun _ _ => True) (fun _ => True) := by
    refine .bind (R := fun u v => u = s ∧ v = s) (.get ?_) fun u => ?_
    · rintro u rfl
      exact ⟨rfl, rfl⟩
    · cases hfile : u.file with
      | none =>
        refine .modify ?_
        rintro v ⟨rfl, rfl⟩
        have hclean := h.disk
        rw [hsaved, hfile] at hclean
        exact ⟨hclean, h.disk, ⟨rfl, rfl, Nat.zero_le _⟩, h.supportedFile⟩
      | some j =>
        refine Triple.operation ?_ (fun _ _ _ => trivial) (fun _ _ _ => trivial)
        split
        · exact .throw fun _ _ => trivial
        · split
          · next hsupported =>
            refine .modify ?_
            rintro v ⟨rfl, rfl⟩
            have hclean := h.disk
            rw [hsaved, hfile] at hclean
            exact ⟨hclean, h.disk, hsupported, h.supportedFile⟩
          · exact .throw fun _ _ => trivial
  have hend := hspec script s rfl
  rw [hopen] at hend
  exact hend

/-- Every state of a run whose calls are recoverable. -/
theorem Reached.inv (h : Reached os encodedLen initial Recoverable running s) :
    (running = true → Inv os initial s) ∧ Durable os initial s := by
  induction h with
  | start =>
    have hclean : Clean os initial [] initial := by simp [Clean, owned]
    have hinv : Inv os initial ⟨initial, none, Journal.new os⟩ :=
      ⟨hclean, hclean, ⟨rfl, rfl, Nat.zero_le _⟩, fun _ hj => nomatch hj⟩
    exact ⟨fun _ => hinv, hinv.durable⟩
  | @apply s desired script _ hallowed ih =>
    have hgateway : ∀ spec ∈ desired, spec.matchesRoute os (spec.route os) = true :=
      fun spec hspec => RouteSpec.matchesRoute_route (hallowed.2 spec hspec)
    exact (holds_apply hgateway).survives (fun _ => Inv.durable) script ⟨ih.1 rfl, hallowed.1⟩
  | restore script _ ih =>
    exact holds_restore.survives (fun _ => Inv.durable) script ⟨ih.1 rfl, trivial⟩
  | stop _ ih => exact ⟨fun hgone => absurd hgone Bool.false_ne_true, ih.2⟩
  | reopen _ hopen ih =>
    have hinv := inv_reopen ih.2 hopen
    exact ⟨fun _ => hinv, hinv.durable⟩

/-- **Recovery.** After any calls of `apply` and `restore` with any failures, crashes and
reopenings in between: while a transaction is open, `restore` returns only with the initial
route table, and it does return if nothing fails; while none is, the journal can be opened,
if the file is within its size limit. -/
theorem restore_recovers (h : Reached os encodedLen initial Recoverable running s) :
    (running = true →
      (∀ script rest t, restore os script s = .ok () rest t → t.routes = initial) ∧
        ∃ t, restore os [] s = .ok () [] t) ∧
    (running = false → (∀ j, s.file = some j → encodedLen j ≤ 1024 * 1024) →
      ∃ t, openJournal os encodedLen [] s = .ok () [] t) := by
  constructor
  · intro hrunning
    refine ⟨fun script rest t hrun => ?_, ?_⟩
    · have hend := holds_restore script s ⟨h.inv.1 hrunning, trivial⟩
      rw [hrun] at hend
      exact hend.2
    · obtain ⟨_, hrun⟩ := returns_restore s
      exact hrun
  · intro _ hsize
    exact openJournal_returns h.inv.2.supportedFile hsize

/-- Half of the IPv4 addresses through the TUN device. -/
def lowerHalf : RouteSpec := ⟨.v4 ⟨0, 1, by decide⟩, ⟨999, "test-tun".toList, none⟩⟩

/-- The route was added and journaled. -/
def lowerAdded : System :=
  ⟨[lowerHalf.route .linux], some ⟨1, Os.linux.name, [lowerHalf]⟩,
    ⟨1, Os.linux.name, [lowerHalf]⟩⟩

/-- `restore_recovers` after a route was added and the process ended. -/
theorem restore_recovers_lowerHalf :
    Reached .linux (fun _ => 0) [] Recoverable true lowerAdded ∧
      ∀ script rest t, restore .linux script lowerAdded = .ok () rest t → t.routes = [] := by
  have hallowed : Recoverable ⟨[], none, Journal.new .linux⟩ [lowerHalf] := by
    refine ⟨fun spec h => absurd h not_mem_nil, fun spec h ip hip => ?_⟩
    rw [mem_singleton.mp h] at hip
    cases hip
  have happly : Reached .linux (fun _ => 0) [] Recoverable true lowerAdded :=
    .apply [] .start hallowed
  have hopen : openJournal .linux (fun _ => 0) [] lowerAdded = .ok () [] lowerAdded := rfl
  have hagain := happly.stop.reopen hopen
  exact ⟨hagain, ((restore_recovers hagain).1 rfl).1⟩

/-- A save fails, the retried `apply` finds the entry in memory and adds the route without
saving, and the process ends: nothing on disk names the route. -/
theorem unsaved_route_survives :
    ∃ s t, Reached .linux (fun _ => 0) [] (fun _ _ => True) false s ∧ s.file = none ∧
      openJournal .linux (fun _ => 0) [] s = .ok () [] t ∧
      ∃ u, restore .linux [] t = .ok () [] u ∧ u.routes = [lowerHalf.route .linux] := by
  refine ⟨⟨[lowerHalf.route .linux], none, ⟨1, Os.linux.name, [lowerHalf]⟩⟩,
    ⟨[lowerHalf.route .linux], none, Journal.new .linux⟩, ?_, rfl, rfl,
    ⟨[lowerHalf.route .linux], none, Journal.new .linux⟩, rfl, rfl⟩
  have hfailed : Reached .linux (fun _ => 0) [] (fun _ _ => True) true
      ⟨[], none, ⟨1, Os.linux.name, [lowerHalf]⟩⟩ :=
    @Reached.apply _ _ _ _ _ [lowerHalf] [.done, .fails ()] .start trivial
  exact .stop (@Reached.apply _ _ _ _ _ [lowerHalf] [] hfailed trivial)

end Recovery

end Clyntis.Platform
