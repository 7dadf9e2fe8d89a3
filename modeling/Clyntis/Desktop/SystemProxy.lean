import Clyntis.Lib.Scripted
import Clyntis.Lib.Table
import Clyntis.Lib.Text
import Mathlib.Algebra.Order.BigOperators.Group.Multiset
import Mathlib.Algebra.Order.Ring.Nat
import Mathlib.Data.Char
import Mathlib.Data.List.Lex

/-!
# The system proxy (`system_proxy.rs`, `ProxyGuard`)

While the application runs it points the proxy settings of every network service to
itself. A journal file holds, for each service, the settings found and the settings
applied, so that they can be put back after a crash. Another program may change settings
meanwhile; a service in which it did is left alone.

- `restoration`: what a service is put back to, and whether another program was there;
- `enable`, `refresh`, `restore`, `recover`: the guard's calls, as programs that any
  operation may interrupt. Writing a service's settings may stop after some fields;
- `Journal.encodedLen`: the length of the journal's JSON text, which `recover` limits;
- `Step`: calls, crashes, changes of the system's services and of foreign settings;
- `Owed`: where the settings of a service that nobody else changes can be, given what a
  journal says about it.

A value that is an array or an object is kept as its compact JSON text. Numbers are
integers.
-/

namespace Clyntis.Desktop

open Lib List Function Option Table AList Scripted

/-- `serde_json::Value`. Objects have sorted keys, so equal values have equal texts. -/
inductive Value where
  | null
  | bool (b : Bool)
  | number (n : Int)
  | string (s : Text)
  | compound (json : Text)
  deriving DecidableEq, Repr

/-- `Snapshot`. -/
abbrev Snapshot : Type := Map Text Value

/-- `Entry`. -/
structure Entry where
  original : Snapshot
  applied : Snapshot
  deriving DecidableEq

/-- `Journal`. -/
structure Journal where
  port : Option UInt16 := none
  entries : Table Text Entry := ∅

/-! ## The journal as JSON -/

section

/-- The bytes of one character in a JSON string. -/
def escapedLen (c : Char) : Nat :=
  if c ∈ ['"', '\\', '\n', '\r', '\t', '\x08', '\x0c'] then 2
  else if c.toNat < 0x20 then 6
  else c.utf8Size

/-- A JSON string. -/
def quotedLen (s : Text) : Nat := 2 + (s.map escapedLen).sum

/-- The compact JSON text of a value. -/
def Value.encodedLen : Value → Nat
  | null => 4
  | bool b => if b then 4 else 5
  | number n => (toString n).length
  | string s => quotedLen s
  | compound json => json.byteLen

/-- An object, given the lengths of its members: braces, commas, and a colon each. -/
def objectLen (members : Multiset Nat) : Nat :=
  2 + (members.card - 1) + (members.map (· + 1)).sum

def Snapshot.encodedLen (s : Snapshot) : Nat :=
  objectLen (s.entries.map fun e => quotedLen e.1 + e.2.encodedLen)

def Entry.encodedLen (e : Entry) : Nat :=
  objectLen {quotedLen "original".toList + e.original.encodedLen,
    quotedLen "applied".toList + e.applied.encodedLen}

/-- `serde_json::to_vec(&self.journal)`. -/
def Journal.encodedLen (j : Journal) : Nat :=
  objectLen {quotedLen "port".toList + (j.port.map fun p => (toString p).length).getD 4,
    quotedLen "entries".toList +
      objectLen (j.entries.entries.map fun e => quotedLen e.1 + e.2.encodedLen)}

end

/-! ## The guard -/

/-- The systems the guard is compiled for. -/
inductive Platform where
  | macos
  | windows
  | other
  deriving DecidableEq, Repr

variable (platform : Platform)

/-- `desired`. -/
def desired (original : Snapshot) (port : UInt16) : Snapshot :=
  match platform with
  | .macos =>
    let values := ["HTTP", "HTTPS", "SOCKS"].foldl (fun (values : Snapshot) kind =>
      ((values.insert (kind ++ "Enable").toList (.number 1)).insert
        (kind ++ "Proxy").toList (.string "127.0.0.1".toList)).insert
        (kind ++ "Port").toList (.number port.toNat)) original
    (values.insert "ProxyAutoConfigEnable".toList (.number 0)).insert
      "ProxyAutoDiscoveryEnable".toList (.number 0)
  | .windows =>
    let server := "127.0.0.1:" ++ toString port
    (((original.insert "ProxyEnable".toList
      (.compound "\x7b\"kind\":\"DWord\",\"value\":1\x7d".toList)).insert
      "ProxyServer".toList (.compound ("\x7b\"kind\":\"String\",\"value\":\"http=" ++ server ++
        ";https=" ++ server ++ ";socks=" ++ server ++ "\"\x7d").toList)).insert
      "AutoConfigURL".toList .null).insert
      "ConnectionFlags".toList (.compound "\x7b\"kind\":\"DWord\",\"value\":3\x7d".toList)
  | .other => original

/-- Some journaled field holds a value that is neither the original nor the applied one. -/
def Conflict (current : Snapshot) (entry : Entry) : Prop :=
  ∃ key ∈ entry.applied.keys, current.lookup key ≠ entry.applied.lookup key ∧
    current.lookup key ≠ entry.original.lookup key

instance (current : Snapshot) (entry : Entry) : Decidable (Conflict current entry) :=
  inferInstanceAs (Decidable (∃ key ∈ entry.applied.keys, _))

/-- `restoration`. -/
def restoration (current : Snapshot) (entry : Entry) : Snapshot × Bool :=
  if Conflict current entry then (current, true)
  else (entry.original ∪ current, false)

/-- Writes the fields of `target` that `p` selects. A service has a fixed set of fields. -/
def Snapshot.writeFields (p : Text → Bool) (target current : Snapshot) : Snapshot :=
  current.mapValues fun key value => if p key then (target.lookup key).getD value else value

/-- What the calls work on: the services there are, their settings, the journal file and
the guard's own journal. `dropped` is history: the entries that left the guard's journal,
with the settings of the service at that moment. -/
structure World where
  services : List Text
  settings : Text → Snapshot
  file : Option Journal
  journal : Journal
  dropped : List (Text × Entry × Snapshot)

variable (service : Text)

/-- Writes some fields of a service. -/
def World.write (target : Snapshot) (p : Text → Bool) (s : World) : World :=
  { s with
    settings := update s.settings service
      (Snapshot.writeFields p target (s.settings service)) }

/-- Journals a service in memory. -/
def World.insert (service : Text) (entry : Entry) (s : World) : World :=
  { s with journal := { s.journal with entries := s.journal.entries.insert service entry } }

/-- Takes a service out of the journal in memory. -/
def World.drop (entry : Entry) (s : World) : World :=
  { s with
    journal := { s.journal with entries := s.journal.entries.erase service }
    dropped := (service, entry, s.settings service) :: s.dropped }

/-- Sets the journaled port. -/
def World.setPort (port : Option UInt16) (s : World) : World :=
  { s with journal := { s.journal with port } }

/-- Why a call fails. In `unrestored`, a service without a failure was changed by another
program. -/
inductive Failure where
  | services
  | snapshot
  | apply
  | save
  | removeFile
  | read
  | sizeLimit
  | invalidPort
  | unrestored (problems : List (Text × Option Failure))

/-- A call of the guard. Writing settings may stop after some fields; every other operation
has its effect or none. -/
abbrev Program (α : Type) : Type := Scripted (Verdict (List Text)) World Failure α

section ProxyGuard

open Scripted

/-- An operation that has its effect or none. -/
def atomic {α : Type} (e : Failure) (act : Program α) : Program α := operation e (fun _ => id) act

/-- `services`. -/
def services : Program (List Text) :=
  atomic .services do
    return (← get).services

/-- `snapshot`. -/
def snapshot (service : Text) : Program Snapshot :=
  atomic .snapshot do
    return (← get).settings service

/-- `apply`. -/
def apply (service : Text) (target : Snapshot) : Program Unit :=
  operation .apply (fun keys => World.write service target keys.contains)
    (modify (World.write service target fun _ => true))

/-- `save`. -/
def save : Program Unit := atomic .save (modify fun s => { s with file := some s.journal })

/-- The loop body of `refresh`. -/
def refreshService (port : UInt16) (service : Text) : Program Unit := do
  if ((← get).journal.entries.lookup service).isSome then pure ()
  else
    let original ← snapshot service
    let applied := desired platform original port
    modify (World.insert service ⟨original, applied⟩)
    save
    apply service applied

/-- `refresh`. -/
def refresh : Program Unit := do
  match (← get).journal.port with
  | none => pure ()
  | some port => forEach (refreshService platform port) (← services)

/-- `enable`. -/
def enable (port : UInt16) : Program Unit :=
  if 1024 ≤ port then do
    modify (World.setPort (some port))
    refresh platform
  else throw .invalidPort

/-- Puts one service back; tells whether another program changed it. -/
def restoreService (entry : Entry) : Program Bool := do
  let current ← snapshot service
  let outcome := restoration current entry
  (if outcome.1 ≠ current then apply service outcome.1 else pure ())
  return outcome.2

/-- The loop of `restore`, with the errors it collects. -/
def restoreAll : List (Sigma fun _ : Text => Entry) → Program (List (Text × Option Failure))
  | [] => pure []
  | ⟨service, entry⟩ :: rest => do
    match ← attempt (restoreService service entry) with
    | .ok conflict => do
      modify (World.drop service entry)
      let problems ← restoreAll rest
      return if conflict then (service, none) :: problems else problems
    | .error e => do
      let problems ← restoreAll rest
      return (service, some e) :: problems

/-- Saves what is left of the journal, or removes the file. -/
def saveRest : Program Unit := do
  modify (World.setPort none)
  if (← get).journal.entries.entries.isEmpty then
    atomic .removeFile (modify fun s => { s with file := none })
  else save

/-- `restore`. -/
def restore : Program Unit := do
  let problems ← restoreAll (← get).journal.entries.sorted
  saveRest
  if problems.isEmpty then pure () else throw (.unrestored problems)

/-- Reads the journal file. -/
def readJournal : Program Unit := do
  match (← get).file with
  | none => modify fun s => { s with journal := ⟨none, ∅⟩ }
  | some journal => atomic .read do
    if 1024 * 1024 < journal.encodedLen then throw .sizeLimit
    else modify fun s => { s with journal := journal }

/-- `recover`. A guard that cannot restore is dropped, and its `drop` tries once more. -/
def recover : Program Unit := do
  readJournal
  match ← attempt restore with
  | .ok _ => pure ()
  | .error e => do
    let _ ← attempt restore
    throw e

end ProxyGuard

/-! ## Writing and putting back -/

variable {e : Entry}

section Restoration

variable {p : Text → Bool} {target current original : Snapshot} {key : Text} {o : Option Entry}

/-- A written field is the target's; every other one is as it was. -/
theorem lookup_writeFields (p : Text → Bool) (target current : Snapshot) (key : Text) :
    (Snapshot.writeFields p target current).lookup key = current.lookup key ∨
      (Snapshot.writeFields p target current).lookup key = target.lookup key := by
  unfold Snapshot.writeFields
  rw [Map.lookup_mapValues]
  cases hcurrent : current.lookup key with
  | none => exact .inl rfl
  | some value =>
    cases htarget : target.lookup key with
    | none => exact .inl (by simp)
    | some written =>
      cases p key with
      | false => exact .inl (by simp)
      | true => exact .inr (by simp)

/-- Writing every field. -/
theorem writeFields_all (h : target.keys = current.keys) :
    Snapshot.writeFields (fun _ => true) target current = target := by
  refine Finmap.ext_lookup fun key => ?_
  unfold Snapshot.writeFields
  rw [Map.lookup_mapValues]
  have hmem : key ∈ target ↔ key ∈ current := by
    rw [← Finmap.mem_keys, h, Finmap.mem_keys]
  cases htarget : target.lookup key with
  | none =>
    rw [Finmap.lookup_eq_none, hmem, ← Finmap.lookup_eq_none] at htarget
    rw [htarget]
    rfl
  | some value =>
    obtain ⟨old, hold⟩ := Finmap.mem_iff.mp (hmem.mp (Finmap.mem_of_lookup_eq_some htarget))
    rw [hold]
    simp

/-- With the fields of the service, what `restoration` puts back is the original. -/
theorem restoration_eq (h : e.original.keys = current.keys) :
    restoration current e
      = if Conflict current e then (current, true) else (e.original, false) := by
  have hunion : e.original ∪ current = e.original := by
    refine Finmap.ext_lookup fun key => ?_
    by_cases hmem : key ∈ e.original
    · exact Finmap.lookup_union_left hmem
    · rw [Finmap.lookup_union_right hmem, Finmap.lookup_eq_none.mpr hmem, Finmap.lookup_eq_none,
        ← Finmap.mem_keys, ← h]
      exact hmem
  rw [restoration, hunion]

/-- Every field holds its original or its applied value. -/
def Between (e : Entry) (current : Snapshot) : Prop :=
  ∀ key, current.lookup key = e.original.lookup key ∨ current.lookup key = e.applied.lookup key

theorem Between.not_conflict (h : Between e current) : ¬ Conflict current e := by
  rintro ⟨key, -, happlied, horiginal⟩
  exact (h key).elim horiginal happlied

/-- Where the settings of a service can be, given what a journal says about it: they are the
original ones, or on the way from these to the applied ones. -/
def Owed (original : Snapshot) : Option Entry → Snapshot → Prop
  | none, current => current = original
  | some e, current => e.original = original ∧ Between e current

/-- A journal owes nothing for a service that has its original settings. -/
theorem Owed.of_original (h : ∀ e, o = some e → e.original = original) :
    Owed original o original := by
  cases o with
  | none => rfl
  | some e => exact ⟨h e rfl, fun key => .inl (by rw [h e rfl])⟩

/-- Writing some of the original values. -/
theorem Owed.write_original (h : Owed original o current) :
    Owed original o (Snapshot.writeFields p original current) := by
  cases o with
  | none =>
    obtain rfl : current = original := h
    refine Finmap.ext_lookup fun key => ?_
    exact (lookup_writeFields p current current key).elim id id
  | some e =>
    refine ⟨h.1, fun key => ?_⟩
    rcases lookup_writeFields p original current key with hkey | hkey
    · rw [hkey]
      exact h.2 key
    · rw [hkey, h.1]
      exact .inl rfl

/-- Writing some of the applied values. -/
theorem Owed.write_applied (h : Owed original (some e) current) :
    Owed original (some e) (Snapshot.writeFields p e.applied current) := by
  refine ⟨h.1, fun key => ?_⟩
  rcases lookup_writeFields p e.applied current key with hkey | hkey
  · rw [hkey]
    exact h.2 key
  · exact .inr hkey

end Restoration

/-! ## The invariant -/

/-- The entries on disk. -/
def World.saved (s : World) : Table Text Entry := (s.file.map Journal.entries).getD ∅

/-- What a run is judged by: the settings at its start, the services that another program
changes, and entries that have been on disk. -/
structure Past where
  initial : Text → Snapshot
  foreign : Text → Prop
  promised : Text → Entry → Prop

/-- A journal's entries have the services' fields, and are right about those that nobody
else changes. -/
def Agrees (past : Past) (entries : Table Text Entry) (settings : Text → Snapshot) : Prop :=
  ∀ service,
    (∀ e, entries.lookup service = some e → e.original.keys = (past.initial service).keys) ∧
    (¬ past.foreign service →
      Owed (past.initial service) (entries.lookup service) (settings service))

variable {past : Past}

section Agrees

variable {entries : Table Text Entry} {settings : Text → Snapshot} {service : Text}
  (h : Agrees past entries settings)
include h

theorem Agrees.update {new : Snapshot}
    (hnew : ¬ past.foreign service → Owed (past.initial service) (entries.lookup service) new) :
    Agrees past entries (update settings service new) := by
  intro other
  refine ⟨(h other).1, fun hown => ?_⟩
  by_cases hother : other = service
  · subst hother
    rw [update_self]
    exact hnew hown
  · rw [update_of_ne hother]
    exact (h other).2 hown

theorem Agrees.insert (hkeys : e.original.keys = (past.initial service).keys)
    (howed : ¬ past.foreign service → Owed (past.initial service) (some e) (settings service)) :
    Agrees past (entries.insert service e) settings := by
  intro other
  by_cases hother : other = service
  · subst hother
    rw [lookup_insert]
    exact ⟨fun e' he => Option.some.inj he ▸ hkeys, howed⟩
  · rw [lookup_insert_ne hother]
    exact h other

theorem Agrees.erase (howed : ¬ past.foreign service → settings service = past.initial service) :
    Agrees past (entries.erase service) settings := by
  intro other
  by_cases hother : other = service
  · subst hother
    rw [lookup_erase]
    exact ⟨fun e he => (some_ne_none e he.symm).elim, howed⟩
  · rw [lookup_erase_ne hother]
    exact h other

end Agrees

/-- What holds whether or not the process is there. A promised entry is still there or was
dropped, and an entry is dropped only when its service has the original settings or was changed
by another program. -/
structure Durable (past : Past) (s : World) : Prop where
  keys : ∀ service, (s.settings service).keys = (past.initial service).keys
  disk : Agrees past s.saved s.settings
  promised : ∀ service e, past.promised service e →
    s.saved.lookup service = some e ∨ ∃ current, (service, e, current) ∈ s.dropped
  settled : ∀ service e current, (service, e, current) ∈ s.dropped →
    current = e.original ∨ Conflict current e

/-- What holds while a guard is there. -/
structure Inv (past : Past) (s : World) : Prop extends Durable past s where
  memory : Agrees past s.journal.entries s.settings
  pending : ∀ service e, s.saved.lookup service = some e →
    s.journal.entries.lookup service = some e ∨ ∃ current, (service, e, current) ∈ s.dropped

section Operations

variable {platform : Platform} {s : World} {service : Text} (h : Inv past s)
  {target : Snapshot}
include h

theorem Inv.setPort (port : Option UInt16) : Inv past (s.setPort port) :=
  ⟨⟨h.keys, h.disk, h.promised, h.settled⟩, h.memory, h.pending⟩

/-- Writing some fields of a service to what both journals allow. -/
theorem Inv.write {p : Text → Bool}
    (hdisk : ¬ past.foreign service → Owed (past.initial service) (s.saved.lookup service)
      (Snapshot.writeFields p target (s.settings service)))
    (hmemory : ¬ past.foreign service → Owed (past.initial service)
      (s.journal.entries.lookup service) (Snapshot.writeFields p target (s.settings service))) :
    Inv past (s.write service target p) := by
  refine ⟨⟨fun other => ?_, h.disk.update hdisk, h.promised, h.settled⟩, h.memory.update hmemory,
    h.pending⟩
  by_cases hother : other = service
  · subst hother
    show (update s.settings other _ other).keys = _
    rw [update_self, Snapshot.writeFields, Map.keys_mapValues]
    exact h.keys other
  · show (update s.settings service _ other).keys = _
    rw [update_of_ne hother]
    exact h.keys other

/-- Journaling a service that is not in memory yet. -/
theorem Inv.insert (hnone : s.journal.entries.lookup service = none)
    (horiginal : e.original = s.settings service) : Inv past (s.insert service e) := by
  refine ⟨⟨h.keys, h.disk, h.promised, h.settled⟩,
    h.memory.insert (horiginal ▸ h.keys service) fun hown => ?_, ?_⟩
  · have hcurrent := (h.memory service).2 hown
    rw [hnone] at hcurrent
    rw [show s.settings service = past.initial service from hcurrent] at horiginal ⊢
    exact Owed.of_original fun e' he => Option.some.inj he ▸ horiginal
  · intro other e' he'
    show (s.journal.entries.insert service e).lookup other = some e' ∨ _
    by_cases hother : other = service
    · subst hother
      refine .inr ((h.pending other e' he').resolve_left ?_)
      rw [hnone]
      exact fun hcontra => some_ne_none e' hcontra.symm
    · rw [lookup_insert_ne hother]
      exact h.pending other e' he'

/-- Dropping an entry whose service has been dealt with. -/
theorem Inv.drop (hentry : s.journal.entries.lookup service = some e)
    (hsettled : s.settings service = e.original ∨ Conflict (s.settings service) e) :
    Inv past (s.drop service e) := by
  have hlater : ∀ {other e'}, (∃ current, (other, e', current) ∈ s.dropped) →
      ∃ current, (other, e', current) ∈ (s.drop service e).dropped :=
    fun ⟨current, hmem⟩ => ⟨current, mem_cons_of_mem _ hmem⟩
  refine ⟨⟨h.keys, h.disk, fun other e' he' => (h.promised other e' he').imp_right hlater, ?_⟩,
    h.memory.erase fun hown => ?_, ?_⟩
  · intro other e' current hmem
    rcases mem_cons.mp hmem with heq | hold
    · cases heq
      exact hsettled
    · exact h.settled other e' current hold
  · have howed := (h.memory service).2 hown
    rw [hentry] at howed
    refine (hsettled.resolve_right howed.2.not_conflict).trans howed.1
  · intro other e' he'
    show (s.journal.entries.erase service).lookup other = some e' ∨ _
    by_cases hother : other = service
    · subst hother
      refine .inr ?_
      rcases h.pending other e' he' with hmemory | hdropped
      · rw [hentry] at hmemory
        cases hmemory
        exact ⟨_, mem_cons_self⟩
      · exact hlater hdropped
    · rw [lookup_erase_ne hother]
      exact (h.pending other e' he').imp_right hlater

/-- Making the file say what the memory says. -/
theorem Inv.save {file : Option Journal}
    (hfile : (file.map Journal.entries).getD ∅ = s.journal.entries) :
    Inv past { s with file := file } := by
  have hsaved : World.saved { s with file := file } = s.journal.entries := hfile
  refine ⟨⟨h.keys, ?_, fun other e' he' => ?_, h.settled⟩, h.memory, fun other e' he' => ?_⟩
  · rw [hsaved]
    exact h.memory
  · rw [hsaved]
    rcases h.promised other e' he' with hold | hdropped
    · exact h.pending other e' hold
    · exact .inr hdropped
  · rw [hsaved] at he'
    exact .inl he'

omit h

/-! ## The calls keep it -/

section

variable {α : Type} {P : World → Prop} {I : World → Prop}
  (hI : ∀ s, I s → Durable past s) {Q : Unit → World → Prop}
include hI

theorem keeps_atomic {Q : α → World → Prop} {failure : Failure} {m : Program α}
    (h : Keeps I (Durable past) P m Q) :
    Keeps I (Durable past) P (atomic failure m) Q :=
  .operation h (fun _ _ hs _ => hs) hI

theorem keeps_snapshot : Keeps I (Durable past) P (snapshot service)
      fun current s => P s ∧ current = s.settings service :=
  keeps_atomic hI <| .bind (R := fun t s => P s ∧ t = s) (.get fun _ _ hs => ⟨hs, rfl⟩) fun t =>
    .pure fun s _ hs => ⟨hs.1, by rw [hs.2]⟩

/-- Writing settings keeps what every partial write keeps. -/
theorem keeps_apply (hwrite : ∀ s p, I s → P s → I (s.write service target p))
    (hQ : ∀ s, I s → P s → Q () (s.write service target fun _ => true)) :
    Keeps I (Durable past) P (apply service target) Q :=
  .operation (.modify fun s hs hP => ⟨hwrite s _ hs hP, hQ s hs hP⟩)
    (fun keys s hs hP => hwrite s keys.contains hs hP) hI

omit hI

theorem keeps_save (hQ : ∀ s, P s → Q () { s with file := some s.journal }) :
    Keeps (Inv past) (Durable past) P save Q :=
  keeps_atomic (fun _ hs => hs.toDurable) (.modify fun s hs hP => ⟨hs.save rfl, hQ s hP⟩)

/-- A service is journaled, then saved, and only then written. -/
theorem keeps_refreshService (port : UInt16) :
    Keeps (Inv past) (Durable past) (fun _ => True)
      (refreshService platform port service) fun _ _ => True := by
  refine .get_bind fun t _ _ => ?_
  split
  · exact .pure fun _ _ _ => trivial
  · next habsent =>
    rw [not_isSome_iff_eq_none] at habsent
    refine .bind (keeps_snapshot fun _ hs => hs.toDurable) fun original => ?_
    refine .bind (R := fun _ s => s.journal.entries.lookup service
      = some ⟨original, desired platform original port⟩) (.modify ?_) fun _ => ?_
    · rintro s hs ⟨rfl, rfl⟩
      exact ⟨hs.insert habsent rfl, lookup_insert _⟩
    refine .bind (R := fun _ s => s.journal.entries.lookup service
      = some ⟨original, desired platform original port⟩ ∧ s.saved = s.journal.entries)
      (keeps_save fun s hs => ⟨hs, rfl⟩) fun _ => ?_
    refine keeps_apply (fun _ hs => hs.toDurable) ?_ fun _ _ _ => trivial
    rintro s p hs ⟨hentry, hsaved⟩
    have hwritten : ¬ past.foreign service → Owed (past.initial service)
        (s.journal.entries.lookup service)
        (Snapshot.writeFields p (desired platform original port) (s.settings service)) := by
      intro hown
      have howed := (hs.memory service).2 hown
      rw [hentry] at howed ⊢
      exact howed.write_applied
    refine hs.write ?_ hwritten
    rw [hsaved]
    exact hwritten

theorem keeps_refresh :
    Keeps (Inv past) (Durable past) (fun _ => True) (refresh platform) fun _ _ => True := by
  refine .get_bind fun t _ _ => ?_
  cases t.journal.port with
  | none => exact .pure fun _ _ _ => trivial
  | some port =>
    refine .bind (R := fun _ _ => True) (keeps_atomic (fun _ hs => hs.toDurable)
      (.get_bind fun _ _ _ => .pure fun _ _ _ => trivial)) fun services => ?_
    exact Keeps.forEach (fun _ _ => True) (fun service _ => keeps_refreshService port) services

theorem keeps_enable (port : UInt16) :
    Keeps (Inv past) (Durable past) (fun _ => True) (enable platform port) fun _ _ => True := by
  unfold enable
  split
  · exact .bind (R := fun _ _ => True) (.modify fun _ hs _ => ⟨hs.setPort _, trivial⟩) fun _ =>
      keeps_refresh
  · exact .throw

/-- Putting a service back: it ends with its original settings, or another program changed
them and they are as they were. -/
theorem keeps_restoreService {j : Journal} (hentry : j.entries.lookup service = some e) :
    Keeps (fun s => Inv past s ∧ s.journal = j)
      (Durable past) (fun _ => True) (restoreService service e)
      fun _ s => s.settings service = e.original ∨ Conflict (s.settings service) e := by
  refine .bind (keeps_snapshot fun _ hs => hs.1.toDurable) fun current => ?_
  refine .of_state ?_
  rintro s ⟨hs, hjournal⟩ ⟨-, rfl⟩
  rw [← hjournal] at hentry
  have hkeys : e.original.keys = (s.settings service).keys :=
    ((hs.memory service).1 e hentry).trans (hs.keys service).symm
  rw [restoration_eq hkeys]
  by_cases hconflict : Conflict (s.settings service) e
  · rw [if_pos hconflict]
    refine .bind (R := fun _ t => t = s) ?_ fun _ => .pure ?_
    · rw [if_neg (fun hne => hne rfl)]
      exact .pure fun _ _ ht => ht
    · rintro t - rfl
      exact .inr hconflict
  · rw [if_neg hconflict]
    refine .bind (R := fun _ t => t.settings service = e.original) ?_ fun _ =>
      .pure fun _ _ ht => .inl ht
    split
    · refine keeps_apply (fun _ hs => hs.1.toDurable) ?_ ?_
      · rintro t p ⟨ht, hjournal⟩ rfl
        have horiginal : ¬ past.foreign service → e.original = past.initial service := by
          intro hown
          have howed := (ht.memory service).2 hown
          rw [hentry] at howed
          exact howed.1
        refine ⟨ht.write (fun hown => ?_) fun hown => ?_, hjournal⟩
        · rw [horiginal hown]
          exact ((ht.disk service).2 hown).write_original
        · rw [horiginal hown]
          exact ((ht.memory service).2 hown).write_original
      · rintro t - rfl
        show update t.settings service _ service = _
        rw [update_self]
        exact writeFields_all hkeys
    · next heq =>
      refine .pure ?_
      rintro t - rfl
      exact (not_not.mp heq).symm

/-- The loop of `restore`: what is still to come is in memory. -/
theorem keeps_restoreAll (rest : List (Sigma fun _ : Text => Entry)) (hnodup : rest.NodupKeys) :
    Keeps (Inv past) (Durable past)
      (fun s => ∀ x ∈ rest, s.journal.entries.lookup x.1 = some x.2) (restoreAll rest)
      fun _ _ => True := by
  induction rest with
  | nil => exact .pure fun _ _ _ => trivial
  | cons x rest ih =>
    obtain ⟨service, entry⟩ := x
    obtain ⟨hfirst, hrest⟩ := nodupKeys_cons.mp hnodup
    refine .of_state fun s hs hentries => ?_
    have hentry := hentries _ mem_cons_self
    have hlater := fun x hx => hentries x (mem_cons_of_mem _ hx)
    have hattempt : Keeps (fun t => Inv past t ∧ t.journal = s.journal)
        (Durable past) (fun _ => True)
        (Scripted.attempt (restoreService service entry)) fun r t => ∀ conflict,
          r = .ok conflict →
            t.settings service = entry.original ∨ Conflict (t.settings service) entry := by
      refine .attempt ((keeps_restoreService hentry).conseq (fun _ _ h => h)
        fun _ _ _ h _ _ => h) fun failure t _ conflict h => ?_
      cases h
    refine .bind (R := fun r t => t.journal = s.journal ∧ ∀ conflict, r = .ok conflict →
      t.settings service = entry.original ∨ Conflict (t.settings service) entry) ?_ fun r => ?_
    · refine hattempt.under ?_ (fun _ ht => ht.1) fun _ _ ht hq => ⟨ht.2, hq⟩
      rintro t ht rfl
      exact ⟨⟨ht, rfl⟩, trivial⟩
    · cases r with
      | error failure =>
        refine .bind ((ih hrest).conseq ?_ fun _ _ _ h => h) fun _ => .pure fun _ _ _ => trivial
        rintro t - ⟨ht, -⟩
        rw [ht]
        exact hlater
      | ok conflict =>
        refine .bind (R := fun _ t => ∀ x ∈ rest, t.journal.entries.lookup x.1 = some x.2)
          (.modify ?_) fun _ => .bind (ih hrest) fun _ => .pure fun _ _ _ => trivial
        rintro t ht ⟨hjournal, hsettled⟩
        refine ⟨ht.drop (hjournal ▸ hentry) (hsettled conflict rfl), fun x hx => ?_⟩
        show (t.journal.entries.erase service).lookup x.1 = some x.2
        have hne : x.1 ≠ service := fst_ne_of_notMem_keys hfirst hx
        rw [lookup_erase_ne hne, hjournal]
        exact hlater x hx

theorem keeps_saveRest :
    Keeps (Inv past) (Durable past) (fun _ => True) saveRest fun _ _ => True := by
  refine .bind (R := fun _ _ => True) (.modify fun _ hs _ => ⟨hs.setPort _, trivial⟩) fun _ =>
    .get_bind fun t _ _ => ?_
  split
  · next hempty =>
    refine keeps_atomic (fun _ hs => hs.toDurable) (.modify ?_)
    rintro s hs rfl
    refine ⟨hs.save ?_, trivial⟩
    exact (AList.ext (isEmpty_iff.mp hempty)).symm
  · exact keeps_save fun _ _ => trivial

theorem keeps_restore :
    Keeps (Inv past) (Durable past) (fun _ => True) restore fun _ _ => True := by
  refine .get_bind fun t _ _ => ?_
  refine .bind ((keeps_restoreAll _ nodupKeys_sorted).from_state
    fun x hx => mem_sorted.mp hx) fun problems => .bind keeps_saveRest fun _ => ?_
  split
  · exact .pure fun _ _ _ => trivial
  · exact .throw

/-- Reading the journal makes the memory say what the file says. -/
theorem triple_readJournal :
    Triple (Durable past) readJournal
      (fun _ => Inv past) (fun _ => Durable past)
      (Durable past) := by
  refine .bind (R := fun t s => t = s ∧ Durable past s)
    (.get fun _ hs => ⟨rfl, hs⟩) fun t => ?_
  have hread : ∀ journal : Journal, journal.entries = t.saved →
      Triple (fun s => t = s ∧ Durable past s)
        (Scripted.modify fun s => { s with journal := journal } : Program Unit)
        (fun _ => Inv past) (fun _ => Durable past)
        (Durable past) := by
    intro journal hjournal
    refine .modify ?_
    rintro s ⟨rfl, hs⟩
    refine ⟨⟨hs.keys, hs.disk, hs.promised, hs.settled⟩, ?_, fun service e he => .inl ?_⟩
    · show Agrees past journal.entries t.settings
      rw [hjournal]
      exact hs.disk
    · show journal.entries.lookup service = some e
      rw [hjournal]
      exact he
  cases hfile : t.file with
  | none =>
    refine hread _ ?_
    unfold World.saved
    rw [hfile]
    rfl
  | some journal =>
    refine Triple.operation ?_ (fun _ _ hs => hs.2) fun _ _ hs => hs.2
    split
    · exact .throw fun _ hs => hs.2
    · refine hread journal ?_
      unfold World.saved
      rw [hfile]
      rfl

theorem triple_recover :
    Triple (Durable past) recover (fun _ => Inv past)
      (fun _ => Durable past) (Durable past) := by
  refine .bind triple_readJournal fun _ => ?_
  have hattempt : Triple (Inv past) (Scripted.attempt restore)
      (fun _ => Inv past) (fun _ => Durable past)
      (Durable past) :=
    .attempt (Triple.conseq keeps_restore (fun _ hs => ⟨hs, trivial⟩) (fun _ _ hs => hs.1)
      (fun _ _ hs => hs) fun _ hs => hs)
  refine .bind hattempt fun r => ?_
  cases r with
  | ok a => exact .pure fun _ hs => hs
  | error failure => exact .bind hattempt fun _ => .throw fun _ hs => hs.toDurable

end

end Operations

/-! ## When nothing fails -/

section

variable {s : World} {service : Text}

/-- The service put back. -/
def World.put (service : Text) (e : Entry) (s : World) : World :=
  { s with
    settings := update s.settings service (restoration (s.settings service) e).1 }

/-- All services put back, and their entries dropped. -/
def World.putAll : List (Sigma fun _ : Text => Entry) → World → World
  | [], s => s
  | ⟨service, e⟩ :: rest, s => putAll rest ((s.put service e).drop service e)

/-- What becomes of the settings when the services are put back. -/
def recovered (settings : Text → Snapshot) (entries : Table Text Entry) (service : Text) :
    Snapshot :=
  match entries.lookup service with
  | none => settings service
  | some e => (restoration (settings service) e).1

variable {rest : List (Sigma fun _ : Text => Entry)}

theorem putAll_of_notMem (h : service ∉ rest.keys) :
    (s.putAll rest).settings service = s.settings service ∧
      (s.putAll rest).journal.entries.lookup service = s.journal.entries.lookup service := by
  induction rest generalizing s with
  | nil => exact ⟨rfl, rfl⟩
  | cons x rest ih =>
    rw [keys_cons, mem_cons, not_or] at h
    obtain ⟨hsettings, hlookup⟩ := @ih ((s.put x.1 x.2).drop x.1 x.2) h.2
    refine ⟨hsettings.trans ?_, hlookup.trans ?_⟩
    · exact update_of_ne h.1 _ _
    · exact lookup_erase_ne h.1

theorem putAll_of_mem (hnodup : rest.NodupKeys) (h : ⟨service, e⟩ ∈ rest) :
    (s.putAll rest).settings service = (restoration (s.settings service) e).1 ∧
      (s.putAll rest).journal.entries.lookup service = none := by
  induction rest generalizing s with
  | nil => exact absurd h not_mem_nil
  | cons x rest ih =>
    obtain ⟨hfirst, hrest⟩ := nodupKeys_cons.mp hnodup
    rcases mem_cons.mp h with rfl | hmem
    · obtain ⟨hsettings, hlookup⟩ := @putAll_of_notMem ((s.put service e).drop service e) _ _ hfirst
      refine ⟨hsettings.trans ?_, hlookup.trans ?_⟩
      · exact update_self _ _ _
      · exact lookup_erase _ _
    · have hne : service ≠ x.1 := fst_ne_of_notMem_keys hfirst hmem
      obtain ⟨hsettings, hlookup⟩ := @ih ((s.put x.1 x.2).drop x.1 x.2) hrest hmem
      refine ⟨hsettings.trans ?_, hlookup⟩
      show (restoration (update s.settings x.1 _ service) e).1 = _
      rw [update_of_ne hne]

/-- The entries of a journal are of the services' fields. -/
def Matching (entries : Table Text Entry) (settings : Text → Snapshot) : Prop :=
  ∀ service e, entries.lookup service = some e → e.original.keys = (settings service).keys

theorem putAll_entries (s : World) :
    (s.putAll s.journal.entries.sorted).settings = recovered s.settings s.journal.entries ∧
      (s.putAll s.journal.entries.sorted).journal.entries = ∅ := by
  have hpoint : ∀ service, (s.putAll s.journal.entries.sorted).settings service
        = recovered s.settings s.journal.entries service ∧
      (s.putAll s.journal.entries.sorted).journal.entries.lookup service = none := by
    intro service
    unfold recovered
    cases hlookup : s.journal.entries.lookup service with
    | none =>
      have hnot : service ∉ s.journal.entries.sorted.keys := by
        rw [mem_keys_sorted]
        exact lookup_eq_none.mp hlookup
      rw [(putAll_of_notMem hnot).2, hlookup]
      exact ⟨(putAll_of_notMem hnot).1, rfl⟩
    | some e =>
      exact putAll_of_mem nodupKeys_sorted (mem_sorted.mpr hlookup)
  exact ⟨funext fun service => (hpoint service).1,
    eq_empty_of_lookup fun service => (hpoint service).2⟩

theorem restoreService_quiet (hkeys : e.original.keys = (s.settings service).keys) :
    ∃ conflict, restoreService service e [] s = .ok conflict [] (s.put service e) := by
  have hmerged : (restoration (s.settings service) e).1.keys = (s.settings service).keys := by
    rw [restoration_eq hkeys]
    split
    · rfl
    · exact hkeys
  refine ⟨(restoration (s.settings service) e).2, ?_⟩
  have hsnapshot : snapshot service [] s = .ok (s.settings service) [] s := rfl
  rw [restoreService, bind_of_ok hsnapshot, World.put]
  by_cases hsame : (restoration (s.settings service) e).1 = s.settings service
  · rw [hsame, if_neg (not_not.mpr rfl), update_eq_self]
    rfl
  · rw [if_pos hsame]
    show Ending.ok _ [] (World.write _ _ _ s) = _
    rw [World.write, writeFields_all hmerged]

theorem restoreAll_quiet (hnodup : rest.NodupKeys)
    (hkeys : ∀ x ∈ rest, x.2.original.keys = (s.settings x.1).keys) :
    ∃ problems, restoreAll rest [] s = .ok problems [] (s.putAll rest) := by
  induction rest generalizing s with
  | nil => exact ⟨[], rfl⟩
  | cons x rest ih =>
    obtain ⟨service, e⟩ := x
    obtain ⟨hfirst, hrest⟩ := nodupKeys_cons.mp hnodup
    obtain ⟨conflict, hservice⟩ := restoreService_quiet (hkeys _ mem_cons_self)
    have hlater : ∀ x ∈ rest, x.2.original.keys =
        (((s.put service e).drop service e).settings x.1).keys := by
      intro x hx
      have hne : x.1 ≠ service := fst_ne_of_notMem_keys hfirst hx
      show _ = (update s.settings service _ x.1).keys
      rw [update_of_ne hne]
      exact hkeys x (mem_cons_of_mem _ hx)
    obtain ⟨problems, hrest⟩ := ih hrest hlater
    refine ⟨if conflict then (service, none) :: problems else problems, ?_⟩
    have hattempt : Scripted.attempt (restoreService service e) [] s
        = .ok (.ok conflict) [] (s.put service e) := by
      rw [Scripted.attempt, hservice]
      rfl
    rw [restoreAll, bind_of_ok hattempt]
    dsimp only
    rw [modify_bind, bind_of_ok hrest]
    rfl

/-- All services put back and the file removed. -/
def World.cleared (s : World) : World :=
  { (s.putAll s.journal.entries.sorted).setPort none with file := none }

/-- `restore` puts the journaled services back and removes the file. -/
theorem restore_quiet (hmatch : Matching s.journal.entries s.settings) :
    ∃ r, Scripted.attempt restore [] s = .ok r [] s.cleared := by
  obtain ⟨problems, hall⟩ := restoreAll_quiet nodupKeys_sorted
    fun x hx => hmatch x.1 x.2 (mem_sorted.mp hx)
  have hsaveRest : saveRest [] (s.putAll s.journal.entries.sorted) = .ok () [] s.cleared := by
    rw [saveRest, Scripted.modify_bind, Scripted.get_bind, if_pos]
    · rfl
    · show (s.putAll s.journal.entries.sorted).journal.entries.entries.isEmpty = true
      rw [(putAll_entries s).2]
      rfl
  rw [Scripted.attempt, restore, Scripted.get_bind, Scripted.bind_of_ok hall,
    Scripted.bind_of_ok hsaveRest]
  split
  · exact ⟨_, rfl⟩
  · exact ⟨_, rfl⟩

/-- `recover`, if the file is within the limit. -/
theorem recover_quiet (hmatch : Matching s.saved s.settings)
    (hsize : ∀ j, s.file = some j → j.encodedLen ≤ 1024 * 1024) :
    (recover [] s).survived = true ∧
      (recover [] s).state.settings = recovered s.settings s.saved ∧
      (recover [] s).state.file = none := by
  obtain ⟨t, hread, hentries, hsettings⟩ : ∃ t, readJournal [] s = .ok () [] t ∧
      t.journal.entries = s.saved ∧ t.settings = s.settings := by
    rw [readJournal, Scripted.get_bind, World.saved]
    cases hfile : s.file with
    | none => exact ⟨_, rfl, rfl, rfl⟩
    | some journal =>
      dsimp only
      rw [if_neg (Nat.not_lt.mpr (hsize journal hfile))]
      exact ⟨_, rfl, rfl, rfl⟩
  rw [← hentries, ← hsettings] at hmatch ⊢
  obtain ⟨r, hrestore⟩ := restore_quiet hmatch
  obtain ⟨hcleared, hempty⟩ := putAll_entries t
  rw [recover, Scripted.bind_of_ok hread, Scripted.bind_of_ok hrestore]
  cases r with
  | ok a => exact ⟨rfl, hcleared, rfl⟩
  | error failure =>
    have hempty' : t.cleared.journal.entries = ∅ := hempty
    obtain ⟨r, hagain⟩ := @restore_quiet t.cleared (by rw [hempty']; exact nofun)
    dsimp only
    rw [Scripted.bind_of_ok hagain]
    refine ⟨rfl, (putAll_entries t.cleared).1.trans ?_, rfl⟩
    rw [hempty']
    exact hcleared

end

/-! ## Runs -/

/-- What happens, with or without a guard: calls that any operation may interrupt, the end
of the process, a new guard, and changes from outside, of the services and of the settings
of `foreign` ones. -/
inductive Step (platform : Platform) (foreign : Text → Prop) :
    Bool × World → Bool × World → Prop where
  | enable (s : World) (port : UInt16) (script : List (Verdict (List Text))) :
      Step platform foreign (true, s)
        ((enable platform port script s).survived, (enable platform port script s).state)
  | refresh (s : World) (script : List (Verdict (List Text))) :
      Step platform foreign (true, s)
        ((refresh platform script s).survived, (refresh platform script s).state)
  | restore (s : World) (script : List (Verdict (List Text))) :
      Step platform foreign (true, s) ((restore script s).survived, (restore script s).state)
  | stop (s : World) : Step platform foreign (true, s) (false, s)
  | recover {s t script rest} :
      recover script s = .ok () rest t → Step platform foreign (false, s) (true, t)
  | recoverFailed (s : World) (script : List (Verdict (List Text))) :
      Step platform foreign (false, s) (false, (recover script s).state)
  | services (running : Bool) (s : World) (services : List Text) :
      Step platform foreign (running, s) (running, { s with services })
  | change (running : Bool) (s : World) {service new} :
      foreign service → new.keys = (s.settings service).keys →
      Step platform foreign (running, s)
        (running, { s with settings := update s.settings service new })

/-- Any number of steps. -/
abbrev Steps (platform : Platform) (foreign : Text → Prop) :
    Bool × World → Bool × World → Prop :=
  Relation.ReflTransGen (Step platform foreign)

/-- Before the first guard. -/
def World.fresh (services : List Text) (initial : Text → Snapshot) : World :=
  ⟨services, initial, none, ⟨none, ∅⟩, []⟩

section Runs

variable {platform : Platform} {foreign : Text → Prop} {initial : Text → Snapshot}
  {services : List Text} {x y : Bool × World}

/-- The invariant with or without a guard. -/
def Sound (past : Past) (x : Bool × World) : Prop :=
  (x.1 = true → Inv past x.2) ∧ Durable past x.2

/-- A call that keeps the invariant. -/
theorem sound_ending {α : Type} {m : Program α} {s : World}
    (h : Keeps (Inv past) (Durable past) (fun _ => True) m fun _ _ => True) (hs : Inv past s)
    (script : List (Verdict (List Text))) :
    Sound past ((m script s).survived, (m script s).state) :=
  h.survives (fun _ hs => hs.toDurable) script ⟨hs, trivial⟩

theorem Agrees.change {entries : Table Text Entry} {settings : Text → Snapshot} {service : Text}
    (h : Agrees past entries settings) (hforeign : past.foreign service) (new : Snapshot) :
    Agrees past entries (Function.update settings service new) :=
  h.update fun hown => absurd hforeign hown

/-- One step keeps the invariant. -/
theorem Step.sound (h : Step platform past.foreign x y) (hx : Sound past x) : Sound past y := by
  cases h with
  | enable s port script => exact sound_ending (keeps_enable port) (hx.1 rfl) script
  | refresh s script => exact sound_ending keeps_refresh (hx.1 rfl) script
  | restore s script => exact sound_ending keeps_restore (hx.1 rfl) script
  | stop s => exact ⟨fun hgone => absurd hgone Bool.false_ne_true, hx.2⟩
  | @recover s t script rest hrun =>
    have hend := triple_recover script s hx.2
    rw [hrun] at hend
    exact ⟨fun _ => hend, hend.toDurable⟩
  | recoverFailed s script =>
    refine ⟨fun hgone => absurd hgone Bool.false_ne_true, ?_⟩
    have hend := triple_recover script s hx.2
    show Durable past (Desktop.recover script s).state
    revert hend
    cases Desktop.recover script s with
    | ok a rest t => exact fun hend => hend.toDurable
    | error | crashed => exact id
  | services running s services =>
    refine ⟨fun hrunning => ?_, hx.2.keys, hx.2.disk, hx.2.promised, hx.2.settled⟩
    have hs := hx.1 hrunning
    exact ⟨⟨hs.keys, hs.disk, hs.promised, hs.settled⟩, hs.memory, hs.pending⟩
  | @change running s service new hforeign hkeys =>
    have hdurable : Durable past { s with settings := update s.settings service new } := by
      refine ⟨fun other => ?_, hx.2.disk.change hforeign new, hx.2.promised, hx.2.settled⟩
      show (update s.settings service new other).keys = _
      by_cases hother : other = service
      · subst hother
        rw [update_self, hkeys]
        exact hx.2.keys other
      · rw [update_of_ne hother]
        exact hx.2.keys other
    refine ⟨fun hrunning => ?_, hdurable⟩
    have hs := hx.1 hrunning
    exact ⟨hdurable, hs.memory.change hforeign new, hs.pending⟩

theorem Steps.sound (h : Steps platform past.foreign x y) (hx : Sound past x) : Sound past y := by
  induction h with
  | refl => exact hx
  | tail _ hstep ih => exact hstep.sound ih

theorem sound_fresh (services : List Text) (initial : Text → Snapshot) (foreign : Text → Prop) :
    Sound ⟨initial, foreign, fun _ _ => False⟩ (false, World.fresh services initial) := by
  refine ⟨fun hgone => absurd hgone Bool.false_ne_true, fun _ => rfl, ?_, ?_, ?_⟩
  · intro service
    refine ⟨fun e he => ?_, fun _ => rfl⟩
    cases he
  · exact fun _ _ h => h.elim
  · exact fun _ _ _ h => absurd h not_mem_nil

/-- From a state of a run on, what is on disk there is promised. -/
theorem Sound.promise (h : Sound past x) :
    Sound { past with promised := fun service e => x.2.saved.lookup service = some e } x := by
  have hdurable : Durable
      { past with promised := fun service e => x.2.saved.lookup service = some e } x.2 :=
    ⟨h.2.keys, h.2.disk, fun _ _ he => .inl he, h.2.settled⟩
  exact ⟨fun hrunning => ⟨hdurable, (h.1 hrunning).memory, (h.1 hrunning).pending⟩, hdurable⟩

/-- **Recovery.** In any run, from any state on:

* recovering from the file, if it is within its size limit and nothing fails, puts every
  journaled service back to exactly its original settings unless another program changed
  it, and leaves all others alone; every service that no other program changes at all has
  its initial settings then;
* an entry that was on disk is still there, or was dropped when its service had its
  original settings or had been changed by another program. -/
theorem recover_returns_originals {earlier s : World} {running₀ running : Bool}
    (h₀ : Steps platform foreign (false, World.fresh services initial) (running₀, earlier))
    (h : Steps platform foreign (running₀, earlier) (running, s)) :
    ((∀ j, s.file = some j → j.encodedLen ≤ 1024 * 1024) →
      (recover [] s).survived = true ∧ (recover [] s).state.file = none ∧
      (∀ service e, s.saved.lookup service = some e →
        (recover [] s).state.settings service
          = if Conflict (s.settings service) e then s.settings service else e.original) ∧
      (∀ service, s.saved.lookup service = none →
        (recover [] s).state.settings service = s.settings service) ∧
      ∀ service, ¬ foreign service →
        (recover [] s).state.settings service = initial service) ∧
    ∀ service e, earlier.saved.lookup service = some e →
      s.saved.lookup service = some e ∨ ∃ current, (service, e, current) ∈ s.dropped ∧
        (current = e.original ∨ Conflict current e) := by
  have hs := h.sound (h₀.sound (sound_fresh services initial foreign)).promise
  have hkeys : Matching s.saved s.settings := fun service e he =>
    ((hs.2.disk service).1 e he).trans (hs.2.keys service).symm
  constructor
  · intro hsize
    obtain ⟨hsurvived, hsettings, hfile⟩ := recover_quiet hkeys hsize
    have hjournaled : ∀ service e, s.saved.lookup service = some e →
        (recover [] s).state.settings service
          = if Conflict (s.settings service) e then s.settings service else e.original := by
      intro service e he
      rw [hsettings, recovered, he]
      show (restoration (s.settings service) e).1 = _
      rw [restoration_eq (hkeys service e he)]
      split
      · rfl
      · rfl
    have hother : ∀ service, s.saved.lookup service = none →
        (recover [] s).state.settings service = s.settings service := by
      intro service hnone
      rw [hsettings, recovered, hnone]
    refine ⟨hsurvived, hfile, hjournaled, hother, fun service hown => ?_⟩
    have howed := (hs.2.disk service).2 hown
    cases hlookup : s.saved.lookup service with
    | none =>
      rw [hlookup] at howed
      exact (hother service hlookup).trans howed
    | some e =>
      rw [hlookup] at howed
      rw [hjournaled service e hlookup, if_neg howed.2.not_conflict]
      exact howed.1
  · intro service e he
    refine (hs.2.promised service e he).imp_right ?_
    rintro ⟨current, hmem⟩
    exact ⟨current, hmem, hs.2.settled service e current hmem⟩

end Runs

/-! ## A journal that cannot be read back -/

section

/-- A network service. -/
def wifi : Text := "Wi-Fi".toList

variable (server : Text)

/-- Settings with one field. -/
def httpProxy : Snapshot := Finmap.singleton "HTTPProxy".toList (.string server)

/-- The journal once the service was pointed to port 7890. -/
def wifiJournal : Journal :=
  ⟨some 7890, AList.insert wifi ⟨httpProxy server, desired .macos (httpProxy server) 7890⟩ ∅⟩

/-- The state when the process is killed then. -/
def wifiEnabled : World where
  services := [wifi]
  settings := update (fun _ => httpProxy server) wifi
    (Snapshot.writeFields (fun _ => true) (desired .macos (httpProxy server) 7890)
      (httpProxy server))
  file := some (wifiJournal server)
  journal := wifiJournal server
  dropped := []

theorem steps_wifiEnabled (foreign : Text → Prop) :
    Steps .macos foreign (false, World.fresh [wifi] fun _ => httpProxy server)
      (false, wifiEnabled server) := by
  have hrecover : recover [] (World.fresh [wifi] fun _ => httpProxy server)
      = .ok () [] (World.fresh [wifi] fun _ => httpProxy server) := rfl
  have henable : Step .macos foreign (true, World.fresh [wifi] fun _ => httpProxy server)
      (true, wifiEnabled server) :=
    .enable _ 7890 []
  exact ((Relation.ReflTransGen.single (.recover hrecover)).tail henable).tail (.stop _)

/-- `recover_returns_originals` for a service that was pointed to the application. -/
theorem recover_returns_wifi :
    (recover [] (wifiEnabled "proxy".toList)).state.settings wifi = httpProxy "proxy".toList := by
  have hsize : ∀ j, (wifiEnabled "proxy".toList).file = some j → j.encodedLen ≤ 1024 * 1024 := by
    intro j hj
    obtain rfl := Option.some.inj hj
    decide +kernel
  exact ((recover_returns_originals .refl
    (steps_wifiEnabled "proxy".toList fun _ => False)).1 hsize).2.2.2.2 wifi id

theorem length_le_quotedLen (s : Text) : s.length ≤ quotedLen s := by
  have hescaped : ∀ c, 1 ≤ escapedLen c := by
    intro c
    unfold escapedLen
    split
    · exact Nat.le_succ 1
    · split
      · exact Nat.succ_le_succ (Nat.zero_le 5)
      · exact c.utf8Size_pos
  have hsum : s.length ≤ (s.map escapedLen).sum := by
    induction s with
    | nil => exact Nat.le_refl 0
    | cons c s ih =>
      rw [length_cons, Nat.add_comm]
      exact Nat.add_le_add (hescaped c) ih
  exact hsum.trans (Nat.le_add_left _ 2)

/-- An object is longer than each of its members. -/
theorem lt_objectLen {members : Multiset Nat} {n : Nat} (h : n ∈ members) :
    n < objectLen members := by
  have hmember : n + 1 ≤ (members.map (· + 1)).sum :=
    Multiset.le_sum_of_mem (Multiset.mem_map_of_mem _ h)
  unfold objectLen
  omega

/-- The journal is longer than a setting in it. -/
theorem length_lt_wifiJournal :
    server.length < (wifiJournal server).encodedLen := by
  have hsettings : server.length < (httpProxy server).encodedLen :=
    (length_le_quotedLen server).trans_lt
      ((Nat.le_add_left _ _).trans_lt (lt_objectLen (Multiset.mem_singleton_self _)))
  have hentry : server.length
      < Entry.encodedLen ⟨httpProxy server, desired .macos (httpProxy server) 7890⟩ :=
    (hsettings.trans_le (Nat.le_add_left _ _)).trans (lt_objectLen (Multiset.mem_cons_self _ _))
  have hentries := (hentry.trans_le (Nat.le_add_left (Entry.encodedLen _) (quotedLen wifi))).trans
    (lt_objectLen (Multiset.mem_singleton_self _))
  exact (hentries.trans_le (Nat.le_add_left _ _)).trans
    (lt_objectLen (Multiset.mem_cons_of_mem (Multiset.mem_singleton_self _)))

/-- A file that is too long is not even looked at. -/
theorem recover_oversized {s : World} {journal : Journal} (hfile : s.file = some journal)
    (hsize : 1024 * 1024 < journal.encodedLen) : recover [] s = .error .sizeLimit [] s := by
  have hread : readJournal [] s = .error .sizeLimit [] s := by
    rw [readJournal, Scripted.get_bind, hfile]
    dsimp only
    rw [if_pos hsize]
    rfl
  show (readJournal [] s).andThen _ = _
  rw [hread]
  rfl

theorem settings_wifiEnabled {server : Text} (hlength : server.length ≠ 9) :
    (wifiEnabled server).settings wifi ≠ httpProxy server := by
  intro heq
  have hlookup : (httpProxy "127.0.0.1".toList).lookup "HTTPProxy".toList
      = (httpProxy server).lookup "HTTPProxy".toList :=
    congrArg (Finmap.lookup "HTTPProxy".toList) heq
  exact hlength (congrArg List.length (Value.string.inj (Option.some.inj hlookup))).symm

/-- A long setting makes the journal longer than what `recover` reads. The guard saves it
and changes the service; after a crash nothing ever puts the service back. -/
theorem oversized_journal_kept :
    ∃ s, Steps .macos (fun _ => False)
        (false, World.fresh [wifi] fun _ => httpProxy (List.replicate (1024 * 1024) 'a'))
        (false, s) ∧
      recover [] s = .error .sizeLimit [] s ∧
      s.settings wifi ≠ httpProxy (List.replicate (1024 * 1024) 'a') := by
  have hlength : (List.replicate (1024 * 1024) 'a').length = 1024 * 1024 := length_replicate
  refine ⟨wifiEnabled _, steps_wifiEnabled _ _, recover_oversized rfl ?_,
    settings_wifiEnabled ?_⟩
  · exact hlength.symm.trans_lt (length_lt_wifiJournal _)
  · rw [hlength]
    decide

end

end Clyntis.Desktop
