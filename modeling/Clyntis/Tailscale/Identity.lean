import Clyntis.Lib.Scripted
import Clyntis.Lib.Text

/-!
# The identity file (`key.rs`, `State`)

A node's keys are kept in `state.json`. `save` writes a temporary file and renames it;
`load_or_create` reads the file, or generates new keys.

- `save`, `loadOrCreate`: the calls, as programs that any operation may interrupt;
- `save_path`, `loadOrCreate_path`: a call leaves the file as it was, or the state it
  writes, whole;
- `loadOrCreate_keeps`: a file that can be read is not replaced. One that cannot be read
  is.

The rename is atomic. JSON and hexadecimal are a parameter (`Format`), and so are the keys
the random generator draws.
-/

namespace Clyntis.Tailscale.Identity

open Lib Scripted

/-- `State`, without the flag that says whether the node is registered. -/
structure State where
  machine : BitVec 256
  node : BitVec 256
  homeDerp : UInt32
  deriving DecidableEq, Repr

/-- How a state is written and read (`StateFile`). -/
structure Format where
  toVec : State → Bytes
  fromSlice : Bytes → Option State

/-- The state file, and `path.with_extension("tmp")`. -/
structure Disk where
  path : Option Bytes
  temporary : Option Bytes
  deriving DecidableEq, Repr

inductive IoError where
  | notFound
  | failed
  | invalid
  deriving DecidableEq, Repr

/-- A program on the disk; the number in a verdict says how far the operation got. -/
abbrev Io (α : Type) : Type := Scripted (Verdict Nat) Disk IoError α

/-- `std::fs::read(path)`. -/
def read : Io Bytes :=
  operation .failed (fun _ => id) do
    match (← get).path with
    | some data => pure data
    | none => throw .notFound

/-- `std::fs::create_dir_all(parent)`. -/
def createDirAll : Io Unit := operation .failed (fun _ => id) (pure ())

/-- `write_private`: cut off before it opens the file, or after a part of the data. -/
def writePrivate (data : Bytes) : Io Unit :=
  operation .failed
    (fun n d => if n = 0 then d else { d with temporary := some (data.take (n - 1)) })
    (modify fun d => { d with temporary := some data })

/-- What `std::fs::rename(temporary, path)` does. -/
def Disk.renamed (d : Disk) : Disk :=
  if d.temporary.isSome then ⟨d.temporary, none⟩ else d

/-- `std::fs::rename(temporary, path)`, cut off before or after its effect. -/
def rename : Io Unit :=
  operation .failed (fun n d => if n = 0 then d else d.renamed) (modify Disk.renamed)

/-- `State::save`. -/
def save (fmt : Format) (state : State) : Io Unit := do
  createDirAll
  writePrivate (fmt.toVec state)
  rename

/-- The state with new keys. -/
def State.generated (machine node : BitVec 256) : State := ⟨machine, node, 0⟩

/-- `State::load_or_create`. -/
def loadOrCreate (fmt : Format) (machine node : BitVec 256) : Io State := do
  match ← attempt read with
  | .ok data =>
    match fmt.fromSlice data with
    | some state => pure state
    | none => throw .invalid
  | .error _ =>
    save fmt (.generated machine node)
    pure (.generated machine node)

variable {fmt : Format} {d : Disk}

/-- The file is as it was, or it holds `state`. -/
def Written (fmt : Format) (old : Option Bytes) (state : State) (d : Disk) : Prop :=
  d.path = old ∨ d.path = some (fmt.toVec state)

theorem save_path (old : Option Bytes) (state : State) :
    Keeps (Written fmt old state) (Written fmt old state) (fun d => d.path = old)
      (save fmt state) fun _ _ => True := by
  refine .bind (R := fun _ d => d.path = old) ?_ fun _ => .bind (R := fun _ d =>
    d.path = old ∧ d.temporary = some (fmt.toVec state)) ?_ fun _ => ?_
  · exact .operation (.pure fun _ _ h => h) (fun _ _ h _ => h) fun _ h => h
  · refine .operation (.modify fun _ _ h => ⟨.inl h, h, rfl⟩) (fun n d _ h => ?_) fun _ h => h
    split
    · exact .inl h
    · exact .inl h
  · have hrenamed : ∀ d : Disk, d.temporary = some (fmt.toVec state) →
        Written fmt old state d.renamed := by
      intro d htmp
      exact .inr (by simp [Disk.renamed, htmp])
    refine .operation (.modify fun d _ h => ⟨hrenamed d h.2, trivial⟩) (fun n d hd h => ?_)
      fun _ h => h
    split
    · exact hd
    · exact hrenamed d h.2

theorem loadOrCreate_path (old : Option Bytes) (machine node : BitVec 256) :
    Keeps (Written fmt old (.generated machine node)) (Written fmt old (.generated machine node))
      (fun d => d.path = old) (loadOrCreate fmt machine node) fun _ _ => True := by
  refine .bind (R := fun _ d => d.path = old) ?_ fun r => ?_
  · refine Triple.attempt (.operation ?_ (fun _ _ h => h) fun _ _ h => h.1)
    refine .bind (R := fun _ d => Written fmt old _ d ∧ d.path = old) (.get fun _ h => h)
      fun d => ?_
    split
    · exact .pure fun _ h => h
    · exact .throw fun _ h => h
  · cases r with
    | error e => exact .bind (save_path old _) fun _ => .pure fun _ _ _ => trivial
    | ok data =>
      dsimp only
      split
      · exact .pure fun _ _ _ => trivial
      · exact .throw

/-- A call, with how its operations go. -/
inductive Call where
  | save (state : State) (script : List (Verdict Nat))
  | loadOrCreate (machine node : BitVec 256) (script : List (Verdict Nat))

namespace Call

/-- The state a call writes, if it writes one. -/
def state : Call → State
  | save state _ => state
  | loadOrCreate machine node _ => .generated machine node

/-- The disk after a call, wherever it ended. -/
def play (fmt : Format) (d : Disk) : Call → Disk
  | save state script => (Identity.save fmt state script d).state
  | loadOrCreate machine node script => (Identity.loadOrCreate fmt machine node script d).state

/-- The call reads the file, and the system does not let it. -/
def readFails : Call → Bool
  | save .. => false
  | loadOrCreate _ _ script => script.head?.any fun v => v matches .fails _

theorem play_path (d : Disk) (c : Call) : Written fmt d.path c.state (c.play fmt d) := by
  cases c with
  | save state script =>
    exact ((save_path _ state).survives (fun _ h => h) script ⟨.inl rfl, rfl⟩).2
  | loadOrCreate machine node script =>
    exact ((loadOrCreate_path _ machine node).survives (fun _ h => h) script ⟨.inl rfl, rfl⟩).2

end Call

/-- A `load_or_create` that is let read an existing file leaves the disk alone. -/
theorem loadOrCreate_keeps (hfile : d.path ≠ none) {machine node : BitVec 256}
    {script : List (Verdict Nat)}
    (hread : (Call.loadOrCreate machine node script).readFails = false) :
    (loadOrCreate fmt machine node script d).state = d := by
  obtain ⟨_ | data, temporary⟩ := d
  · exact absurd rfl hfile
  have hdone : ∀ rest, (loadOrCreate fmt machine node (.done :: rest)
      ⟨some data, temporary⟩).state = ⟨some data, temporary⟩ := by
    intro rest
    change ((match fmt.fromSlice data with
      | some state => pure state
      | none => throw .invalid : Io State) rest ⟨some data, temporary⟩).state = _
    cases fmt.fromSlice data <;> rfl
  rcases script with _ | ⟨_ | n | n, script⟩
  · exact hdone []
  · exact hdone script
  · cases hread
  · rfl

/-- The file, if there is one, holds a whole state. -/
def Disk.Whole (fmt : Format) (d : Disk) : Prop :=
  ∀ data, d.path = some data → ∃ state, data = fmt.toVec state

theorem Disk.Whole.play (h : d.Whole fmt) (c : Call) : (c.play fmt d).Whole fmt := by
  intro data hdata
  rcases c.play_path d with hsame | hnew
  · exact h data (hsame.symm.trans hdata)
  · exact ⟨c.state, Option.some.inj (hdata.symm.trans hnew)⟩

theorem Disk.Whole.run (h : d.Whole fmt) (calls : List Call) :
    (calls.foldl (Call.play fmt) d).Whole fmt := by
  induction calls generalizing d with
  | nil => exact h
  | cons c calls ih => exact ih (h.play c)

/-- **The identity is kept** over any sequence of calls, wherever each of them fails or is
cut off: the file holds no state or a whole one; a call leaves what it found or what it
writes; and `load_or_create` does not replace a file that it is let read. -/
theorem identity_kept {d₀ : Disk} (h₀ : d₀.Whole fmt) (calls : List Call) (c : Call) :
    let d := calls.foldl (Call.play fmt) d₀
    d.Whole fmt ∧ Written fmt d.path c.state (c.play fmt d) ∧
      ∀ machine node script, c = .loadOrCreate machine node script → c.readFails = false →
        d.path ≠ none → c.play fmt d = d := by
  refine ⟨h₀.run calls, c.play_path _, ?_⟩
  rintro machine node script rfl hread hfile
  exact loadOrCreate_keeps hfile hread

/-- A format with the low bytes of the keys. -/
def lowBytes : Format where
  toVec s := [UInt8.ofNat s.machine.toNat, UInt8.ofNat s.node.toNat]
  fromSlice
    | [machine, node] => some (.generated machine.toNat node.toNat)
    | _ => none

theorem identity_kept_created :
    Disk.Whole lowBytes ((Call.loadOrCreate 1 2 []).play lowBytes ⟨none, none⟩) ∧
      (Call.loadOrCreate 3 4 []).play lowBytes ⟨some [1, 2], none⟩ = ⟨some [1, 2], none⟩ := by
  have h₀ : Disk.Whole lowBytes ⟨none, none⟩ := fun _ h => by cases h
  have h := identity_kept h₀ [.loadOrCreate 1 2 []] (.loadOrCreate 3 4 [])
  exact ⟨h.1, h.2.2 3 4 [] rfl rfl (by decide)⟩

/-- The file of the state with the keys 1 and 2 is there but cannot be read once. -/
theorem unreadable_identity_replaced :
    ((Call.loadOrCreate 3 4 [.fails 0]).play lowBytes ⟨some [1, 2], none⟩).path = some [3, 4] :=
  rfl

end Clyntis.Tailscale.Identity
