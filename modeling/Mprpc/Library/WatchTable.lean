import Mathlib.Data.List.Basic

namespace Mprpc.Library

/-- The ways a watch is set: by asking whether a node exists, for its data, or for
its children. -/
inductive Watch
  | exists
  | data
  | children
deriving DecidableEq, Repr

inductive Change
  | created
  | deleted
  | data
  | children
deriving DecidableEq, Repr

/-- Which changes of its node set off a watch. -/
def Watch.sees : Watch → Change → Bool
  | .exists, change => change ≠ .children
  | .data, change => change ≠ .children ∧ change ≠ .created
  | .children, change => change = .children ∨ change = .deleted

/-- The watches that are set, and the events that are on their way to the client. -/
structure WatchTable (π : Type*) where
  armed : List (Watch × π)
  inFlight : List (Change × π)
deriving DecidableEq, Repr

namespace WatchTable

variable {π : Type*} [DecidableEq π]

def empty : WatchTable π := ⟨[], []⟩

/-- A watch that is set already is not set again. -/
def arm (table : WatchTable π) (watch : Watch) (path : π) : WatchTable π :=
  if (watch, path) ∈ table.armed then table
  else { table with armed := (watch, path) :: table.armed }

/-- A node changes: the watches that see it go off, each once. -/
def change (table : WatchTable π) (change : Change) (path : π) : WatchTable π :=
  let fires := fun entry : Watch × π => entry.2 = path && entry.1.sees change
  ⟨table.armed.filter fun entry => !fires entry,
    table.inFlight ++ (table.armed.filter fires).map fun entry => (change, entry.2)⟩

def deliver (table : WatchTable π) (i : Nat) : WatchTable π :=
  { table with inFlight := table.inFlight.eraseIdx i }

/-- The next change of the kind at the node will be told, or one is on its way. -/
def Covers (table : WatchTable π) (change : Change) (path : π) : Prop :=
  (∃ watch, (watch, path) ∈ table.armed ∧ watch.sees change) ∨ (change, path) ∈ table.inFlight

/-- No change of the kind is told, at any node. -/
structure Blind (table : WatchTable π) (change : Change) : Prop where
  armed : ∀ entry ∈ table.armed, entry.1.sees change = false
  inFlight : ∀ event ∈ table.inFlight, event.1 ≠ change

variable {table : WatchTable π} {kind : Change}

omit [DecidableEq π] in
theorem blind_empty (kind : Change) : (empty : WatchTable π).Blind kind :=
  ⟨fun _ h => absurd h List.not_mem_nil, fun _ h => absurd h List.not_mem_nil⟩

omit [DecidableEq π] in
theorem Blind.not_covers (h : table.Blind kind) (path : π) : ¬table.Covers kind path := by
  rintro (⟨watch, hmem, hsees⟩ | hmem)
  · rw [h.armed _ hmem] at hsees
    cases hsees
  · exact h.inFlight _ hmem rfl

theorem Blind.arm (h : table.Blind kind) {watch : Watch} (hwatch : watch.sees kind = false)
    (path : π) : (table.arm watch path).Blind kind := by
  unfold WatchTable.arm
  split
  · exact h
  · exact ⟨List.forall_mem_cons.mpr ⟨hwatch, h.armed⟩, h.inFlight⟩

/-- What goes off was armed, and saw the change. -/
theorem Blind.change (h : table.Blind kind) (other : Change) (path : π) :
    (table.change other path).Blind kind := by
  refine ⟨fun entry hentry => h.armed entry (List.mem_filter.mp hentry).1, ?_⟩
  intro event hevent
  obtain hold | hnew := List.mem_append.mp hevent
  · exact h.inFlight event hold
  · obtain ⟨entry, hentry, rfl⟩ := List.mem_map.mp hnew
    obtain ⟨hmem, hfires⟩ := List.mem_filter.mp hentry
    rintro rfl
    have hsees := (Bool.and_eq_true_iff.mp hfires).2
    rw [h.armed entry hmem] at hsees
    cases hsees

omit [DecidableEq π] in
theorem Blind.deliver (h : table.Blind kind) (i : Nat) : (table.deliver i).Blind kind :=
  ⟨h.armed, fun event hevent => h.inFlight event (List.mem_of_mem_eraseIdx hevent)⟩

end WatchTable

end Mprpc.Library
