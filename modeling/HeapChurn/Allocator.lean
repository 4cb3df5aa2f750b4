import HeapChurn.Routine

/-!
# The allocator under test

An allocator is known to the workload by its answers alone: which calls it refuses, and which first
words of blocks get overwritten while it serves a call. Two more things can be refused to a run, and
they are asked of the system. The arrays in which the workload keeps its blocks are memory of its own,
and a thread may be denied one; and a thread may not be started at all.

Everything a thread does is recorded in its own `Journal`. The foreign pool is the one array that all
threads share; a thread sees it together with its journal, and `Action.perform` says what each action
does to the two.
-/

namespace HeapChurn

/-- The first word of a block replaced by another. -/
structure Overwrite where
  block : BlockId
  tag : Nat
  deriving Repr, DecidableEq

/-- The answers of an allocator, and of the system that it runs on. -/
structure Allocator where
  /-- Is the call of this number, by this thread and for this size, refused? -/
  refuses : Thread → Nat → Nat → Bool
  /-- What is overwritten just before the call of this number by this thread is answered. -/
  overwrites : Thread → Nat → List Overwrite
  /-- Is the thread denied an array of so many slots? -/
  denies : Thread → Nat → Bool := fun _ _ => false
  /-- Is the thread started? If not, the system says why. -/
  starts : Thread → Except IoError Unit := fun _ => .ok ()

/-- An allocator that refuses nothing and damages nothing. -/
def Allocator.faultless : Allocator where
  refuses _ _ _ := false
  overwrites _ _ := []

/-- An allocator that has no more than so many bytes for one block. -/
def Allocator.ofCapacity (capacity : Nat) : Allocator where
  refuses _ _ size := capacity < size
  overwrites _ _ := []

/-- What one thread has done so far. -/
structure Journal where
  thread : Thread
  /-- Allocation calls made, refused ones included. -/
  calls : Nat := 0
  events : Array Event := #[]
  notices : Array Notice := #[]
  counters : Counters := {}
  deriving Repr, DecidableEq

namespace Journal

def recordEvent (j : Journal) (e : Event) : Journal := { j with events := j.events.push e }

/-- The block that the next call would make. -/
def nextBlock (j : Journal) (layout : Layout) : Block := ⟨⟨j.thread, j.calls⟩, layout⟩

def granted (j : Journal) (b : Block) : Journal :=
  { j with calls := j.calls + 1, events := j.events.push (.granted b) }

def refused (j : Journal) (b : Block) : Journal :=
  { j with calls := j.calls + 1, events := j.events.push (.refused b) }

end Journal

/-- The slots of the foreign pool. -/
abbrev PoolSlots := Array (Option TaggedBlock)

namespace PoolSlots

/-- Replaces the tag of a block, in the slot that holds it if one does. -/
def overwrite (slots : PoolSlots) (o : Overwrite) : PoolSlots :=
  slots.map fun
    | some b => some (if b.block.id = o.block then { b with tag := o.tag } else b)
    | none => none

def overwriteAll (slots : PoolSlots) (os : List Overwrite) : PoolSlots :=
  os.foldl overwrite slots

/-- Slots that still hold a block. -/
def pending (slots : PoolSlots) : Nat := slots.countP Option.isSome

end PoolSlots

/-- What a thread can see and change: the shared pool and its own journal. -/
structure View where
  pool : PoolSlots
  journal : Journal
  deriving Repr, DecidableEq

def Action.perform (a : Allocator) : (x : Action) → View → x.Answer × View
  | .reserve slots, v => (slots = 0 || !a.denies v.journal.thread slots, v)
  | .request layout, ⟨pool, journal⟩ =>
    let block := journal.nextBlock layout
    let pool := pool.overwriteAll (a.overwrites journal.thread journal.calls)
    if a.refuses journal.thread journal.calls layout.size then
      (none, ⟨pool, journal.refused block⟩)
    else (some block, ⟨pool, journal.granted block⟩)
  | .release block, ⟨pool, journal⟩ => ((), ⟨pool, journal.recordEvent (.released block)⟩)
  | .take slot, ⟨pool, journal⟩ => (pool[slot]?.join, ⟨pool.setIfInBounds slot none, journal⟩)
  | .store block, ⟨pool, journal⟩ => ((), ⟨pool.push (some block), journal⟩)
  | .note notice, ⟨pool, journal⟩ =>
    ((), ⟨pool, { journal with notices := journal.notices.push notice }⟩)
  | .count growth, ⟨pool, journal⟩ =>
    ((), ⟨pool, { journal with counters := journal.counters + growth }⟩)

namespace Routine

variable {α : Type}

/-- Runs a routine to its end with nobody in between. -/
def run (a : Allocator) : Routine α → View → α × View
  | done result, v => (result, v)
  | act action next, v =>
    let (answer, v) := action.perform a v
    run a (next answer) v

/-- Performs one action, if one is left. -/
def step (a : Allocator) : Routine α → View → Routine α × View
  | done result, v => (done result, v)
  | act action next, v =>
    let (answer, v) := action.perform a v
    (next answer, v)

end Routine

end HeapChurn
