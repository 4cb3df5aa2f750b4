import HeapChurn.Allocator

/-!
# Live slots

The buffer that bounds a worker's working set while it mixes short-lived and long-lived blocks. A
cursor walks the slots and fills them. A protected window of a fifth of the slots keeps the blocks
of the fill cycle before and is skipped. When the cursor runs off the end, a retire event moves the
window to where the old one ended, or to the front if that is the end, frees every slot below the
window in ascending order and every slot above it in descending order, and rewinds the cursor.

    0        start      end                capacity
    |--------|==========|-------------------|
     freed ->  protected   <- freed

The request that finds the buffer full retires it and allocates nothing. The buffer never touches
the allocator by itself: its operations say which blocks leave it, in order, and the routines below
hand them back.
-/

namespace HeapChurn

structure LiveSlots where
  slots : Array (Option Block)
  /-- The next slot to fill. -/
  cursor : Nat
  windowStart : Nat
  windowEnd : Nat
  /-- Blocks stored, freed and retire events since the buffer was made. -/
  allocated : UInt64 := 0
  freed : UInt64 := 0
  retires : UInt64 := 0
  deriving Repr, DecidableEq

/-- What a request came to. -/
inductive Step where
  | allocated
  | retired
  deriving Repr, DecidableEq

namespace LiveSlots

def capacity (s : LiveSlots) : Nat := s.slots.size

/-- Slots that hold a block. -/
def live (s : LiveSlots) : Nat := s.slots.countP Option.isSome

/-- A buffer of empty slots. The window starts out empty, at the end. -/
def empty (capacity : Nat) : LiveSlots where
  slots := Array.replicate capacity none
  cursor := 0
  windowStart := capacity
  windowEnd := capacity

/-- An empty buffer, unless the slots are too many for any array. -/
def ofCapacity (capacity : Nat) : Except Error LiveSlots :=
  if reservable capacity then .ok (empty capacity) else .error (.setup .liveSlots)

/-- The blocks in slots `low`, `low + 1`, … below `high`. -/
def blocksIn (s : LiveSlots) (low high : Nat) : List Block :=
  (s.slots.toList.extract low high).filterMap id

/-! ## Filling -/

/-- A cursor that has come to the window moves past it. -/
def skipWindow (s : LiveSlots) : LiveSlots :=
  if s.cursor = s.windowStart then { s with cursor := s.windowEnd } else s

/-- The block that still lies in the slot at the cursor, if there is one. -/
def stale? (s : LiveSlots) : Option Block := s.slots[s.cursor]?.join

/-- The buffer without the block at the cursor. -/
def evict (s : LiveSlots) : LiveSlots :=
  { s with slots := s.slots.setIfInBounds s.cursor none, freed := s.freed + 1 }

/-- Puts a block into the slot at the cursor. -/
def store (s : LiveSlots) (b : Block) : LiveSlots :=
  { s with
    slots := s.slots.setIfInBounds s.cursor (some b)
    cursor := s.cursor + 1
    allocated := s.allocated + 1 }

/-! ## Emptying -/

/-- Where the window goes next: it starts where the last one ended. -/
def nextWindowStart (s : LiveSlots) : Nat :=
  if s.capacity ≤ s.windowEnd then 0 else s.windowEnd

def nextWindowEnd (s : LiveSlots) : Nat :=
  min (s.nextWindowStart + s.capacity / 5) s.capacity

/-- The blocks that a retire event frees, in the order in which it frees them. -/
def retiring (s : LiveSlots) : List Block :=
  s.blocksIn 0 s.nextWindowStart ++ (s.blocksIn s.nextWindowEnd s.capacity).reverse

/-- The buffer after a retire event: only the new window keeps its blocks. -/
def retire (s : LiveSlots) : LiveSlots where
  slots := s.slots.mapIdx fun i slot =>
    if s.nextWindowStart ≤ i ∧ i < s.nextWindowEnd then slot else none
  cursor := 0
  windowStart := s.nextWindowStart
  windowEnd := s.nextWindowEnd
  allocated := s.allocated
  freed := s.freed + UInt64.ofNat s.retiring.length
  retires := s.retires + 1

/-- All blocks of the buffer, in slot order. -/
def blocks (s : LiveSlots) : List Block := s.slots.toList.filterMap id

/-- The buffer with every block freed and the cursor and the window as at the start. -/
def clear (s : LiveSlots) : LiveSlots :=
  { empty s.capacity with
    allocated := s.allocated
    freed := s.freed + UInt64.ofNat s.blocks.length
    retires := s.retires }

/-! ## Routines -/

/-- Frees a block that lies where the next one goes. -/
def makeRoom (s : LiveSlots) : Routine LiveSlots := do
  match s.stale? with
  | none => return s
  | some block =>
    Routine.release block
    Routine.count (.liveFrees 1)
    return s.evict

/-- One request for a block of `size` bytes. A buffer that is full retires instead. -/
def allocate (s : LiveSlots) (size : Nat) : Routine (Except Error Step × LiveSlots) :=
  let s := s.skipWindow
  if s.capacity ≤ s.cursor then do
    Routine.releaseAll s.retiring
    Routine.count (.retire s.retiring.length)
    return (.ok .retired, s.retire)
  else do
    let s ← s.makeRoom
    match ← Routine.requestIf (Layout.forLive? size) with
    | none => return (.error (.outOfMemory size), s)
    | some block =>
      Routine.count (.liveAlloc size)
      return (.ok .allocated, s.store block)

/-- `count` requests for blocks of one size, up to the first that fails. -/
def allocateMany (size : Nat) : Nat → LiveSlots → Routine (Except Error Unit × LiveSlots)
  | 0, s => return (.ok (), s)
  | count + 1, s => do
    match ← s.allocate size with
    | (.error e, s) => return (.error e, s)
    | (.ok _, s) => allocateMany size count s

/-- Frees every block that is left, in slot order, and answers how many there were. -/
def releaseAll (s : LiveSlots) : Routine (Nat × LiveSlots) := do
  Routine.releaseAll s.blocks
  Routine.count (.liveFrees s.blocks.length)
  return (s.blocks.length, s.clear)

end LiveSlots

end HeapChurn
