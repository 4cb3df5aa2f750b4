import HeapChurn.Allocator
import HeapChurn.Plan

/-!
# The foreign pool

Blocks that one thread allocates and others free. The thread that starts the run fills the pool
before any worker exists: slot by slot, each block tagged with the number of its slot. The pool is
then split into one segment for each producer and each segment into one chunk for each worker, and
worker `w` owns chunk `w` of every segment:

      segment 0                 segment 1
      | w0 chunk | w1 chunk |   | w0 chunk | w1 chunk |   ...

After the workers are gone, what is left in the pool is handed back in slot order.
-/

namespace HeapChurn

namespace Pool

/-- Fills `count` slots from `slot` on. Answers how many of them could not be filled, counting the
one whose request failed. -/
def fill (blockSize : Nat) : Nat → Nat → Routine Nat
  | 0, _ => return 0
  | count + 1, slot => do
    match ← Routine.requestIf (Layout.forForeign? blockSize) with
    | none => return count + 1
    | some block =>
      Routine.store { block, tag := slot }
      Routine.count .foreignAlloc
      fill blockSize count (slot + 1)

/-- Hands back whatever `count` slots from `slot` on still hold, in slot order, and adds the number
of blocks to `released`. The tags are not looked at. -/
def reclaim : Nat → Nat → Nat → Routine Nat
  | 0, _, released => return released
  | count + 1, slot, released => do
    match ← Routine.take slot with
    | none => reclaim count (slot + 1) released
    | some b =>
      Routine.release b.block
      reclaim count (slot + 1) (released + 1)

/-- Fills the array of a pool. If a request fails, the blocks stored so far are handed back. -/
def fillUp (plan : Plan) (blockSize : Nat) : Routine (Except Error Unit) := do
  match ← fill blockSize plan.foreignTotal 0 with
  | 0 =>
    Routine.note
      (.poolPopulated plan.foreignTotal blockSize plan.foreignQuota plan.foreignChunk)
    return .ok ()
  | missing + 1 =>
    let _ ← reclaim (plan.foreignTotal - (missing + 1)) 0 0
    return .error (.outOfMemory blockSize)

/-- Makes the pool of a plan, with a block of the same size in every slot: all of it or nothing. -/
def populate (plan : Plan) (blockSize : Nat) : Routine (Except Error Unit) := do
  if reservable plan.foreignTotal then
    if ← Routine.reserve plan.foreignTotal then fillUp plan blockSize
    else return .error (.setup .foreignPool)
  else return .error (.setup .foreignPool)

/-- Ends the life of a pool of `total` slots. -/
def tearDown (total : Nat) : Routine Unit := do
  let leftover ← reclaim total 0 0
  if 0 < leftover then Routine.note (.leftoverReleased leftover)

end Pool

end HeapChurn
