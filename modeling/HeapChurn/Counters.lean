import HeapChurn.Block

/-!
# Workload counters

Six running totals of what the workload did. They are words: a total that runs over starts again
from zero. Each thread counts for itself and the totals of a run are the sums.
-/

namespace HeapChurn

/-- The totals of a run, or of a part of one. -/
structure Counters where
  /-- Blocks obtained for live slots. -/
  allocs : UInt64 := 0
  /-- Bytes requested for those blocks. -/
  allocBytes : UInt64 := 0
  /-- Live blocks released, by a retire event or at shutdown. -/
  frees : UInt64 := 0
  retires : UInt64 := 0
  /-- Tagged blocks stored in the foreign pool. -/
  foreignAllocs : UInt64 := 0
  /-- Tagged blocks released by a draining worker. -/
  foreignFrees : UInt64 := 0
  deriving Repr, DecidableEq

namespace Counters

def add (a b : Counters) : Counters where
  allocs := a.allocs + b.allocs
  allocBytes := a.allocBytes + b.allocBytes
  frees := a.frees + b.frees
  retires := a.retires + b.retires
  foreignAllocs := a.foreignAllocs + b.foreignAllocs
  foreignFrees := a.foreignFrees + b.foreignFrees

instance : Add Counters := ⟨add⟩

/-- One live block of `size` requested bytes was obtained. -/
def liveAlloc (size : Nat) : Counters := { allocs := 1, allocBytes := UInt64.ofNat size }

/-- `count` live blocks were released. -/
def liveFrees (count : Nat) : Counters := { frees := UInt64.ofNat count }

/-- A retire event released `count` live blocks. -/
def retire (count : Nat) : Counters := { frees := UInt64.ofNat count, retires := 1 }

def foreignAlloc : Counters := { foreignAllocs := 1 }

def foreignFree : Counters := { foreignFrees := 1 }

/-- The counters with their labels, in the order in which they are shown. -/
def entries (c : Counters) : List (String × UInt64) :=
  [("allocs", c.allocs), ("alloc bytes", c.allocBytes), ("frees", c.frees),
    ("retire events", c.retires), ("foreign allocs", c.foreignAllocs),
    ("foreign frees", c.foreignFrees)]

end Counters

end HeapChurn
