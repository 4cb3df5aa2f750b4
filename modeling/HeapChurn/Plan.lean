import HeapChurn.Notice

/-!
# Plans

A `Config` says how much work a run does; a `Plan` says what share of it falls to each worker. The
foreign blocks are dealt on a grid of one chunk for each pair of workers, so their number is rounded
down to a multiple of the square of the worker count.
-/

namespace HeapChurn

/-- A run as the user asks for it. -/
structure Config where
  /-- Live block slots over all workers. -/
  heapSlots : Nat
  /-- Iterations over all workers. -/
  iterations : Nat
  workers : Nat
  /-- Blocks allocated up front and freed by the workers. -/
  foreignAllocs : Nat
  /-- The most foreign blocks a worker frees in one iteration; `none` frees all that are pending. -/
  foreignBurst : Option Nat
  deriving Repr, DecidableEq

/-- One worker and no foreign blocks. -/
def Config.singleThreaded (heapSlots iterations : Nat) : Config where
  heapSlots := heapSlots
  iterations := iterations
  workers := 1
  foreignAllocs := 0
  foreignBurst := none

/-- The shares that every worker runs with. -/
structure Plan where
  workers : Nat := 0
  heapSlotsPerWorker : Nat := 0
  iterationsPerWorker : Nat := 0
  foreignTotal : Nat := 0
  /-- Foreign blocks that each worker frees. -/
  foreignQuota : Nat := 0
  /-- Foreign blocks that a worker frees in a row from the segment of one producer. -/
  foreignChunk : Nat := 0
  foreignBurst : Option Nat := none
  deriving Repr, DecidableEq

namespace Config

/-- A run has at least one worker. -/
def effectiveWorkers (c : Config) : Nat := if c.workers = 0 then 1 else c.workers

/-- The cells of the grid on which foreign blocks are dealt. -/
def grid (c : Config) : Nat := Word.saturatingMul c.effectiveWorkers c.effectiveWorkers

/-- The foreign blocks of the run: whole multiples of the grid. -/
def foreignTotal (c : Config) : Nat := c.foreignAllocs / c.grid * c.grid

/-- The shares of each worker; refused where a worker would be left without a slot. -/
def plan (c : Config) : Except Error Plan :=
  let workers := c.effectiveWorkers
  let heapSlotsPerWorker := c.heapSlots / workers
  if heapSlotsPerWorker = 0 then .error (.noSlots c.heapSlots workers)
  else
    let foreignQuota := c.foreignTotal / workers
    .ok {
      workers
      heapSlotsPerWorker
      iterationsPerWorker := c.iterations / workers
      foreignTotal := c.foreignTotal
      foreignQuota
      foreignChunk := foreignQuota / workers
      foreignBurst := c.foreignBurst.filter (0 < ·) }

/-- What the log hears while the shares are worked out. -/
def planNotices (c : Config) : List Notice :=
  let raised := if c.workers = 0 then [Notice.workersRaised] else []
  let rounded :=
    match c.plan with
    | .error _ => []
    | .ok plan =>
      if plan.foreignTotal = c.foreignAllocs then []
      else [.foreignRoundedDown c.foreignAllocs plan.foreignTotal]
  raised ++ rounded

end Config

end HeapChurn
