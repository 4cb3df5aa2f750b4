import HeapChurn.Histogram
import HeapChurn.Inbox
import HeapChurn.LiveSlots

/-!
# Workers

The control loop of one worker. Each iteration frees pending foreign blocks, takes the next bucket
of the histogram and issues its requests through the live slots. When the iterations are done, the
foreign blocks still owed are freed, then every live block that is left. A worker that fails stops
at once and only frees its live blocks.
-/

namespace HeapChurn

/-- What one worker did during a run. -/
structure WorkerReport where
  worker : Nat
  /-- Blocks allocated into live slots. -/
  allocations : UInt64 := 0
  /-- Live blocks freed, the last clean-up included. -/
  frees : UInt64 := 0
  retires : UInt64 := 0
  /-- Foreign blocks that this worker freed. -/
  foreignFrees : UInt64 := 0
  deriving Repr, DecidableEq

/-- A worker in the middle of its work. -/
structure Worker (h : Histogram) where
  id : Nat
  plan : Plan
  inbox : Option Inbox
  slots : LiveSlots
  sizes : h.Cursor
  foreignFrees : UInt64 := 0

namespace Worker

variable {h : Histogram}

/-- A worker before its first iteration, unless its slots are too many for any array. -/
def create (id : Nat) (plan : Plan) (h : Histogram) (inbox : Option Inbox) :
    Except Error (Worker h) := do
  let slots ← LiveSlots.ofCapacity plan.heapSlotsPerWorker
  return { id, plan, inbox, slots, sizes := h.start }

def remaining (w : Worker h) : Nat := w.inbox.elim 0 Inbox.remaining

def report (w : Worker h) : WorkerReport where
  worker := w.id
  allocations := w.slots.allocated
  frees := w.slots.freed
  retires := w.slots.retires
  foreignFrees := w.foreignFrees

/-- Frees foreign blocks, at most `limit` of them, if the worker has an inbox. -/
def drain (w : Worker h) (limit : Option Nat) : Routine (Except Error Unit × Worker h) := do
  match w.inbox with
  | none => return (.ok (), w)
  | some inbox =>
    match ← inbox.drain limit with
    | (.error e, inbox) => return (.error e, { w with inbox := some inbox })
    | (.ok freed, inbox) =>
      return (.ok (), {
        w with inbox := some inbox, foreignFrees := w.foreignFrees + UInt64.ofNat freed })

/-- One iteration. -/
def iterate (w : Worker h) : Routine (Except Error Unit × Worker h) := do
  match ← w.drain w.plan.foreignBurst with
  | (.error e, w) => return (.error e, w)
  | (.ok _, w) =>
    let bucket := w.sizes.bucket
    let (result, slots) ← w.slots.allocateMany bucket.size bucket.count
    return (result, { w with slots, sizes := w.sizes.advance })

/-- `count` iterations, up to the first that fails. -/
def iterations : Nat → Worker h → Routine (Except Error Unit × Worker h)
  | 0, w => return (.ok (), w)
  | count + 1, w => do
    match ← w.iterate with
    | (.error e, w) => return (.error e, w)
    | (.ok _, w) => iterations count w

/-- All iterations and then the foreign blocks still owed. -/
def workOff (w : Worker h) : Routine (Except Error Unit × Worker h) := do
  match ← iterations w.plan.iterationsPerWorker w with
  | (.error e, w) => return (.error e, w)
  | (.ok _, w) => w.drain none

/-- The life of a worker from its first iteration to its report. Its live blocks are freed at the
end, whatever the outcome. -/
def run (w : Worker h) : Routine (Except Error WorkerReport) := do
  Routine.note (.workerStarted w.id w.slots.capacity w.plan.iterationsPerWorker w.remaining)
  let (result, w) ← w.workOff
  let (_, slots) ← w.slots.releaseAll
  match result with
  | .error e => return .error e
  | .ok _ =>
    let report := { w with slots }.report
    Routine.note (.workerFinished w.id report.allocations report.retires report.foreignFrees)
    return .ok report

/-- Makes a worker and runs it. -/
def attempt (id : Nat) (plan : Plan) (h : Histogram) (inbox : Option Inbox) :
    Routine (Except Error WorkerReport) :=
  match create id plan h inbox with
  | .error e => return .error e
  | .ok w => do
    if ← Routine.reserve w.slots.capacity then w.run
    else return .error (.setup .liveSlots)

/-- Tells the log if worker `id` failed. -/
def announce (id : Nat) : Except Error WorkerReport → Routine Unit
  | .error e => Routine.note (.workerFailed id e)
  | .ok _ => return ()

/-- What the thread of worker `id` does. -/
def thread (id : Nat) (plan : Plan) (h : Histogram) (inbox : Option Inbox) :
    Routine (Except Error WorkerReport) := do
  let result ← attempt id plan h inbox
  announce id result
  return result

end Worker

end HeapChurn
