import HeapChurn.Worker

/-!
# The harness

A complete run. The main thread works out the shares and fills the foreign pool; then every worker
runs in a thread of its own; when all of them are done the main thread empties the pool. Workers
share nothing but the pool. A thread that cannot be started ends no run: the log is told, the inbox of
that worker is dropped, and the others run without it.

The workers run under a schedule: a list of turns, each of which lets a worker perform one action or
writes over the tag of a block, as a stray write of anybody could at any time. When the schedule is
used up, the workers that are not done yet finish one after the other. So every order in which the
threads may be interleaved is the run under some schedule.
-/

namespace HeapChurn

/-- A worker's thread: what it has yet to do, and what it has done. It ends without an outcome if it
was never started. -/
structure Member where
  routine : Routine (Option (Except Error WorkerReport))
  journal : Journal

/-- What happens next in a run. -/
inductive Turn where
  /-- A worker performs one action. -/
  | act (worker : Nat)
  /-- A block is written over. -/
  | overwrite (o : Overwrite)
  deriving Repr, DecidableEq

/-- The workers of a run and the pool between them. -/
structure Crew where
  pool : PoolSlots
  members : Array Member

namespace Crew

/-- Lets worker `id` perform one action. -/
def step (a : Allocator) (c : Crew) (id : Nat) : Crew :=
  match c.members[id]? with
  | none => c
  | some m =>
    let (routine, v) := m.routine.step a ⟨c.pool, m.journal⟩
    { pool := v.pool, members := c.members.setIfInBounds id { routine, journal := v.journal } }

def turn (a : Allocator) (c : Crew) : Turn → Crew
  | .act id => c.step a id
  | .overwrite o => { c with pool := c.pool.overwrite o }

/-- Lets the turns of a schedule come one after the other. -/
def follow (a : Allocator) (schedule : List Turn) (c : Crew) : Crew := schedule.foldl (turn a) c

/-- A worker that is done: its outcome, if it was started, and its journal. -/
structure Finished where
  result : Option (Except Error WorkerReport)
  journal : Journal

/-- Lets workers finish, one after the other. -/
def finish (a : Allocator) : PoolSlots → List Member → PoolSlots × List Finished
  | pool, [] => (pool, [])
  | pool, m :: rest =>
    let (result, v) := m.routine.run a ⟨pool, m.journal⟩
    let (pool, finished) := finish a v.pool rest
    (pool, { result, journal := v.journal } :: finished)

end Crew

/-- The thread of worker `id`, if it is started. If not, its inbox is dropped. -/
def Worker.spawn (a : Allocator) (id : Nat) (plan : Plan) (h : Histogram) (inbox : Option Inbox) :
    Routine (Option (Except Error WorkerReport)) :=
  match a.starts (.worker id) with
  | .ok () => some <$> thread id plan h inbox
  | .error _ => return none

namespace Plan

/-- The workers at the start of a run. Without a pool they have no inboxes. -/
def crew (p : Plan) (a : Allocator) (h : Histogram) (pool : PoolSlots) : Crew where
  pool := pool
  members :=
    let inboxes := if p.foreignTotal = 0 then #[] else p.inboxes.toArray
    Array.ofFn fun id : Fin p.workers =>
      { routine := Worker.spawn a id p h inboxes[id.val]?
        journal := { thread := .worker id } }

/-- What the log hears of the workers that could not be started. -/
def absences (p : Plan) (a : Allocator) : List Notice :=
  (List.range p.workers).filterMap fun id =>
    match a.starts (.worker id) with
    | .ok () => none
    | .error cause => some (.workerNotStarted id cause)

end Plan

/-- The reports of the workers in their order, or the error of the first that failed. -/
def firstError : List (Except Error WorkerReport) → Except Error (List WorkerReport)
  | [] => .ok []
  | .error e :: _ => .error e
  | .ok report :: rest => (report :: ·) <$> firstError rest

/-- A run that is over. -/
structure Run where
  /-- The plan and the reports of the workers, or what ended the run. -/
  result : Except Error (Plan × List WorkerReport)
  /-- The main thread when the workers start. -/
  opening : Journal
  /-- The main thread at the end. -/
  closing : Journal
  workers : List Crew.Finished

namespace Run

/-- The workers that were started. -/
def started (r : Run) : Nat := r.workers.countP (·.result.isSome)

/-- The totals of all threads. -/
def counters (r : Run) : Counters :=
  r.workers.foldl (fun sum w => sum + w.journal.counters) r.closing.counters

/-- What the log hears of a run: the main thread up to the start of the workers, the workers, and
the main thread again. -/
def notices (r : Run) : List Notice :=
  r.opening.notices.toList ++ r.workers.flatMap (·.journal.notices.toList)
    ++ r.closing.notices.toList.drop r.opening.notices.size

/-- The workers up to the first one that failed, in the order of their numbers; `none` if none
failed. -/
def untilFailure? : List Crew.Finished → Option (List Crew.Finished)
  | [] => none
  | w :: rest =>
    match w.result with
    | some (.error _) => some [w]
    | some (.ok _) | none => (untilFailure? rest).map (w :: ·)

/-- What the log hears of a run that is broken off as soon as a worker fails; `none` if none
fails. -/
def noticesUntilFailure? (r : Run) : Option (List Notice) :=
  (untilFailure? r.workers).map fun ws =>
    r.opening.notices.toList ++ ws.flatMap (·.journal.notices.toList)

end Run

namespace Harness

/-- What the main thread does before the workers start: the plan and a full pool. -/
def prepare (config : Config) (h : Histogram) : Routine (Except Error Plan) := do
  config.planNotices.forM Routine.note
  match config.plan with
  | .error e => return .error e
  | .ok plan =>
    Routine.note (.workloadStarting plan.workers plan.heapSlotsPerWorker plan.iterationsPerWorker
      plan.foreignTotal)
    if plan.foreignTotal = 0 then return .ok plan
    match ← Pool.populate plan h.firstSize with
    | .error e => return .error e
    | .ok _ => return .ok plan

/-- Runs a workload against an allocator to its end, with the workers interleaved as the schedule
says. -/
def run (a : Allocator) (config : Config) (h : Histogram) (schedule : List Turn) : Run :=
  let (prepared, v) := (prepare config h).run a ⟨#[], { thread := .main }⟩
  match prepared with
  | .error e => { result := .error e, opening := v.journal, closing := v.journal, workers := [] }
  | .ok plan =>
    let ((), v) := ((plan.absences a).forM Routine.note).run a v
    let crew := (plan.crew a h v.pool).follow a schedule
    let (pool, workers) := Crew.finish a crew.pool crew.members.toList
    let ((), last) := (Pool.tearDown plan.foreignTotal).run a ⟨pool, v.journal⟩
    { result := (plan, ·) <$> firstError (workers.filterMap (·.result))
      opening := v.journal
      closing := last.journal
      workers }

end Harness

end HeapChurn
