import HeapChurn.Error

/-!
# Notices

What a run tells its log. A notice is the thing that happened; its severity, the part of the
program that speaks, the message and the named fields follow from it.
-/

namespace HeapChurn

inductive Severity where
  | error
  | warn
  | info
  | debug
  deriving Repr, DecidableEq

namespace Severity

/-- The more often a severity occurs, the higher its rank. -/
def rank : Severity → Nat
  | .error => 0
  | .warn => 1
  | .info => 2
  | .debug => 3

def label : Severity → String
  | .error => "ERROR"
  | .warn => "WARN"
  | .info => "INFO"
  | .debug => "DEBUG"

/-- A log that is kept to `limit` shows a notice of severity `s` only if it is no less severe. -/
def shownAt (limit s : Severity) : Bool := s.rank ≤ limit.rank

end Severity

/-- The part of the program that a notice comes from. -/
inductive Speaker where
  | program
  | config
  | foreign
  | harness
  | worker
  deriving Repr, DecidableEq

def Speaker.label : Speaker → String
  | .program => "sh8bench"
  | .config => "sh8bench::config"
  | .foreign => "sh8bench::foreign"
  | .harness => "sh8bench::harness"
  | .worker => "sh8bench::worker"

inductive FieldValue where
  | number (value : Nat)
  | text (value : String)
  | seconds (value : Binary64)
  deriving Repr, DecidableEq

/-- The allocators that can be put under test. -/
inductive AllocatorKind where
  | system
  | mimalloc
  deriving Repr, DecidableEq

def AllocatorKind.label : AllocatorKind → String
  | .system => "System"
  | .mimalloc => "Mimalloc"

/-- Time that a run took: on the wall clock and, where known, on the processor. -/
structure Elapsed where
  wall : Binary64
  cpu : Option Binary64
  deriving Repr, DecidableEq

inductive Notice where
  | configured (allocator : AllocatorKind) (buckets : Nat)
  | workersRaised
  | foreignRoundedDown (requested normalized : Nat)
  | workloadStarting (workers slotsPerWorker iterationsPerWorker foreign : Nat)
  | poolPopulated (total blockSize quota chunk : Nat)
  | workerNotStarted (worker : Nat) (cause : IoError)
  | workerStarted (worker slots iterations foreign : Nat)
  | tagMismatch (worker slot found : Nat)
  | workerFinished (worker : Nat) (allocations retires foreignFrees : UInt64)
  | workerFailed (worker : Nat) (error : Error)
  | leftoverReleased (leftover : Nat)
  | workloadFinished (elapsed : Elapsed)
  deriving Repr, DecidableEq

namespace Notice

def severity : Notice → Severity
  | .configured .. | .workloadStarting .. | .workloadFinished .. => .info
  | .workersRaised | .workerNotStarted .. => .warn
  | .tagMismatch .. | .workerFailed .. => .error
  | .foreignRoundedDown .. | .poolPopulated .. | .workerStarted .. | .workerFinished ..
  | .leftoverReleased .. => .debug

def speaker : Notice → Speaker
  | .configured .. => .program
  | .workersRaised | .foreignRoundedDown .. => .config
  | .poolPopulated .. | .tagMismatch .. | .leftoverReleased .. => .foreign
  | .workloadStarting .. | .workerNotStarted .. | .workerFailed .. | .workloadFinished .. =>
    .harness
  | .workerStarted .. | .workerFinished .. => .worker

def message : Notice → String
  | .configured .. => "configured"
  | .workersRaised => "worker count of 0 raised to 1"
  | .foreignRoundedDown .. =>
    "foreign allocation count rounded down to a multiple of workers squared"
  | .workloadStarting .. => "starting workload"
  | .poolPopulated .. => "foreign pool populated"
  | .workerNotStarted .. => "failed to start worker thread"
  | .workerStarted .. => "worker started"
  | .tagMismatch .. => "foreign block tag does not match its slot"
  | .workerFinished .. => "worker finished"
  | .workerFailed .. => "fatal workload failure"
  | .leftoverReleased .. => "released undrained foreign blocks"
  | .workloadFinished .. => "workload finished"

def fields : Notice → List (String × FieldValue)
  | .configured allocator buckets =>
    [("allocator", .text allocator.label), ("buckets", .number buckets)]
  | .workersRaised => []
  | .foreignRoundedDown requested normalized =>
    [("requested", .number requested), ("normalized", .number normalized)]
  | .workloadStarting workers slotsPerWorker iterationsPerWorker foreign =>
    [("workers", .number workers), ("slots_per_worker", .number slotsPerWorker),
      ("iterations_per_worker", .number iterationsPerWorker), ("foreign", .number foreign)]
  | .poolPopulated total blockSize quota chunk =>
    [("total", .number total), ("block_size", .number blockSize), ("quota", .number quota),
      ("chunk", .number chunk)]
  | .workerNotStarted worker cause => [("worker", .number worker), ("error", .text cause.message)]
  | .workerStarted worker slots iterations foreign =>
    [("worker", .number worker), ("slots", .number slots), ("iterations", .number iterations),
      ("foreign", .number foreign)]
  | .tagMismatch worker slot found =>
    [("worker", .number worker), ("slot", .number slot), ("found", .number found)]
  | .workerFinished worker allocations retires foreignFrees =>
    [("worker", .number worker), ("allocations", .number allocations.toNat),
      ("retires", .number retires.toNat), ("foreign_frees", .number foreignFrees.toNat)]
  | .workerFailed worker error => [("worker", .number worker), ("error", .text error.message)]
  | .leftoverReleased leftover => [("leftover", .number leftover)]
  | .workloadFinished elapsed =>
    ("wall_secs", .seconds elapsed.wall)
      :: (elapsed.cpu.map fun cpu => ("cpu_secs", FieldValue.seconds cpu)).toList

/-- One line of the log. Times are written by `seconds`, so that a caller can choose their form. -/
def line (seconds : Binary64 → String) (n : Notice) : String :=
  let value : FieldValue → String
    | .number value => Numeral.render value
    | .text value => value
    | .seconds value => seconds value
  let fields := n.fields.map fun (name, v) => " " ++ name ++ "=" ++ value v
  n.severity.label ++ " " ++ n.speaker.label ++ ": " ++ n.message ++ String.join fields

end Notice

end HeapChurn
