import HeapChurn.Sink
import HeapChurn.Text.Writing
import HeapChurn.Worker

/-!
# Reports

What a run writes when it is over: one summary line, and on demand a table with a row for each
worker and one for their totals. The columns have least widths and are three blanks apart, so two
numbers never run together, however long they are.
-/

namespace HeapChurn

/-- The counters as they are shown, one to a line. -/
def Counters.table (c : Counters) : String :=
  let row : String × UInt64 → String := fun (label, value) =>
    "  " ++ Column.alignLeft 16 label ++ " "
      ++ Column.alignRight 14 (Numeral.render value.toNat)
  "\n".intercalate (c.entries.map row)

/-- The outcome of a complete run. -/
structure Report where
  /-- Workers that were started; fewer than planned if a thread could not be started. -/
  started : Nat
  workers : List WorkerReport
  deriving Repr, DecidableEq

namespace Report

/-- The sums over all workers, as words; `worker` is the number of reports. A build without overflow
checks is meant, where a sum that is too large wraps around. -/
def totals (r : Report) : WorkerReport :=
  r.workers.foldl
    (fun sum w =>
      { sum with
        allocations := sum.allocations + w.allocations
        frees := sum.frees + w.frees
        retires := sum.retires + w.retires
        foreignFrees := sum.foreignFrees + w.foreignFrees })
    { worker := r.workers.length }

/-! ## The summary line -/

/-- How times are written. -/
structure TimeFormat where
  wall : Binary64 → String
  cpu : Binary64 → String

/-- Wall time has two decimals and processor time four. -/
def timeFormat : TimeFormat := ⟨Binary64.toFixed 2, Binary64.toFixed 4⟩

/-- The one line that sums up a run of `started` workers. -/
def summary (format : TimeFormat) (started : Nat) (elapsed : Elapsed) : String :=
  let cpu :=
    match elapsed.cpu with
    | some cpu => "(" ++ format.cpu cpu ++ " CPU)"
    | none => "(CPU n/a)"
  "Total elapsed time for " ++ Numeral.render started ++ " threads: " ++ format.wall elapsed.wall
    ++ " " ++ cpu

/-! ## The table -/

def widths : List Nat := [6, 12, 12, 8, 12]

def tableLine (cells : List String) : String :=
  "  " ++ "   ".intercalate cells ++ "\n"

/-- Cells set right in their columns. -/
def row (cells : List String) : String :=
  tableLine (List.zipWith Column.alignRight widths cells)

def figures (w : WorkerReport) : List String :=
  [w.allocations, w.frees, w.retires, w.foreignFrees].map fun n => Numeral.render n.toNat

def workerRow (w : WorkerReport) : String := row (Numeral.render w.worker :: figures w)

def table (r : Report) : String :=
  row ["worker", "allocs", "frees", "retires", "foreign"]
    ++ tableLine (widths.map Column.rule)
    ++ String.join (r.workers.map workerRow)
    ++ row ("total" :: figures r.totals)

/-- The whole text of a report. The table comes with `verbose`, and after it the counters, where
they were kept. -/
def text (r : Report) (format : TimeFormat) (elapsed : Elapsed) (verbose : Bool)
    (counters : Option Counters) : String :=
  let counted := counters.elim "" fun c => "\nCounters:\n" ++ c.table ++ "\n"
  "\n" ++ summary format r.started elapsed ++ "\n"
    ++ (if verbose then "\n" ++ r.table ++ counted else "")

end Report

end HeapChurn
