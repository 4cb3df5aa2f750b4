import HeapChurn.CommandLine.Scan
import HeapChurn.Harness
import HeapChurn.Histogram.File
import HeapChurn.Session.Ending
import HeapChurn.Session.Host
import HeapChurn.Session.Interview

/-!
# Sessions

One call of the program from its command line to its exit: the histogram is loaded, the
configuration is settled, the file of the report is made, the workload runs, and the report is
written. The first step that fails ends the session, with the log as it is by then.
-/

namespace HeapChurn

/-- What is fixed when the program is built. -/
structure Edition where
  defaults : Defaults := .standard
  histogram : Histogram := .standard
  /-- Does the report show the counters? -/
  counts : Bool := false
  /-- The library that reads histogram files. -/
  toml : Toml.Library := Toml.library

namespace Session

variable {m : Type → Type} [Monad m]

/-- A step of a session, which may be its last. -/
abbrev Stage (m : Type → Type) (α : Type) : Type := ExceptT Ending m α

/-- A step that may fail. -/
def attempt {ε α : Type} (failure : ε → Failure) (act : m (Except ε α)) : Stage m α :=
  ExceptT.mk ((Except.mapError fun e => .failure (failure e)) <$> act)

/-- Writes to the log what its limit lets through. -/
def tell (host : Host m) (limit : Severity) (notices : List Notice) : Stage m Unit :=
  (notices.filter fun n => limit.shownAt n.severity).forM fun n => host.tell n

/-- The histogram of a run. -/
def loadHistogram (host : Host m) (edition : Edition) (o : Options) : Stage m Histogram :=
  match o.histogram with
  | none => return edition.histogram
  | some path =>
    attempt (.loadHistogram path) ((Histogram.ofContents · edition.toml) <$> host.read path)

/-- Where answers come from: a file that is named, or else a terminal. At a benchmark nobody is
asked. -/
def answers? (host : Host m) (o : Options) : Option (Stage m Source) :=
  match o.input with
  | some path => some (attempt (.openAnswers path) (host.openAnswers path))
  | none => if o.bench then none else host.terminal.map ExceptT.lift

/-- The configuration of a run. What an interview has shown is printed, however it ends. -/
def settleConfig (host : Host m) (edition : Edition) (o : Options) : Stage m Config := do
  match answers? host o with
  | none => return o.config edition.defaults host.processors
  | some answers =>
    let source ← answers
    let (config, p) :=
      (o.interview edition.defaults host.processors).run { source, sink := {}, echo := !o.quiet }
    attempt .readAnswers (host.print p.sink.written)
    attempt .readAnswers (pure config)

/-- Runs a workload. It is broken off when a worker fails. -/
def runWorkload (host : Host m) (o : Options) (config : Config) (h : Histogram) :
    Stage m (Run × Elapsed × List WorkerReport) := do
  let (run, elapsed) ← host.timed fun _ => Harness.run (host.allocator o.allocator) config h []
  match run.result with
  | .ok (_, workers) =>
    tell host o.logLimit (run.notices ++ [.workloadFinished elapsed])
    return (run, elapsed, workers)
  | .error cause =>
    match run.noticesUntilFailure? with
    | some notices =>
      tell host o.logLimit notices
      throw .workerFailed
    | none =>
      tell host o.logLimit run.notices
      throw (.failure (.workload cause))

/-- Runs a workload and reports it. -/
def work (host : Host m) (edition : Edition) (o : Options) : Stage m Unit := do
  let h ← loadHistogram host edition o
  let config ← settleConfig host edition o
  tell host o.logLimit [.configured o.allocator h.buckets.length]
  if let some path := o.output then
    attempt (.createReport path) (host.write path [])
  let (run, elapsed, workers) ← runWorkload host o config h
  let report : Report := { started := run.started, workers }
  let counters := if edition.counts then some run.counters else none
  let text := Utf8.encode (report.text host.times elapsed o.verbose counters)
  attempt .writeReport <|
    match o.output with
    | some path => host.write path text
    | none => host.print text

/-- A session from its first word to its end. -/
def run (host : Host m) (edition : Edition) (words : List String) : m Ending := do
  let stop : Except Ending Unit ←
    match Invocation.ofWords words with
    | .error e => pure (.error (.usage e))
    | .ok .help => (attempt .writeReport (host.print (Utf8.encode helpText))).run
    | .ok .version => (attempt .writeReport (host.print (Utf8.encode versionText))).run
    | .ok (.run o) => (work host edition o).run
  match stop with
  | .ok () => return .success
  | .error ending => return ending

end Session

end HeapChurn
