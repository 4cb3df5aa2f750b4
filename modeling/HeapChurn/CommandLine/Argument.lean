import HeapChurn.Notice

/-!
# Arguments

Everything that can be said on the command line: options that take a value, switches that do not,
and one number that stands by itself. Each has a name under which messages speak of it, and a line
of help.
-/

namespace HeapChurn

inductive Argument where
  | heapSlots
  | iterations
  | threads
  | foreignAllocs
  | foreignBurst
  | histogram
  | allocator
  | input
  | output
  | bench
  | quiet
  | verbose
  | help
  | version
  /-- A number of threads that stands by itself. -/
  | count
  deriving Repr, DecidableEq

namespace Argument

/-- All options, in the order of the help. -/
def options : List Argument :=
  [heapSlots, iterations, threads, foreignAllocs, foreignBurst, histogram, allocator, input, output,
    bench, quiet, verbose, help, version]

/-- The long name of an option. The number that stands by itself is called after one, too. -/
def long : Argument → String
  | heapSlots => "heap-slots"
  | iterations => "iterations"
  | threads | count => "threads"
  | foreignAllocs => "foreign-allocs"
  | foreignBurst => "foreign-burst"
  | histogram => "histogram"
  | allocator => "allocator"
  | input => "input"
  | output => "output"
  | bench => "bench"
  | quiet => "quiet"
  | verbose => "verbose"
  | help => "help"
  | version => "version"

def short? : Argument → Option Char
  | threads => some 't'
  | output => some 'o'
  | quiet => some 'q'
  | verbose => some 'v'
  | help => some 'h'
  | version => some 'V'
  | _ => none

/-- The option of a long name. -/
def ofLong? (name : String) : Option Argument := options.find? (·.long = name)

/-- The option of a short name. -/
def ofShort? (c : Char) : Option Argument := options.find? (·.short? = some c)

/-- Is this an option without a value? -/
def isSwitch : Argument → Bool
  | bench | quiet | verbose | help | version => true
  | _ => false

/-- What stands for a value in messages: the long name in capitals. -/
def placeholder (a : Argument) : String :=
  String.ofList (a.long.toList.map fun c => if c = '-' then '_' else c.toUpper)

/-- How messages speak of an argument. -/
def describe (a : Argument) : String :=
  if a = count then "[" ++ a.placeholder ++ "]"
  else if a.isSwitch then "--" ++ a.long
  else "--" ++ a.long ++ " <" ++ a.placeholder ++ ">"

/-- What the help says about an argument. -/
def summary : Argument → String
  | count => "Worker thread count (mimalloc-bench style invocation)"
  | heapSlots => "Heap size in live block slots, split across workers"
  | iterations => "Workload iterations, split across workers"
  | threads => "Worker thread count"
  | foreignAllocs => "Allocations freed from a thread other than the allocating one"
  | foreignBurst => "Maximum foreign frees per iteration (default: all pending)"
  | histogram => "Histogram file of `[[bucket]]` tables with `size` and `count`"
  | allocator =>
    "Allocator under test [default: system] [possible values: system, mimalloc]"
  | input => "Read prompt answers from this file instead of stdin"
  | output => "Write the report to this file instead of stdout"
  | bench => "Non-interactive; threads default to the number of CPUs"
  | quiet => "Only warnings and errors; no prompt text"
  | verbose => "Debug logging and a per-worker breakdown"
  | help => "Print help"
  | version => "Print version"

/-- The entry of an option in the help. -/
def helpEntry (a : Argument) : String :=
  let short :=
    match a.short? with
    | some c => String.ofList ['-', c, ',', ' ']
    | none => "    "
  "  " ++ short ++ a.describe ++ "\n          " ++ a.summary ++ "\n"

end Argument

/-- The one line that says how to call the program. -/
def usage : String := "Usage: sh8bench [OPTIONS] [THREADS]\n"

def helpText : String :=
  "Stress an allocator with a reproducible, multi-threaded workload\n\n" ++ usage
    ++ "\nArguments:\n  " ++ Argument.count.describe ++ "  " ++ Argument.count.summary
    ++ "\n\nOptions:\n" ++ String.join (Argument.options.map Argument.helpEntry)

def versionText : String := "sh8bench 0.1.0\n"

end HeapChurn
