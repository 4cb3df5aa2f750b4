import HeapChurn.CommandLine.Argument
import HeapChurn.Text.Terminal

/-!
# Options

What a command line asks for, and what can be wrong with one. A value is checked when it is given
to its argument; that an argument is given twice counts for more than a bad value.
-/

namespace HeapChurn

inductive UsageError where
  | unexpectedArgument (text : String)
  /-- A value for a switch. -/
  | unexpectedValue (value : String) (a : Argument)
  | valueRequired (a : Argument)
  | badNumber (value : String) (a : Argument) (fault : Numeral.Fault)
  | badChoice (value : String) (a : Argument)
  | repeated (a : Argument)
  | conflict (a other : Argument)
  deriving Repr, DecidableEq

/-- The wording for the user of the program. Words of the command line are shown as they would be on
a terminal, without what controls it. -/
def UsageError.message : UsageError → String
  | .unexpectedArgument text =>
    "error: unexpected argument '" ++ Terminal.strip text ++ "' found"
  | .unexpectedValue value a =>
    "error: unexpected value '" ++ Terminal.strip value ++ "' for '" ++ a.describe
      ++ "' found; no more were expected"
  | .valueRequired a =>
    "error: a value is required for '" ++ a.describe ++ "' but none was supplied"
  | .badNumber value a fault =>
    "error: invalid value '" ++ Terminal.strip value ++ "' for '" ++ a.describe ++ "': "
      ++ fault.message
  | .badChoice value a =>
    "error: invalid value '" ++ Terminal.strip value ++ "' for '" ++ a.describe ++ "'"
  | .repeated a => "error: the argument '" ++ a.describe ++ "' cannot be used multiple times"
  | .conflict a other =>
    "error: the argument '" ++ a.describe ++ "' cannot be used with '" ++ other.describe ++ "'"

/-- What a command line asks for. -/
structure Options where
  heapSlots : Option Nat := none
  iterations : Option Nat := none
  threads : Option Nat := none
  /-- The number of threads that stands by itself. -/
  count : Option Nat := none
  foreignAllocs : Option Nat := none
  foreignBurst : Option Nat := none
  histogram : Option String := none
  allocator : AllocatorKind := .system
  input : Option String := none
  output : Option String := none
  bench : Bool := false
  quiet : Bool := false
  verbose : Bool := false
  deriving Repr, DecidableEq

namespace Options

/-- The number that a value denotes. -/
def number (a : Argument) (value : String) : Except UsageError Nat :=
  (Numeral.readWord value.toList).mapError (.badNumber value a)

/-- The path that a value denotes. -/
def path (a : Argument) (value : String) : Except UsageError String :=
  if value = "" then .error (.valueRequired a) else .ok value

/-- The allocator that a value names. -/
def kind (a : Argument) (value : String) : Except UsageError AllocatorKind :=
  if value = "system" then .ok .system
  else if value = "mimalloc" then .ok .mimalloc
  else if value = "" then .error (.valueRequired a)
  else .error (.badChoice value a)

/-- Gives a value to an argument that takes one. -/
def set (o : Options) (a : Argument) (value : String) : Except UsageError Options := do
  match a with
  | .heapSlots => return { o with heapSlots := ← number a value }
  | .iterations => return { o with iterations := ← number a value }
  | .threads => return { o with threads := ← number a value }
  | .count => return { o with count := ← number a value }
  | .foreignAllocs => return { o with foreignAllocs := ← number a value }
  | .foreignBurst => return { o with foreignBurst := ← number a value }
  | .histogram => return { o with histogram := ← path a value }
  | .allocator => return { o with allocator := ← kind a value }
  | .input => return { o with input := ← path a value }
  | .output => return { o with output := ← path a value }
  | .bench | .quiet | .verbose | .help | .version => return o

/-- Turns a switch on. -/
def turnOn (o : Options) : Argument → Options
  | .bench => { o with bench := true }
  | .quiet => { o with quiet := true }
  | .verbose => { o with verbose := true }
  | _ => o

/-- The number of threads that is asked for; the named option counts for more than the number that
stands by itself. -/
def threadCount (o : Options) : Option Nat := o.threads.or o.count

/-- The least severe notices that are shown. -/
def logLimit (o : Options) : Severity :=
  if o.verbose then .debug else if o.quiet then .warn else .info

end Options

end HeapChurn
