import HeapChurn.Defaults
import HeapChurn.Histogram.File

/-!
# Building

A build reads one configuration file and fixes from it the defaults and the default table of the
program. Unlike a histogram file, a build file may have a record `defaults` beside the buckets, and
its checks have a wording of their own, meant for whoever builds the program.
-/

namespace HeapChurn

/-- What a build fixes. -/
structure Baked where
  defaults : Defaults
  table : List Bucket
  deriving Repr, DecidableEq

namespace Build

/-- Why nothing is built. -/
inductive Refusal where
  | unreadable (path : String) (cause : IoError)
  | badDocument (fault : DocumentFault)
  | noHeapSlots
  | noThreads
  | fewSlots (heapSlots threads : Nat)
  | zeroBurst
  | noBuckets
  | zeroSize (index : Nat)
  deriving Repr, DecidableEq

def Refusal.message : Refusal → String
  | .unreadable path cause => "failed to read " ++ path ++ ": " ++ cause.message
  | .badDocument .malformed => "failed to parse TOML config"
  | .badDocument (.shape fault) => "failed to parse TOML config: " ++ fault.message
  | .noHeapSlots => "heap_slots must be > 0"
  | .noThreads => "threads must be > 0"
  | .fewSlots heapSlots threads =>
    "heap_slots (" ++ Numeral.render heapSlots ++ ") must be >= threads (" ++ Numeral.render threads
      ++ ")"
  | .zeroBurst => "foreign_burst must be > 0 when set"
  | .noBuckets => "SH8BENCH_CONFIG: no histogram buckets defined"
  | .zeroSize index => "bucket " ++ Numeral.render index ++ ": size must be > 0"

/-! ## Reading -/

/-- The fields of the record of defaults, in the order in which an array gives them. -/
def defaultsFields : List String :=
  ["heap_slots", "iterations", "threads", "foreign_allocs", "foreign_burst"]

/-- What a record of defaults says; a field that it leaves out keeps its standard value. -/
def defaultsOf (given : Schema.Fields) : Defaults where
  heapSlots := (given.lookup "heap_slots").getD Defaults.standard.heapSlots
  iterations := (given.lookup "iterations").getD Defaults.standard.iterations
  threads := (given.lookup "threads").getD Defaults.standard.threads
  foreignAllocs := (given.lookup "foreign_allocs").getD Defaults.standard.foreignAllocs
  foreignBurst := given.lookup "foreign_burst"

/-- Reads one key of a build file into what the keys before it gave. -/
def readEntry (toml : Toml.Library) (baked : Baked) (entry : String × Toml.Value) :
    Except Schema.Fault Baked :=
  match entry with
  | ("defaults", v) => do
    let given ← toml.record "DefaultsSection" defaultsFields v
    return { baked with defaults := defaultsOf given }
  | ("bucket", v) => do
    let table ← toml.sequence (Bucket.decode "Bucket" toml) v
    return { baked with table }
  | _ => .ok baked

/-- What a build file says, key by key in the order of the file. -/
def read (document : Toml.Table) (toml : Toml.Library := Toml.library) :
    Except Schema.Fault Baked :=
  document.foldlM (readEntry toml) { defaults := .standard, table := [] }

/-! ## Checking -/

/-- A run with the defaults has to have a thread, and a slot for every thread. -/
def checkDefaults (d : Defaults) : Except Refusal Unit :=
  if d.heapSlots = 0 then .error .noHeapSlots
  else if d.threads = 0 then .error .noThreads
  else if d.heapSlots < d.threads then .error (.fewSlots d.heapSlots d.threads)
  else if d.foreignBurst = some 0 then .error .zeroBurst
  else .ok ()

/-- The table has to make a histogram. -/
def checkTable (table : List Bucket) : Except Refusal Unit :=
  if table = [] then .error .noBuckets
  else
    match Histogram.firstZero? table with
    | some index => .error (.zeroSize index)
    | none => .ok ()

/-- What a build fixes by a document. -/
def ofDocument (document : Toml.Table) (toml : Toml.Library := Toml.library) :
    Except Refusal Baked :=
  match read document toml with
  | .error fault => .error (.badDocument (.shape fault))
  | .ok baked => do
    checkDefaults baked.defaults
    checkTable baked.table
    return baked

/-- What a build fixes by the text of a file. -/
def ofText (text : String) (toml : Toml.Library := Toml.library) : Except Refusal Baked :=
  match toml.parse text with
  | none => .error (.badDocument .malformed)
  | some document => ofDocument document toml

/-- What a build fixes by the file of that path. -/
def ofContents (path : String) (contents : Contents) (toml : Toml.Library := Toml.library) :
    Except Refusal Baked :=
  match contents.text with
  | .error cause => .error (.unreadable path cause)
  | .ok text => ofText text toml

end Build

end HeapChurn
