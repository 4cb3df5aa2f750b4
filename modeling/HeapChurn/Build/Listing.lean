import HeapChurn.Build

/-!
# Listings

The two source files that a build writes, one with the defaults and one with the table, and the
lines by which it names what it depends on.
-/

namespace HeapChurn

namespace Baked

def banner : String := "// Auto-generated by build.rs. Do not edit.\n\n"

/-- One constant of the listing of defaults. -/
def constant (name type value : String) : String :=
  "pub const DEFAULT_" ++ name ++ ": " ++ type ++ " = " ++ value ++ ";\n"

/-- A number that need not be there. -/
def optional : Option Nat → String
  | some n => "Some(" ++ Numeral.render n ++ ")"
  | none => "None"

def defaultsListing (b : Baked) : String :=
  let word (name : String) (n : Nat) : String := constant name "usize" (Numeral.render n)
  banner ++ word "HEAP_SLOTS" b.defaults.heapSlots ++ word "ITERATIONS" b.defaults.iterations
    ++ word "THREADS" b.defaults.threads ++ word "FOREIGN_ALLOCS" b.defaults.foreignAllocs
    ++ constant "FOREIGN_BURST" "Option<usize>" (optional b.defaults.foreignBurst)

/-- One row of the listing of the table. -/
def rowListing (b : Bucket) : String :=
  "    HistogramEntry \x7b size: " ++ Numeral.render b.size ++ ", count: "
    ++ Numeral.render b.count ++ " \x7d,\n"

def tableListing (b : Baked) : String :=
  banner ++ "pub static DEFAULT_HISTOGRAM: [HistogramEntry; " ++ Numeral.render b.table.length
    ++ "] = [\n" ++ String.join (b.table.map rowListing) ++ "];\n"

end Baked

namespace Build

/-- What a build says about itself: it has to be run again when the choice of its file changes, or
the file does. -/
def dependencies (path : String) : String :=
  "cargo:rerun-if-env-changed=SH8BENCH_CONFIG\ncargo:rerun-if-changed=" ++ path ++ "\n"

end Build

end HeapChurn
