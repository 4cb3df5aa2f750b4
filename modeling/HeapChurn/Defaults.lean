import HeapChurn.Histogram
import HeapChurn.Plan

/-!
# Defaults

What a run does where nobody says otherwise. The defaults and the table of the default histogram
are fixed when the program is built; the standard ones are those of a build without a choice of its
own.
-/

namespace HeapChurn

/-- The values of a configuration that is not given any. -/
structure Defaults where
  heapSlots : Nat := 1000000
  iterations : Nat := 100000
  threads : Nat := 16
  foreignAllocs : Nat := 10000000
  foreignBurst : Option Nat := none
  deriving Repr, DecidableEq

namespace Defaults

/-- The defaults of a build that sets none. -/
def standard : Defaults := {}

/-- The run that the defaults describe. -/
def config (d : Defaults) : Config where
  heapSlots := d.heapSlots
  iterations := d.iterations
  workers := d.threads
  foreignAllocs := d.foreignAllocs
  foreignBurst := d.foreignBurst

end Defaults

namespace Histogram

/-- The sizes that a program asks for: mostly small ones, and now and then a large one. -/
def standardTable : List Bucket :=
  [⟨8, 1000⟩, ⟨16, 5000⟩, ⟨48, 1000⟩, ⟨72, 100⟩, ⟨148, 100⟩, ⟨200, 100⟩, ⟨520, 10⟩, ⟨1056, 5⟩,
    ⟨4096, 3⟩, ⟨9162, 1⟩, ⟨34562, 1⟩, ⟨168524, 1⟩]

def standard : Histogram where
  buckets := standardTable
  buckets_ne_nil := by decide
  size_pos := by decide

end Histogram

end HeapChurn
