import HeapChurn.Error

/-!
# Histograms

An ordered table of block sizes and how many requests of each size come in a row. A worker walks the
table round and round, so two runs with the same table ask for the same sizes in the same order,
whatever the allocator.
-/

namespace HeapChurn

/-- `count` requests in a row for blocks of `size` bytes. -/
structure Bucket where
  size : Nat
  count : Nat
  deriving Repr, DecidableEq

/-- A table of at least one bucket in which no size is zero. -/
structure Histogram where
  buckets : List Bucket
  buckets_ne_nil : buckets ≠ []
  size_pos : ∀ b ∈ buckets, 0 < b.size
  deriving Repr, DecidableEq

namespace Histogram

/-- The place of the first bucket of size zero. -/
def firstZero? (buckets : List Bucket) : Option Nat := buckets.findIdx? (·.size = 0)

theorem size_pos_of_firstZero? {buckets : List Bucket} (h : firstZero? buckets = none) :
    ∀ b ∈ buckets, 0 < b.size := by
  intro b hb
  have := List.findIdx?_eq_none_iff.1 h b hb
  simp at this
  omega

/-- Checks a table. An empty one is found before one with a zero size. -/
def ofBuckets (buckets : List Bucket) : Except Error Histogram :=
  if hne : buckets = [] then .error .emptyHistogram
  else
    match hz : firstZero? buckets with
    | some index => .error (.zeroBlockSize index)
    | none => .ok ⟨buckets, hne, size_pos_of_firstZero? hz⟩

/-- The size of the first bucket. Foreign blocks have this size, so that the blocks freed by other
threads meet those of the same size class. -/
def firstSize (h : Histogram) : Nat := (h.buckets.head h.buckets_ne_nil).size

/-- Requests in one full pass over the table, as a word. -/
def requestsPerCycle (h : Histogram) : UInt64 :=
  h.buckets.foldl (fun sum b => sum + UInt64.ofNat b.count) 0

theorem length_pos (h : Histogram) : 0 < h.buckets.length :=
  List.length_pos_iff.2 h.buckets_ne_nil

/-- A place on the endless walk over the table: the bucket that comes next. -/
structure Cursor (h : Histogram) where
  index : Fin h.buckets.length

/-- The walk starts at the first bucket. -/
def start (h : Histogram) : h.Cursor := ⟨⟨0, h.length_pos⟩⟩

namespace Cursor

variable {h : Histogram}

/-- The number of the bucket that comes next. -/
def position (c : h.Cursor) : Nat := c.index

def bucket (c : h.Cursor) : Bucket := h.buckets.get c.index

/-- After the last bucket comes the first. -/
def advance (c : h.Cursor) : h.Cursor :=
  if next : c.position + 1 < h.buckets.length then ⟨⟨c.position + 1, next⟩⟩ else h.start

/-- The place `count` buckets further on. -/
def skip (c : h.Cursor) : Nat → h.Cursor
  | 0 => c
  | count + 1 => c.advance.skip count

/-- The next `count` buckets, and the place after them. -/
def take (c : h.Cursor) : Nat → List Bucket × h.Cursor
  | 0 => ([], c)
  | count + 1 =>
    let (rest, last) := c.advance.take count
    (c.bucket :: rest, last)

end Cursor

end Histogram

end HeapChurn
