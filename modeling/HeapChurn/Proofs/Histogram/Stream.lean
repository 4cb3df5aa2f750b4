import HeapChurn.Histogram

/-!
# Request streams

The requests of so many iterations in a row. An iteration makes the requests of one bucket, and the
walk over the table is the walk over its places modulo its length, so the stream can be written down
without a cursor (`stream_start`).
-/

namespace HeapChurn

def Bucket.requests (b : Bucket) : List Nat := List.replicate b.count b.size

namespace Histogram

variable {table : Histogram}

/-- The bucket of iteration `i`, counted from 0. -/
def bucketAt (table : Histogram) (i : Nat) : Bucket :=
  table.buckets.get ⟨i % table.buckets.length, Nat.mod_lt i table.length_pos⟩

/-- The sizes requested in `n` iterations. -/
def stream (table : Histogram) (n : Nat) : List Nat :=
  (List.range n).flatMap fun i => (table.bucketAt i).requests

/-- The sizes requested in the next `n` iterations. -/
def Cursor.stream (c : table.Cursor) : Nat → List Nat
  | 0 => []
  | n + 1 => c.bucket.requests ++ c.advance.stream n

theorem Cursor.bucket_eq (c : table.Cursor) : c.bucket = table.bucketAt c.position := by
  unfold bucket bucketAt
  congr 1
  exact Fin.ext (Nat.mod_eq_of_lt c.index.isLt).symm

theorem Cursor.position_advance (c : table.Cursor) :
    c.advance.position = (c.position + 1) % table.buckets.length := by
  unfold advance
  split
  · rename_i hnext
    exact (Nat.mod_eq_of_lt hnext).symm
  · rename_i hlast
    have hlt : c.position < table.buckets.length := c.index.isLt
    rw [show c.position + 1 = table.buckets.length by omega, Nat.mod_self]
    rfl

theorem bucketAt_mod_add (table : Histogram) (i j : Nat) :
    table.bucketAt (i % table.buckets.length + j) = table.bucketAt (i + j) := by
  unfold bucketAt
  congr 1
  exact Fin.ext (Nat.mod_add_mod i table.buckets.length j)

theorem Cursor.stream_eq : ∀ (n : Nat) (c : table.Cursor), c.stream n
    = (List.range n).flatMap fun i => (table.bucketAt (c.position + i)).requests
  | 0, _ => rfl
  | n + 1, c => by
      rw [List.range_succ_eq_map, List.flatMap_cons, List.flatMap_map, stream, stream_eq n,
        c.bucket_eq, c.position_advance]
      simp only [bucketAt_mod_add, Nat.add_zero, Nat.succ_eq_add_one, Nat.add_assoc,
        Nat.add_comm 1]

theorem stream_start (table : Histogram) (n : Nat) : table.start.stream n = table.stream n := by
  rw [Cursor.stream_eq]
  simp only [show table.start.position = 0 from rfl, Nat.zero_add]
  rfl

end Histogram

end HeapChurn
