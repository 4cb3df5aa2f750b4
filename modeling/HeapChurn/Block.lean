import HeapChurn.Word

/-!
# Blocks

What the workload asks an allocator for and what it gets. A request carries a `Layout`; a granted
request becomes a `Block`, which remembers its layout so that it can be handed back with it. Blocks
are told apart by the thread that asked and by the number of the call, so that no two calls of a
run ever make the same block.
-/

namespace HeapChurn

/-- The threads of a run: the one that fills the pool and starts the others, and the workers. -/
inductive Thread where
  | main
  | worker (id : Nat)
  deriving Repr, DecidableEq, Hashable

/-- Alignment of every request of the workload. -/
def blockAlign : Nat := 8

/-- Size and alignment of a request, in bytes. -/
structure Layout where
  size : Nat
  align : Nat
  deriving Repr, DecidableEq

namespace Layout

/-- The largest size that has a layout: rounded up to the alignment it must stay an object. -/
def largestSize : Nat := Word.largestObject + 1 - blockAlign

/-- The layout of a request for `size` bytes, if there is one. -/
def ofSize? (size : Nat) : Option Layout :=
  if size ≤ largestSize then some { size, align := blockAlign } else none

/-- A live block is never empty: a request for no bytes is served with one. -/
def forLive? (size : Nat) : Option Layout := ofSize? (max size 1)

/-- A foreign block starts with a tag of one word, so it is at least that long. -/
def forForeign? (size : Nat) : Option Layout := ofSize? (max size 8)

end Layout

/-- The `call`-th allocation call of a thread, failed calls counted, makes this block. -/
structure BlockId where
  thread : Thread
  call : Nat
  deriving Repr, DecidableEq, Hashable

/-- A block that the allocator handed out, with the layout it was asked for. -/
structure Block where
  id : BlockId
  layout : Layout
  deriving Repr, DecidableEq

/-- A foreign block. Its first word names the pool slot in which it was stored. -/
structure TaggedBlock where
  block : Block
  tag : Nat
  deriving Repr, DecidableEq

/-- What an allocator sees of the workload, call by call. -/
inductive Event where
  | granted (block : Block)
  | refused (block : Block)
  | released (block : Block)
  deriving Repr, DecidableEq

end HeapChurn
