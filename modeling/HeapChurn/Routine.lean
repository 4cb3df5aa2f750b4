import HeapChurn.Counters
import HeapChurn.Notice

/-!
# Routines

A thread of the workload as data: a finite tree of the single actions it performs, each followed by
what it does with the answer. A routine says nothing of who answers. The same routine can be run
alone to its end or one action at a time between the actions of other threads, so what a worker
does is written down once and both readings are available to reason about.
-/

namespace HeapChurn

/-- One indivisible action of a thread. -/
inductive Action where
  /-- Reserve an array of block slots. -/
  | reserve (slots : Nat)
  /-- Ask the allocator for a block. -/
  | request (layout : Layout)
  /-- Hand a block back to the allocator. -/
  | release (block : Block)
  /-- Take the block out of a slot of the foreign pool. -/
  | take (slot : Nat)
  /-- Store a block in the next slot of the foreign pool. -/
  | store (block : TaggedBlock)
  /-- Tell the log. -/
  | note (notice : Notice)
  /-- Add to the workload counters. -/
  | count (growth : Counters)
  deriving Repr, DecidableEq

/-- What the thread gets back. -/
abbrev Action.Answer : Action → Type
  | .reserve _ => Bool
  | .request _ => Option Block
  | .take _ => Option TaggedBlock
  | _ => Unit

inductive Routine (α : Type) where
  | done (result : α)
  | act (action : Action) (next : action.Answer → Routine α)

namespace Routine

variable {α β : Type}

/-- Goes on with `next` when the first routine is done. -/
def bind : Routine α → (α → Routine β) → Routine β
  | done result, next => next result
  | act action rest, next => act action fun answer => (rest answer).bind next

instance : Monad Routine where
  pure := done
  bind := bind

/-- A single action. -/
def perform (action : Action) : Routine action.Answer := act action done

def reserve (slots : Nat) : Routine Bool := perform (.reserve slots)

def request (layout : Layout) : Routine (Option Block) := perform (.request layout)

def release (block : Block) : Routine Unit := perform (.release block)

def take (slot : Nat) : Routine (Option TaggedBlock) := perform (.take slot)

def store (block : TaggedBlock) : Routine Unit := perform (.store block)

def note (notice : Notice) : Routine Unit := perform (.note notice)

def count (growth : Counters) : Routine Unit := perform (.count growth)

/-- A request for a block of some layout; where the size has none there is nothing to ask. -/
def requestIf : Option Layout → Routine (Option Block)
  | some layout => request layout
  | none => done none

/-- Hands back blocks in the order of the list. -/
def releaseAll : List Block → Routine Unit
  | [] => done ()
  | block :: rest => do
    release block
    releaseAll rest

end Routine

end HeapChurn
