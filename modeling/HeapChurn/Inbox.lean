import HeapChurn.Pool

/-!
# Inboxes

Which foreign blocks a worker frees and in what order. The pool is cut into chunks of consecutive
slots, and the chunks are dealt to the workers in turn, like cards. A worker frees the chunks of its
hand one after the other, so it moves from producer to producer and takes a fair share of each.

Each block names the slot in which it was stored. A worker looks at that tag before it frees the
block; when the tag is wrong, somebody wrote over the block, and it is reported and not freed.
-/

namespace HeapChurn

/-- Deals a list to `hands` hands in turn. -/
def deal {α : Type} (hands : Nat) (cards : List α) : Array (Array α) :=
  cards.zipIdx.foldl (fun dealt (card, i) => dealt.modify (i % hands) (·.push card))
    (Array.replicate hands #[])

/-- What one worker has to free. -/
structure Inbox where
  worker : Nat
  /-- The pool slots of the worker, in the order in which it frees them. -/
  slots : List Nat
  /-- The slots at which it has yet to look: the end of `slots`. -/
  ahead : List Nat
  deriving Repr, DecidableEq

namespace Plan

/-- The chunks of the pool, each a run of consecutive slots. Only the last may be short. -/
def chunks (p : Plan) : List (List Nat) :=
  (List.range ((p.foreignTotal + p.foreignChunk - 1) / p.foreignChunk)).map fun i =>
    List.range' (i * p.foreignChunk) (min p.foreignChunk (p.foreignTotal - i * p.foreignChunk))

/-- The inboxes of a pool, one for each worker. Without chunks there is nothing to deal. -/
def inboxes (p : Plan) : List Inbox :=
  let hands := deal p.workers (if p.foreignChunk = 0 then [] else p.chunks)
  hands.toList.zipIdx.map fun (hand, worker) =>
    let slots := hand.toList.flatten
    { worker, slots, ahead := slots }

end Plan

namespace Inbox

/-- Blocks the worker has yet to free, if its slots are all filled. -/
def remaining (b : Inbox) : Nat := b.ahead.length

/-- Frees blocks from the slots ahead until `limit` of them are freed, no slot is left, or a slot is
found empty. The limit comes first: at the limit the next slot is not looked at. Answers the number
of blocks freed, with `freed` freed before, and the slots that are then ahead.

A build without debug assertions is meant: one that has them stops at a mistagged block, before the
error is answered. -/
def drainFrom (worker : Nat) : List Nat → Option Nat → Nat →
    Routine (Except Error Nat × List Nat)
  | [], _, freed => return (.ok freed, [])
  | slot :: rest, limit, freed => do
    if limit = some freed then return (.ok freed, slot :: rest)
    match ← Routine.take slot with
    | none => return (.ok freed, slot :: rest)
    | some b =>
      if b.tag = slot then
        Routine.release b.block
        Routine.count .foreignFree
        drainFrom worker rest limit (freed + 1)
      else
        Routine.note (.tagMismatch worker slot b.tag)
        return (.error (.corruptTag slot b.tag), slot :: rest)

/-- Frees pending blocks in order, at most `limit` of them; `none` sets no limit. -/
def drain (b : Inbox) (limit : Option Nat) : Routine (Except Error Nat × Inbox) := do
  let (freed, ahead) ← drainFrom b.worker b.ahead limit 0
  return (freed, { b with ahead })

end Inbox

end HeapChurn
