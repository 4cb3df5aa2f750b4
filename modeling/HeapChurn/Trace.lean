import HeapChurn.Block
import Std.Data.HashSet

/-!
# Traces

What an allocator saw, as a list of events in order, and what can be read off it.
-/

namespace HeapChurn

namespace Trace

/-- The blocks that were handed back. -/
def released (events : List Event) : Std.HashSet BlockId :=
  events.foldl
    (fun ids e => match e with
      | .released b => ids.insert b.id
      | _ => ids)
    ∅

/-- The blocks that were granted and never handed back, in the order in which they were granted. -/
def leaked (events : List Event) : List BlockId :=
  let freed := released events
  events.filterMap fun
    | .granted b => if freed.contains b.id then none else some b.id
    | _ => none

/-- Was a block of this name ever granted? -/
def wasGranted (events : List Event) (id : BlockId) : Bool :=
  events.any fun
    | .granted b => b.id = id
    | _ => false

end Trace

end HeapChurn
