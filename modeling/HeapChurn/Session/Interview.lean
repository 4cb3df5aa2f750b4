import HeapChurn.CommandLine.Options
import HeapChurn.Defaults
import HeapChurn.Prompt

/-!
# Interviews

How a command line becomes a configuration. Without a source of answers each value is the one that
is given, or its default. With one, the values that are not given are asked for in a fixed order,
one line of answers each. The burst limit is never asked for.
-/

namespace HeapChurn

/-- Questions and answers that an error may break off. -/
abbrev Conversation (α : Type) : Type := ExceptT IoError (StateM Prompter) α

/-- Asks for a value that is not given. -/
def Conversation.ask (given : Option Nat) (q : Question) : Conversation Nat :=
  ExceptT.mk fun p => p.askUnless given q

namespace Options

/-- The number of threads if nobody gives one. -/
def usualThreads (o : Options) (d : Defaults) (processors : Nat) : Nat :=
  if o.bench then processors else d.threads

/-- The configuration without a source of answers. -/
def config (o : Options) (d : Defaults) (processors : Nat) : Config where
  heapSlots := o.heapSlots.getD d.heapSlots
  iterations := o.iterations.getD d.iterations
  workers := o.threadCount.getD (o.usualThreads d processors)
  foreignAllocs := o.foreignAllocs.getD d.foreignAllocs
  foreignBurst := o.foreignBurst

/-- The configuration with a source of answers. -/
def interview (o : Options) (d : Defaults) (processors : Nat) : Conversation Config := do
  let ask := Conversation.ask
  let heapSlots ← ask o.heapSlots ⟨"heap size (# of blocks)", d.heapSlots⟩
  let iterations ← ask o.iterations ⟨"iterations", d.iterations⟩
  let workers ← ask o.threadCount ⟨"threads", o.usualThreads d processors⟩
  let foreignAllocs ←
    ask o.foreignAllocs ⟨"allocs freed from non-allocating thread", d.foreignAllocs⟩
  return { heapSlots, iterations, workers, foreignAllocs, foreignBurst := o.foreignBurst }

end Options

end HeapChurn
