import HeapChurn.CommandLine.Options
import HeapChurn.Text.Writing

/-!
# Endings

How a session ends: its exit code and what it says about it. A failure is told as what could not be
done, followed by the causes, from the nearest to the deepest.
-/

namespace HeapChurn

/-- What could not be done. -/
inductive Failure where
  | loadHistogram (path : String) (cause : Error)
  | openAnswers (path : String) (cause : IoError)
  | readAnswers (cause : IoError)
  | createReport (path : String) (cause : IoError)
  | workload (cause : Error)
  | writeReport (cause : IoError)
  deriving Repr, DecidableEq

/-- An error and what is known to lie behind it. -/
def Error.chain (e : Error) : List String :=
  e.message ::
    match e with
    | .badHistogram fault => [fault.message]
    | .io cause => [cause.message]
    | .setup _ =>
      ["memory allocation failed because the computed capacity exceeded the collection's maximum"]
    | _ => []

namespace Failure

def headline : Failure → String
  | loadHistogram path _ => "failed to load histogram " ++ path
  | openAnswers path _ => "failed to open " ++ path
  | createReport path _ => "failed to create " ++ path
  | workload _ => "workload failed"
  | readAnswers cause | writeReport cause => cause.message

def causes : Failure → List String
  | loadHistogram _ cause | workload cause => cause.chain
  | openAnswers _ cause | createReport _ cause => [cause.message]
  | readAnswers _ | writeReport _ => []

/-- A cause at its place. Causes are numbered if there are several. -/
def causeLine (several : Bool) (cause : String × Nat) : String :=
  "\n" ++ (if several then Column.alignRight 5 (Numeral.render cause.2) ++ ": " else "    ")
    ++ cause.1

def message (f : Failure) : String :=
  let listed :=
    match f.causes with
    | [] => ""
    | causes =>
      "\n\nCaused by:" ++ String.join (causes.zipIdx.map (causeLine (causes.length > 1)))
  "Error: " ++ f.headline ++ listed

end Failure

inductive Ending where
  | success
  | usage (e : UsageError)
  | failure (f : Failure)
  /-- A worker failed; the log has said why. -/
  | workerFailed
  deriving Repr, DecidableEq

namespace Ending

/-- The exit code. -/
def code : Ending → Nat
  | success => 0
  | failure _ | workerFailed => 1
  | usage _ => 2

/-- What is said about the ending beside the log. -/
def message? : Ending → Option String
  | success | workerFailed => none
  | failure f => some f.message
  | usage e =>
    some (e.message ++ "\n\n" ++ HeapChurn.usage ++ "\nFor more information, try '--help'.")

end Ending

end HeapChurn
