import HeapChurn.Allocator
import HeapChurn.Folder
import HeapChurn.Prompt
import HeapChurn.Report

/-!
# Hosts

What a session needs of the machine that it runs on: files, streams, a clock, and the allocators that
are put under test. A session is written once for all hosts. One of them is a desk, where a folder and
the streams are kept as values and no time passes.
-/

namespace HeapChurn

structure Host (m : Type → Type) where
  /-- Reads a whole file. -/
  read : String → m Contents
  /-- Opens a file of answers. -/
  openAnswers : String → m (Except IoError Source)
  /-- The standard input, if somebody sits at it. -/
  terminal : Option (m Source)
  /-- Writes a file from its start. -/
  write : String → List UInt8 → m (Except IoError Unit)
  /-- Writes to the standard output. -/
  print : List UInt8 → m (Except IoError Unit)
  /-- Writes to the log. -/
  tell : Notice → m Unit
  /-- Carries something out and takes its time. -/
  timed : {α : Type} → (Unit → α) → m (α × Elapsed)
  allocator : AllocatorKind → Allocator
  /-- Processors that threads can run on. -/
  processors : Nat
  /-- How times are written. -/
  times : Report.TimeFormat

/-- A folder with a standard output and a log. -/
structure Desk where
  folder : Folder := {}
  printed : List UInt8 := []
  notices : List Notice := []
  /-- What was written to the stream of the log beside the notices. -/
  remarks : List UInt8 := []
  deriving Repr, DecidableEq

namespace Desk

/-- Opens a file for reading. A folder can be opened too, but not read. -/
def openAnswers (d : Desk) (path : String) : Except IoError Source :=
  match d.folder.read path with
  | .ok contents => .ok (.bytes contents)
  | .error .isDirectory => .ok (.unreadable .isDirectory)
  | .error cause => .error cause

/-- Writes a file from its start. What is written to a device goes where the device leads. -/
def write (d : Desk) (path : String) (contents : List UInt8) : Except IoError Unit × Desk :=
  match d.folder.target path with
  | .error cause => (.error cause, d)
  | .ok place =>
    match place.device? with
    | none => (.ok (), { d with folder := d.folder.put place contents })
    | some .full => (if contents = [] then .ok () else .error .noSpace, d)
    | some .output => (.ok (), { d with printed := d.printed ++ contents })
    | some .log => (.ok (), { d with remarks := d.remarks ++ contents })
    | some .null | some .input | some .terminal => (.ok (), d)

/-- The bytes of the largest block that an allocator has in a memory of 32 GiB. The one of the system
gives none as large as that; the other one only sets addresses aside, and has half of them at most. -/
def capacity : AllocatorKind → Nat
  | .system => 1 <<< 35 - 1
  | .mimalloc => 1 <<< 46

/-- A desk as a host. What is typed at it comes in a piece. -/
def host (processors : Nat) (times : Report.TimeFormat) (typed : Option (List UInt8) := none)
    (capacity : AllocatorKind → Nat := capacity) : Host (StateM Desk) where
  read path := do return (← get).folder.read path
  openAnswers path := do return (← get).openAnswers path
  terminal := typed.map fun bytes => pure (.bytes bytes)
  write path contents := modifyGet (·.write path contents)
  print bytes := modifyGet fun d => (.ok (), { d with printed := d.printed ++ bytes })
  tell notice := modify fun d => { d with notices := d.notices ++ [notice] }
  timed act := return (act (), ⟨.ofSeconds 0 0, some (.ofSeconds 0 0)⟩)
  allocator kind := .ofCapacity (capacity kind)
  processors
  times

end Desk

end HeapChurn
