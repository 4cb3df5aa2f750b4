import HeapChurn.Build.Listing
import HeapChurn.Main
import HeapChurn.Proofs.LiveSlots.Occupancy
import HeapChurn.Proofs.Routine.Action
import HeapChurn.Proofs.Trace.Custody
import HeapChurn.Proofs.LiveSlots.Service
import HeapChurn.Proofs.LiveSlots.Sequences
import HeapChurn.Proofs.Inbox.Drain
import HeapChurn.Proofs.LiveSlots.Outline
import HeapChurn.Proofs.Worker.Standing
import HeapChurn.Proofs.Inbox.Partition
import HeapChurn.Proofs.Harness.Crew
import HeapChurn.Proofs.Plan.Grid
import HeapChurn.Proofs.Pool.Population
import HeapChurn.Proofs.Harness.Course
import HeapChurn.Proofs.Harness.Lives
import HeapChurn.Proofs.Harness.Release
import HeapChurn.Proofs.Harness.Conservation
import HeapChurn.Proofs.Harness.Isolation
import HeapChurn.Proofs.Inbox.Hand
import HeapChurn.Proofs.LiveSlots.Requests
import HeapChurn.Proofs.Routine.Apart
import HeapChurn.Proofs.Inbox.Reach
import HeapChurn.Proofs.Worker.Stream
import HeapChurn.Proofs.Worker.Refinement
import HeapChurn.Proofs.Worker.Burst
import HeapChurn.Proofs.Plan.Hands
import HeapChurn.Proofs.Inbox.Outcome
import HeapChurn.Proofs.LiveSlots.Ledger
import HeapChurn.Proofs.Pool.Sessions
import HeapChurn.Proofs.Worker.Ledger
import HeapChurn.Proofs.Pool.Counting
import HeapChurn.Proofs.LiveSlots.Answers
import HeapChurn.Proofs.Worker.Audit
import HeapChurn.Proofs.Harness.Books
import HeapChurn.Proofs.Harness.Counters
import HeapChurn.Proofs.Harness.Memory
import HeapChurn.Proofs.Worker.Care
import HeapChurn.Proofs.Pool.Tags
import HeapChurn.Proofs.Harness.Turns
import HeapChurn.Proofs.Harness.Tags
import HeapChurn.Proofs.LiveSlots.Retirement
import HeapChurn.Proofs.LiveSlots.Windows
import HeapChurn.Proofs.Schema.Renaming
import HeapChurn.Proofs.Toml.Keys
import HeapChurn.Proofs.Build.Acceptance
import HeapChurn.Proofs.Build.Listing
import HeapChurn.Proofs.Session.Settling
import HeapChurn.Proofs.LiveSlots.Chronicle
import HeapChurn.Proofs.LiveSlots.Cycles
import HeapChurn.Proofs.LiveSlots.Lifetime
import HeapChurn.Proofs.LiveSlots.ReleaseOrder
import HeapChurn.Proofs.LiveSlots.Failure
import HeapChurn.Proofs.Inbox.Reference
import HeapChurn.Proofs.Harness.Rotation
import HeapChurn.Proofs.Harness.Provision
import HeapChurn.Proofs.Numeral.Reading
import HeapChurn.Proofs.Pool.Remaining
import HeapChurn.Proofs.Prompt.Lines
import HeapChurn.Proofs.Session.Answers
import HeapChurn.Proofs.Prompt.Calls
import HeapChurn.Proofs.Toml.Values
import HeapChurn.Proofs.Schema.FirstFault
import HeapChurn.Proofs.Histogram.Acceptance
import HeapChurn.Proofs.Toml.Integers
import HeapChurn.Proofs.Histogram.Written
import HeapChurn.Proofs.Report.Reading
