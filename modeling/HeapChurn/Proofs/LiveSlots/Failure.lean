import HeapChurn.Proofs.LiveSlots.Retirement
import HeapChurn.Proofs.LiveSlots.Windows

/-!
# Failed requests

A request that fails has moved the cursor past the window and has done nothing else. What comes
later does not tell: each call moves the cursor past the window first, and a cursor is not moved
twice. So the routine of all later calls, with every answer and every buffer that they lead to, is
the one that it would have been without the failed request, whatever the allocator answers.
-/

namespace HeapChurn

namespace LiveSlots

/-! ## What callers are told -/

/-- What a call answers. -/
inductive Reply where
  | step (answer : Except Error Step)
  | freed (blocks : Nat)

/-- Serves a call and replies to it. -/
def Call.reply : Call → LiveSlots → Routine (Reply × LiveSlots)
  | .allocate size, s => do
    let (answer, s) ← s.allocate size
    return (.step answer, s)
  | .releaseAll, s => do
    let (blocks, s) ← s.releaseAll
    return (.freed blocks, s)

/-- Serves one call after the other. Each reply comes with the buffer as the call leaves it. -/
def replies : List Call → LiveSlots → Routine (List (Reply × LiveSlots))
  | [], _ => return []
  | call :: rest, s => do
    let reply ← call.reply s
    let later ← replies rest reply.2
    return reply :: later

/-! ## The cursor does not matter -/

@[simp] theorem clear_skipWindow (s : LiveSlots) : s.skipWindow.clear = s.clear := by
  unfold clear
  rw [capacity_skipWindow, allocated_skipWindow, freed_skipWindow, retires_skipWindow,
    blocks_skipWindow]

theorem allocate_skipWindow (s : LiveSlots) (size : Nat) :
    s.skipWindow.allocate size = s.allocate size := by
  unfold allocate
  rw [skipWindow_skipWindow]

theorem releaseAll_skipWindow (s : LiveSlots) : s.skipWindow.releaseAll = s.releaseAll := by
  unfold releaseAll
  rw [blocks_skipWindow, clear_skipWindow]

theorem Call.reply_skipWindow (call : Call) (s : LiveSlots) :
    call.reply s.skipWindow = call.reply s := by
  cases call with
  | allocate size => rw [Call.reply, Call.reply, allocate_skipWindow]
  | releaseAll => rw [Call.reply, Call.reply, releaseAll_skipWindow]

/-- A cursor that has moved past the window already changes no reply. -/
theorem replies_skipWindow (calls : List Call) (s : LiveSlots) :
    replies calls s.skipWindow = replies calls s := by
  cases calls with
  | nil => rfl
  | cons call rest => rw [replies, replies, call.reply_skipWindow]

/-! ## Failed requests -/

/-- What is left of a request that failed. -/
structure Unnoticed (a : Allocator) (t : LiveSlots) (size : Nat) (before : Journal) (u : LiveSlots)
    (after : Journal) : Prop where
  /-- Slots, window and counters are as before. -/
  buffer_eq : u = { t with cursor := if t.cursor = t.windowStart then t.windowEnd else t.cursor }
  /-- Nothing was granted or released, and nothing was counted. -/
  reason : Layout.forLive? size = none ∧ after = before
    ∨ ∃ layout, Layout.forLive? size = some layout
        ∧ a.refuses before.thread before.calls layout.size = true
        ∧ after = before.refused (before.nextBlock layout)
  /-- The same answers get the same replies, the same releases and the same buffers. -/
  later : ∀ calls, replies calls u = replies calls t

theorem skipWindow_eq (s : LiveSlots) : s.skipWindow
    = { s with cursor := if s.cursor = s.windowStart then s.windowEnd else s.cursor } := by
  unfold skipWindow
  split <;> rfl

theorem Served.unnoticed {a : Allocator} {t u : LiveSlots} {size : Nat} {j j' : Journal} {e : Error}
    (h : Served a t size j (.error e, u) j') :
    e = .outOfMemory size ∧ Unnoticed a t size j u j' := by
  generalize hout : (Except.error e, u) = out at h
  cases h with
  | retired _ => cases hout
  | stored _ _ _ => cases hout
  | noLayout _ hsize =>
      obtain ⟨he, rfl⟩ := Prod.mk.inj hout
      exact ⟨Except.error.inj he, t.skipWindow_eq, Or.inl ⟨hsize, rfl⟩,
        fun calls => replies_skipWindow calls t⟩
  | @refused _ layout hsize hanswer =>
      obtain ⟨he, rfl⟩ := Prod.mk.inj hout
      exact ⟨Except.error.inj he, t.skipWindow_eq, Or.inr ⟨layout, hsize, hanswer, rfl⟩,
        fun calls => replies_skipWindow calls t⟩

/-- Whatever was asked for, refused and released: a request fails for lack of memory only, and then
it leaves everything as it was but for a cursor that may have moved past the window. All that is
asked for later goes as if it had not been made. -/
theorem failed_request_unnoticed {capacity : Nat} {s : LiveSlots} (h : ofCapacity capacity = .ok s)
    (a : Allocator) (calls : List Call) (v w : View) (size : Nat) (e : Error) :
    let t := ((s.serve calls).run a v).1
    let out := (t.allocate size).run a w
    out.1.1 = .error e →
      e = .outOfMemory size ∧ Unnoticed a t size w.journal out.1.2 out.2.journal := by
  obtain ⟨-, rfl⟩ := ofCapacity_eq_ok h
  intro t out hfailed
  have hregular : Regular capacity t := regular_run_serve a capacity calls v
  have hserved : Served a t size w.journal out.1 out.2.journal := run_allocate hregular size w
  have hout : out.1 = (.error e, out.1.2) := Prod.ext hfailed rfl
  rw [hout] at hserved
  exact hserved.unnoticed

/-- Five slots with windows of one, after the first retire event: the cursor stands in front of the
window, and the request that is refused moves it past the window. -/
theorem failed_request_unnoticed_five :
    let a : Allocator := { refuses := fun _ call _ => call = 5, overwrites := fun _ _ => [] }
    let served := ((empty 5).serve (List.replicate 6 (.allocate 8))).run a
      ⟨#[], { thread := .worker 0 }⟩
    let out := (served.1.allocate 8).run a served.2
    ofCapacity 5 = .ok (empty 5) ∧ out.1.1 = .error (.outOfMemory 8)
      ∧ (served.1.cursor, out.1.2.cursor) = (0, 1)
      ∧ Unnoticed a served.1 8 served.2.journal out.1.2 out.2.journal := by
  have hopen : ofCapacity 5 = .ok (empty 5) := rfl
  exact ⟨hopen, rfl, rfl, (failed_request_unnoticed hopen _ _ _ _ 8 (.outOfMemory 8) rfl).2⟩

end LiveSlots

end HeapChurn
