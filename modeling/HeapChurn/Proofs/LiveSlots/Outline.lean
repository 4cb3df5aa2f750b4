import HeapChurn.Proofs.LiveSlots.Service

/-!
# The outline of a buffer

A buffer without its blocks: the cursor, the window and two of the counts. While requests succeed,
the outline moves on by itself (`Served.outline_eq`). So which requests allocate and which retire
depends on the capacity and on the number of the request, and not on sizes, blocks or threads.
-/

namespace HeapChurn

namespace LiveSlots

structure Outline where
  cursor : Nat
  windowStart : Nat
  windowEnd : Nat
  allocated : UInt64
  retires : UInt64
  deriving Repr, DecidableEq

namespace Outline

/-- The outline of an empty buffer. -/
def start (capacity : Nat) : Outline := ⟨0, capacity, capacity, 0, 0⟩

/-- Where the next block would go. -/
def place (o : Outline) : Nat := if o.cursor = o.windowStart then o.windowEnd else o.cursor

/-- The outline after one more request that did not fail. -/
def request (capacity : Nat) (o : Outline) : Outline :=
  if capacity ≤ o.place then
    let windowStart := if capacity ≤ o.windowEnd then 0 else o.windowEnd
    { cursor := 0
      windowStart
      windowEnd := min (windowStart + capacity / 5) capacity
      allocated := o.allocated
      retires := o.retires + 1 }
  else { o with cursor := o.place + 1, allocated := o.allocated + 1 }

/-- The outline after so many requests that did not fail. -/
def requests (capacity : Nat) : Nat → Outline → Outline
  | 0, o => o
  | n + 1, o => (requests capacity n o).request capacity

theorem requests_add (capacity m : Nat) (o : Outline) : ∀ n,
    requests capacity (m + n) o = requests capacity n (requests capacity m o)
  | 0 => rfl
  | n + 1 => by
      have ih := requests_add capacity m o n
      rw [← Nat.add_assoc, requests, ih, requests]

end Outline

def outline (s : LiveSlots) : Outline where
  cursor := s.cursor
  windowStart := s.windowStart
  windowEnd := s.windowEnd
  allocated := s.allocated
  retires := s.retires

@[simp] theorem outline_empty (capacity : Nat) : (empty capacity).outline = .start capacity := rfl

theorem cursor_skipWindow (s : LiveSlots) : s.skipWindow.cursor = s.outline.place := by
  unfold skipWindow Outline.place
  show _ = if s.cursor = s.windowStart then s.windowEnd else s.cursor
  split <;> rfl

@[simp] theorem windowStart_skipWindow (s : LiveSlots) :
    s.skipWindow.windowStart = s.windowStart := by
  unfold skipWindow
  split <;> rfl

@[simp] theorem windowEnd_skipWindow (s : LiveSlots) : s.skipWindow.windowEnd = s.windowEnd := by
  unfold skipWindow
  split <;> rfl

@[simp] theorem allocated_skipWindow (s : LiveSlots) : s.skipWindow.allocated = s.allocated := by
  unfold skipWindow
  split <;> rfl

@[simp] theorem retires_skipWindow (s : LiveSlots) : s.skipWindow.retires = s.retires := by
  unfold skipWindow
  split <;> rfl

/-- A request that succeeds moves the outline on by itself. -/
theorem Served.outline_eq {a : Allocator} {s s' : LiveSlots} {size : Nat} {j j' : Journal}
    {x : Step} (h : Served a s size j (.ok x, s') j') :
    s'.outline = s.outline.request s.capacity := by
  generalize hout : (Except.ok x, s') = out at h
  cases h with
  | retired hend =>
      obtain ⟨-, rfl⟩ := Prod.mk.inj hout
      rw [cursor_skipWindow] at hend
      rw [Outline.request, if_pos hend]
      simp only [outline, retire, nextWindowEnd, nextWindowStart, capacity_skipWindow,
        windowEnd_skipWindow, allocated_skipWindow, retires_skipWindow]
      rfl
  | noLayout _ _ => cases hout
  | refused _ _ _ => cases hout
  | stored hroom _ _ =>
      obtain ⟨-, rfl⟩ := Prod.mk.inj hout
      rw [cursor_skipWindow] at hroom
      rw [Outline.request, if_neg (Nat.not_le.mpr hroom)]
      simp only [outline, store, cursor_skipWindow, windowStart_skipWindow, windowEnd_skipWindow,
        allocated_skipWindow, retires_skipWindow]

/-- Requests in a row, by a thread that holds what its buffer holds. -/
theorem ensures_allocateMany_outline {a : Allocator} {slots : List Nat}
    {held : Nat → Option Block} {thread : Thread} {capacity : Nat} {freed : List Block}
    {s : LiveSlots} {v : View} (hv : v.Holds slots held)
    (hs : Stock thread capacity freed s v.journal) (size count : Nat) :
    (allocateMany size count s).Ensures a (.retagging slots) v fun out w =>
      w.Holds slots held ∧ Stock thread capacity freed out.2 w.journal
        ∧ ((∃ n, out.1 = .error (.outOfMemory n))
          ∨ out.1 = .ok () ∧ out.2.outline = .requests capacity count s.outline) := by
  refine (ensures_allocateMany (n := 0)
    (P := fun n t j => Stock thread capacity freed t j
      ∧ t.outline = .requests capacity n s.outline)
    (F := fun e t j => Stock thread capacity freed t j ∧ ∃ n, e = .outOfMemory n)
    (fun n t j ht => ht.1.regular.vacant) ?_ ?_ count hv ⟨hs, rfl⟩).mono ?_
  · rintro n t j x t' j' ⟨ht, ho⟩ hserved
    refine ⟨hserved.stock ht, ?_⟩
    rw [hserved.outline_eq, ht.regular.capacity_eq, ho]
    rfl
  · rintro n t j e t' j' ⟨ht, -⟩ hserved
    exact ⟨hserved.stock ht, size, hserved.error_eq rfl⟩
  · rintro ⟨result, t⟩ w ⟨hw, ⟨hok, ht, ho⟩ | ⟨e, he, ht, n, hn⟩⟩
    · rw [Nat.zero_add] at ho
      exact ⟨hw, ht, Or.inr ⟨hok, ho⟩⟩
    · exact ⟨hw, ht, Or.inl ⟨n, he.trans (congrArg _ hn)⟩⟩

end LiveSlots

end HeapChurn
