import HeapChurn.Proofs.LiveSlots.Blocks

/-!
# Which slots are occupied

A buffer of live slots in use is `Regular`: its window lies inside the buffer, its cursor outside
the window, and the occupied slots are those below the cursor and those in the window. The
invariant holds of an empty buffer and is kept by each way in which a buffer changes: a cursor that
skips the window, a stored block, a retire event, a release of everything.

Two facts follow that the buffer itself never checks. Where a request stores a block the slot is
empty (`Regular.vacant`), and when the cursor has run off the end every slot is full
(`Regular.full`).
-/

namespace HeapChurn

namespace LiveSlots

/-! ## Where the blocks are after a change -/

theorem stale?_eq_blockAt (s : LiveSlots) : s.stale? = s.blockAt s.cursor := rfl

theorem blockAt_empty (capacity i : Nat) : (empty capacity).blockAt i = none := by
  simp only [blockAt, empty, Array.getElem?_replicate]
  split <;> rfl

theorem blockAt_store {s : LiveSlots} (h : s.cursor < s.capacity) (b : Block) (i : Nat) :
    (s.store b).blockAt i = if i = s.cursor then some b else s.blockAt i := by
  have hlt : s.cursor < s.slots.size := h
  by_cases hi : i = s.cursor
  · subst hi
    simp [blockAt, store, hlt]
  · simp [blockAt, store, hi, Ne.symm hi]

theorem blockAt_retire (s : LiveSlots) (i : Nat) :
    s.retire.blockAt i =
      if s.nextWindowStart ≤ i ∧ i < s.nextWindowEnd then s.blockAt i else none := by
  simp only [blockAt, retire, Array.getElem?_mapIdx]
  cases s.slots[i]? with
  | none => simp
  | some slot =>
      by_cases h : s.nextWindowStart ≤ i ∧ i < s.nextWindowEnd <;> simp [h]

@[simp] theorem capacity_empty (capacity : Nat) : (empty capacity).capacity = capacity := by
  simp [LiveSlots.capacity, empty]

@[simp] theorem capacity_store (s : LiveSlots) (b : Block) : (s.store b).capacity = s.capacity := by
  simp [capacity, store]

@[simp] theorem capacity_retire (s : LiveSlots) : s.retire.capacity = s.capacity := by
  simp [capacity, retire]

@[simp] theorem capacity_clear (s : LiveSlots) : s.clear.capacity = s.capacity :=
  capacity_empty s.capacity

@[simp] theorem capacity_skipWindow (s : LiveSlots) : s.skipWindow.capacity = s.capacity := by
  unfold skipWindow
  split <;> rfl

/-! ## The invariant -/

/-- What holds of every buffer in use. -/
structure Regular (capacity : Nat) (s : LiveSlots) : Prop where
  capacity_eq : s.capacity = capacity
  window_le : s.windowStart ≤ s.windowEnd
  windowEnd_le : s.windowEnd ≤ capacity
  cursor_le : s.cursor ≤ capacity
  cursor_outside : s.cursor ≤ s.windowStart ∨ s.windowEnd ≤ s.cursor
  occupied : ∀ i, (s.blockAt i).isSome = true
    ↔ i < s.cursor ∨ s.windowStart ≤ i ∧ i < s.windowEnd
  /-- Blocks stored are blocks freed and blocks that are left, as words. -/
  balance : s.allocated = s.freed + UInt64.ofNat s.live

variable {capacity : Nat} {s : LiveSlots}

theorem regular_empty (capacity : Nat) : Regular capacity (empty capacity) where
  capacity_eq := capacity_empty capacity
  window_le := Nat.le_refl _
  windowEnd_le := Nat.le_refl _
  cursor_le := Nat.zero_le _
  cursor_outside := Or.inl (Nat.zero_le _)
  occupied i := by
    rw [blockAt_empty]
    simp [empty]
  balance := by
    rw [live_eq_length, blocks_empty]
    rfl

theorem Regular.skipWindow (h : Regular capacity s) : Regular capacity s.skipWindow := by
  unfold LiveSlots.skipWindow
  split
  · rename_i hcursor
    refine ⟨h.capacity_eq, h.window_le, h.windowEnd_le, h.windowEnd_le,
      Or.inr (Nat.le_refl _), fun i => ?_, h.balance⟩
    have hi : (s.blockAt i).isSome = true ↔ i < s.cursor ∨ s.windowStart ≤ i ∧ i < s.windowEnd :=
      h.occupied i
    have := h.window_le
    show (s.blockAt i).isSome = true ↔ i < s.windowEnd ∨ s.windowStart ≤ i ∧ i < s.windowEnd
    rw [hi]
    omega
  · exact h

/-- A cursor that has skipped the window does not stand in front of it. -/
theorem Regular.skipWindow_outside (h : Regular capacity s) :
    s.skipWindow.cursor < s.skipWindow.windowStart
      ∨ s.skipWindow.windowEnd ≤ s.skipWindow.cursor := by
  have := h.cursor_outside
  unfold LiveSlots.skipWindow
  split
  · exact Or.inr (Nat.le_refl _)
  · omega

/-- The slot in which a request stores its block is empty. -/
theorem Regular.vacant (h : Regular capacity s) : s.skipWindow.stale? = none := by
  have hoccupied := h.skipWindow.occupied s.skipWindow.cursor
  have := h.skipWindow_outside
  rw [stale?_eq_blockAt]
  cases hb : s.skipWindow.blockAt s.skipWindow.cursor with
  | none => rfl
  | some b =>
      rw [hb] at hoccupied
      have := hoccupied.mp rfl
      omega

/-- A buffer whose cursor has run off the end is full. -/
theorem Regular.full (h : Regular capacity s) (hend : capacity ≤ s.cursor) {i : Nat}
    (hi : i < capacity) : (s.blockAt i).isSome = true :=
  (h.occupied i).mpr (Or.inl (by omega))

/-- A request that finds room stores its block without touching another. -/
theorem Regular.store (h : Regular capacity s)
    (hroom : s.skipWindow.cursor < s.skipWindow.capacity) (b : Block) :
    Regular capacity (s.skipWindow.store b) := by
  have hs := h.skipWindow
  have hout := h.skipWindow_outside
  have hvacant := h.vacant
  rw [stale?_eq_blockAt] at hvacant
  generalize s.skipWindow = t at hroom hs hout hvacant
  have hcursor : t.cursor < capacity := hs.capacity_eq ▸ hroom
  refine ⟨?_, hs.window_le, hs.windowEnd_le, hcursor, ?_, fun i => ?_, ?_⟩
  · rw [capacity_store, hs.capacity_eq]
  · show t.cursor + 1 ≤ t.windowStart ∨ t.windowEnd ≤ t.cursor + 1
    omega
  · rw [blockAt_store hroom]
    show _ ↔ i < t.cursor + 1 ∨ t.windowStart ≤ i ∧ i < t.windowEnd
    by_cases hi : i = t.cursor
    · rw [if_pos hi]
      simp [hi]
    · rw [if_neg hi, hs.occupied i]
      omega
  · rw [live_eq_length, (perm_store hroom hvacant).length_eq, List.length_cons,
      ← live_eq_length, UInt64.ofNat_add, ← UInt64.add_assoc]
    show t.allocated + 1 = _
    rw [hs.balance]
    rfl

/-- A retire event leaves the blocks of its window and no other. -/
theorem Regular.retire (h : Regular capacity s) (hend : capacity ≤ s.cursor) :
    Regular capacity s.retire := by
  refine ⟨?_, s.nextWindowStart_le, ?_, Nat.zero_le _, Or.inl (Nat.zero_le _), fun i => ?_, ?_⟩
  · rw [capacity_retire, h.capacity_eq]
  · have := s.nextWindowEnd_le
    rw [h.capacity_eq] at this
    exact this
  · rw [blockAt_retire]
    show _ ↔ i < 0 ∨ s.nextWindowStart ≤ i ∧ i < s.nextWindowEnd
    have hle := s.nextWindowEnd_le
    rw [h.capacity_eq] at hle
    by_cases hi : s.nextWindowStart ≤ i ∧ i < s.nextWindowEnd
    · rw [if_pos hi]
      exact iff_of_true (h.full hend (by omega)) (Or.inr hi)
    · rw [if_neg hi]
      simp [hi]
  · have hcount := s.perm_retire.length_eq
    rw [List.length_append, ← live_eq_length, ← live_eq_length] at hcount
    show s.allocated = s.freed + UInt64.ofNat s.retiring.length + UInt64.ofNat s.retire.live
    rw [h.balance, hcount, UInt64.ofNat_add, UInt64.add_assoc]

theorem Regular.clear (h : Regular capacity s) : Regular capacity s.clear := by
  have hempty := regular_empty capacity
  rw [← h.capacity_eq] at hempty ⊢
  refine ⟨hempty.capacity_eq, hempty.window_le, hempty.windowEnd_le, hempty.cursor_le,
    hempty.cursor_outside, hempty.occupied, ?_⟩
  show s.allocated = s.freed + UInt64.ofNat s.blocks.length + UInt64.ofNat s.clear.live
  rw [h.balance, live_eq_length s.clear, blocks_clear, live_eq_length]
  simp

/-- A retire event never counts past the largest word. -/
theorem Regular.window_no_wrap (h : Regular capacity s) (hc : reservable capacity = true) :
    s.nextWindowStart + s.capacity / 5 < Word.modulus := by
  have hbound : capacity * slotBytes ≤ Word.largestObject := by
    simpa [reservable] using hc
  have hstart : s.nextWindowStart ≤ s.capacity := Nat.le_trans s.nextWindowStart_le
    s.nextWindowEnd_le
  rw [h.capacity_eq] at hstart ⊢
  simp only [slotBytes, Word.largestObject, Word.modulus, UInt64.size] at hbound ⊢
  omega

end LiveSlots

end HeapChurn
