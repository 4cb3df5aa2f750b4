import HeapChurn.Proofs.LiveSlots.Chronicle
import HeapChurn.Proofs.LiveSlots.Windows

/-!
# Fill cycles

A buffer is filled from one retire event to the next. `cycles` reads off a chronicle which blocks
were stored in the fill cycle that is under way and which in the one before. `Layered` says where in
the buffer they are: the window holds blocks of the cycle before and nothing else, and the other
slots hold all blocks of the cycle under way, stored from the front to the end. That a retire event
keeps it rests on the windows: two in a row have no slot in common, so a new window lies among the
slots that were filled last (`Scheduled.windows_apart`).
-/

namespace HeapChurn

namespace LiveSlots

/-! ## Blocks of neighbouring slots -/

section Blocks

variable {s t : LiveSlots} {low mid high i : Nat}

theorem blocksIn_eq_nil (h : high ≤ low) : s.blocksIn low high = [] := by
  rw [blocksIn_eq_filterMap, Nat.sub_eq_zero_of_le h]
  rfl

theorem blocksIn_append (hlow : low ≤ mid) (hhigh : mid ≤ high) :
    s.blocksIn low mid ++ s.blocksIn mid high = s.blocksIn low high := by
  simp only [blocksIn_eq_filterMap]
  rw [← List.filterMap_append]
  have happend := List.range'_append_1 (s := low) (m := mid - low) (n := high - mid)
  rw [Nat.add_sub_cancel' hlow, show mid - low + (high - mid) = high - low by omega] at happend
  rw [happend]

theorem blocksIn_sublist {first last : Nat} (hlow : first ≤ low) (hhigh : high ≤ last) :
    (s.blocksIn low high).Sublist (s.blocksIn first last) := by
  rcases Nat.le_total high low with hempty | hle
  · rw [blocksIn_eq_nil hempty]
    exact List.nil_sublist _
  · rw [← blocksIn_append hlow (hle.trans hhigh), ← blocksIn_append hle hhigh]
    exact (List.sublist_append_left _ _).trans (List.sublist_append_right _ _)

theorem blocksIn_congr (h : ∀ i, low ≤ i → i < high → s.blockAt i = t.blockAt i) :
    s.blocksIn low high = t.blocksIn low high := by
  rw [blocksIn_eq_filterMap, blocksIn_eq_filterMap]
  refine List.filterMap_congr fun i hi => ?_
  rw [List.mem_range'_1] at hi
  exact h i hi.1 (by omega)

theorem blocksIn_succ (h : low ≤ i) :
    s.blocksIn low (i + 1) = s.blocksIn low i ++ (s.blockAt i).toList := by
  rw [← blocksIn_append h (Nat.le_succ i)]
  congr 1
  show s.blocksIn i (i + 1) = _
  rw [blocksIn_eq_filterMap, Nat.add_sub_cancel_left, List.range'_one, List.filterMap_cons,
    List.filterMap_nil]
  cases s.blockAt i <;> rfl

/-- Where every slot is occupied there are as many blocks as slots. -/
theorem length_blocksIn (h : ∀ i, low ≤ i → i < high → (s.blockAt i).isSome = true) :
    (s.blocksIn low high).length = high - low := by
  have hall : ∀ i ∈ List.range' low (high - low), (s.blockAt i).isSome = true := by
    intro i hi
    rw [List.mem_range'_1] at hi
    exact h i hi.1 (by omega)
  have hlength := congrArg List.length (map_filterMap_blockAt hall)
  rw [List.length_map, List.length_map, List.length_range', ← blocksIn_eq_filterMap] at hlength
  exact hlength

@[simp] theorem blocksIn_skipWindow (s : LiveSlots) : s.skipWindow.blocksIn = s.blocksIn := by
  unfold skipWindow
  split <;> rfl

theorem blocksIn_retire (s : LiveSlots) :
    s.retire.blocksIn s.nextWindowStart s.nextWindowEnd
      = s.blocksIn s.nextWindowStart s.nextWindowEnd := by
  refine blocksIn_congr fun i hlow hhigh => ?_
  rw [blockAt_retire, if_pos ⟨hlow, hhigh⟩]

end Blocks

/-! ## Fill cycles of a chronicle -/

/-- Blocks by the fill cycle in which they were stored. -/
structure Cycles where
  /-- Those of the cycle before the last retire event. -/
  old : List Block := []
  /-- Those of the cycle under way. -/
  fresh : List Block := []

def Cycles.follow (c : Cycles) (p : Page) : Cycles :=
  if p.deed.retires then { old := c.fresh }
  else if p.deed.clears then {}
  else { c with fresh := c.fresh ++ p.stored }

/-- Within a cycle a page is added to it. -/
theorem Cycles.follow_of_filling {p : Page} (h : p.deed.endsCycle = false) (c : Cycles) :
    c.follow p = { c with fresh := c.fresh ++ p.stored } := by
  obtain ⟨hretires, hclears⟩ := Bool.or_eq_false_iff.mp h
  simp [follow, hretires, hclears]

theorem Cycles.fresh_follow_of_ends {p : Page} (h : p.deed.endsCycle = true) (c : Cycles) :
    (c.follow p).fresh = [] := by
  rcases (Bool.or_eq_true _ _).mp h with hretires | hclears
  · simp [follow, hretires]
  · by_cases hretires : p.deed.retires = true
    · simp [follow, hretires]
    · simp [follow, hretires, hclears]

theorem Cycles.follow_failed {events : List Event} (hnone : Trace.handedOut events = [])
    (size : Nat) (e : Error) (c : Cycles) : c.follow ⟨.request size (.error e), events⟩ = c := by
  show { c with fresh := c.fresh ++ Trace.handedOut events } = c
  rw [hnone, List.append_nil]

def cycles (pages : List Page) : Cycles := pages.foldl Cycles.follow {}

theorem cycles_concat (pages : List Page) (p : Page) :
    cycles (pages ++ [p]) = (cycles pages).follow p :=
  List.foldl_concat ..

/-- The blocks of two cycles in a row, in the order in which they were stored. -/
theorem sublist_cycles (pages : List Page) :
    ((cycles pages).old ++ (cycles pages).fresh).Sublist (storedOn pages) := by
  induction pages using List.reverseRecOn with
  | nil => exact .slnil
  | append_singleton pages p ih =>
      rw [cycles_concat, storedOn_concat, Cycles.follow]
      split
      · rw [List.append_nil]
        exact ((List.sublist_append_right _ _).trans ih).trans (List.sublist_append_left _ _)
      · split
        · exact List.nil_sublist _
        · rw [← List.append_assoc]
          exact ih.append (List.Sublist.refl _)

/-! ## Where the blocks of a cycle are -/

/-- The window of a buffer holds blocks of the cycle before, and the other slots hold all blocks of
the cycle under way, in the order of the slots. -/
structure Layered (c : Cycles) (s : LiveSlots) : Prop where
  old : (s.blocksIn s.windowStart s.windowEnd).Sublist c.old
  fresh : s.blocksIn 0 (min s.cursor s.windowStart) ++ s.blocksIn s.windowEnd s.cursor = c.fresh

/-- If the window lies at the end, the next one lies in front of it and ends before it starts. -/
theorem Scheduled.windows_apart {capacity : Nat} {steps : List Step} {s : LiveSlots}
    (h : Scheduled capacity steps s) (hend : s.capacity ≤ s.windowEnd) :
    s.nextWindowEnd ≤ s.windowStart := by
  obtain ⟨m, -, hnear⟩ := h.near
  have hstart : s.windowStart = windowStartAt capacity (steps.count .retired) :=
    hnear.windowStart_eq
  have hwindow : s.windowEnd = windowEndAt capacity (steps.count .retired) := hnear.windowEnd_eq
  rw [nextWindowEnd, nextWindowStart, if_pos hend, h.capacity_eq]
  rw [h.capacity_eq, hwindow] at hend
  rw [hstart]
  generalize steps.count .retired = j at hend
  cases j with
  | zero => exact Nat.min_le_right _ _
  | succ j =>
      rw [windowEndAt] at hend
      rw [windowStartAt] at hend ⊢
      rcases Nat.eq_zero_or_pos (j % rotation capacity) with hfirst | hlater
      · rw [hfirst] at hend
        omega
      · have hle := Nat.le_mul_of_pos_left (capacity / 5) hlater
        omega

variable {capacity : Nat} {c : Cycles} {s : LiveSlots}

theorem Layered.skipWindow (h : Layered c s) (hs : Regular capacity s) :
    Layered c s.skipWindow := by
  by_cases hcursor : s.cursor = s.windowStart
  · have hskip : s.skipWindow = { s with cursor := s.windowEnd } := if_pos hcursor
    have hle := hs.window_le
    have hfresh := h.fresh
    rw [hcursor, Nat.min_self, blocksIn_eq_nil hle] at hfresh
    rw [hskip]
    refine ⟨h.old, ?_⟩
    show s.blocksIn 0 (min s.windowEnd s.windowStart) ++ s.blocksIn s.windowEnd s.windowEnd = _
    rw [Nat.min_eq_right hle, blocksIn_eq_nil (Nat.le_refl _)]
    exact hfresh
  · have hskip : s.skipWindow = s := if_neg hcursor
    rw [hskip]
    exact h

theorem Layered.store (h : Layered c s) (hs : Regular capacity s)
    (hout : s.cursor < s.windowStart ∨ s.windowEnd ≤ s.cursor) (hroom : s.cursor < s.capacity)
    (b : Block) : Layered { c with fresh := c.fresh ++ [b] } (s.store b) := by
  have hle := hs.window_le
  have hother : ∀ low high, high ≤ s.cursor ∨ s.cursor < low →
      (s.store b).blocksIn low high = s.blocksIn low high := by
    intro low high hi
    refine blocksIn_congr fun i hlow hhigh => ?_
    rw [blockAt_store hroom, if_neg (by omega)]
  have hhere : (s.store b).blockAt s.cursor = some b := by
    rw [blockAt_store hroom, if_pos rfl]
  refine ⟨?_, ?_⟩
  · show ((s.store b).blocksIn s.windowStart s.windowEnd).Sublist c.old
    rw [hother _ _ (by omega)]
    exact h.old
  · show (s.store b).blocksIn 0 (min (s.cursor + 1) s.windowStart)
      ++ (s.store b).blocksIn s.windowEnd (s.cursor + 1) = c.fresh ++ [b]
    rw [← h.fresh]
    rcases hout with hbelow | habove
    · -- the block goes below the window, and nothing is above it yet
      have habove : s.blocksIn s.windowEnd s.cursor = [] := blocksIn_eq_nil (by omega)
      have habove' : (s.store b).blocksIn s.windowEnd (s.cursor + 1) = [] :=
        blocksIn_eq_nil (by omega)
      rw [Nat.min_eq_left hbelow, Nat.min_eq_left (Nat.le_of_lt hbelow), habove, habove',
        blocksIn_succ (Nat.zero_le _), hother _ _ (Or.inl (Nat.le_refl _)), hhere,
        List.append_nil, List.append_nil]
      rfl
    · rw [Nat.min_eq_right (by omega), Nat.min_eq_right (by omega), blocksIn_succ habove,
        hother _ _ (Or.inl (Nat.le_refl _)), hother 0 _ (Or.inl (by omega)), hhere,
        List.append_assoc]
      rfl

/-- The blocks of the cycle under way, when the buffer is full. -/
theorem Layered.fresh_of_end (h : Layered c s) (hs : Regular capacity s)
    (hend : s.capacity ≤ s.cursor) :
    c.fresh = s.blocksIn 0 s.windowStart ++ s.blocksIn s.windowEnd s.capacity := by
  have hcapacity := hs.capacity_eq
  have hcursor : s.cursor = s.capacity := by
    have := hs.cursor_le
    omega
  have hfits := hs.windowEnd_le
  have hle := hs.window_le
  rw [← h.fresh, hcursor, Nat.min_eq_right (by omega)]

theorem Layered.retire (h : Layered c s) (hs : Regular capacity s)
    (hend : s.capacity ≤ s.cursor)
    (hapart : s.capacity ≤ s.windowEnd → s.nextWindowEnd ≤ s.windowStart) :
    Layered { old := c.fresh } s.retire := by
  have hfits := s.nextWindowEnd_le
  refine ⟨?_, ?_⟩
  · show (s.retire.blocksIn s.nextWindowStart s.nextWindowEnd).Sublist c.fresh
    rw [blocksIn_retire, h.fresh_of_end hs hend]
    by_cases hwrap : s.capacity ≤ s.windowEnd
    · exact (blocksIn_sublist (Nat.zero_le _) (hapart hwrap)).trans (List.sublist_append_left _ _)
    · have hstart : s.nextWindowStart = s.windowEnd := if_neg hwrap
      exact (blocksIn_sublist (Nat.le_of_eq hstart.symm) hfits).trans
        (List.sublist_append_right _ _)
  · show s.retire.blocksIn 0 (min 0 s.nextWindowStart) ++ s.retire.blocksIn s.nextWindowEnd 0 = []
    rw [Nat.zero_min, blocksIn_eq_nil (Nat.le_refl 0), blocksIn_eq_nil (Nat.zero_le _)]
    rfl

theorem layered_empty (capacity : Nat) : Layered {} (empty capacity) := by
  refine ⟨?_, ?_⟩
  · show ((empty capacity).blocksIn capacity capacity).Sublist []
    rw [blocksIn_eq_nil (Nat.le_refl _)]
  · show (empty capacity).blocksIn 0 (min 0 capacity) ++ (empty capacity).blocksIn capacity 0 = []
    rw [Nat.zero_min, blocksIn_eq_nil (Nat.le_refl 0), blocksIn_eq_nil (Nat.zero_le _)]
    rfl

section Chronicles

variable {a : Allocator} {start : Journal} {pages : List Page} {j : Journal}

theorem Layered.retire_skipWindow (hs : Chronicled a capacity start pages s j)
    (h : Layered (cycles pages) s) (hend : s.capacity ≤ s.skipWindow.cursor) :
    Layered { old := (cycles pages).fresh } s.skipWindow.retire := by
  rw [← s.capacity_skipWindow] at hend
  exact (h.skipWindow hs.regular).retire hs.regular.skipWindow hend
    hs.ledger.scheduled.skipWindow.windows_apart

/-- What a retire event keeps is of the cycle that it ends. -/
theorem Layered.mem_fresh (hs : Chronicled a capacity start pages s j)
    (h : Layered (cycles pages) s) (hend : s.capacity ≤ s.skipWindow.cursor) {b : Block}
    (hb : b ∈ s.skipWindow.retire.blocks) : b ∈ (cycles pages).fresh := by
  rw [blocks_retire, ← blocksIn_retire] at hb
  exact (h.retire_skipWindow hs hend).old.subset hb

theorem Layered.entry {p : Page} {s' : LiveSlots} {made : Nat}
    (hs : Chronicled a capacity start pages s j) (h : Layered (cycles pages) s)
    (hentry : Entry s j.calls p s' made) : Layered (cycles (pages ++ [p])) s' := by
  have hregular := hs.regular
  have hskip := h.skipWindow hregular
  rw [cycles_concat]
  cases hentry with
  | retired hend => exact h.retire_skipWindow hs hend
  | failed hnone _ =>
      rw [Cycles.follow_failed hnone]
      exact hskip
  | stored hroom _ =>
      exact hskip.store hregular.skipWindow hregular.skipWindow_outside hroom _
  | cleared =>
      have hempty := layered_empty s.capacity
      exact ⟨hempty.old, hempty.fresh⟩

end Chronicles

end LiveSlots

end HeapChurn
