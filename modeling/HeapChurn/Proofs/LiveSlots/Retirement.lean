import HeapChurn.Proofs.LiveSlots.Requests
import HeapChurn.Proofs.LiveSlots.Sequences

/-!
# What a retire event frees

A buffer retires only when it is full, so what leaves it can be told slot by slot: first the blocks
below the new window from the front, then those above it from the end (`outside`). The rest of the
event is read off `Served.retired`.

`retire_frees_outside` puts it together for every buffer that any sequence of calls leads to.
-/

namespace HeapChurn

namespace LiveSlots

/-- The slots outside the window, in the order in which a retire event empties them. -/
def outside (s : LiveSlots) : List Nat :=
  List.range s.windowStart ++ (List.range' s.windowEnd (s.capacity - s.windowEnd)).reverse

/-! ## Blocks by their slots -/

theorem filterMap_take_drop (slots : List (Option Block)) : ∀ count low,
    ((slots.drop low).take count).filterMap id
      = (List.range' low count).filterMap fun i => slots[i]?.join
  | 0, _ => by rw [List.take_zero]; rfl
  | count + 1, low => by
      have ih := filterMap_take_drop slots count (low + 1)
      rw [List.range'_succ, List.filterMap_cons, ← ih]
      by_cases hlow : low < slots.length
      · rw [List.drop_eq_getElem_cons hlow, List.take_succ_cons, List.filterMap_cons,
          List.getElem?_eq_getElem hlow]
        rfl
      · rw [List.drop_eq_nil_of_le (Nat.not_lt.mp hlow), List.drop_eq_nil_of_le (by omega),
          List.getElem?_eq_none (Nat.not_lt.mp hlow), List.take_nil, List.take_nil]
        rfl

theorem blocksIn_eq_filterMap (s : LiveSlots) (low high : Nat) :
    s.blocksIn low high = (List.range' low (high - low)).filterMap s.blockAt := by
  rw [blocksIn, List.extract_eq_take_drop, filterMap_take_drop]
  simp only [blockAt, Array.getElem?_toList]
  rfl

/-- Where every slot of a list is occupied, its blocks are one to a slot. -/
theorem map_filterMap_blockAt {s : LiveSlots} : ∀ {slots : List Nat},
    (∀ i ∈ slots, (s.blockAt i).isSome = true) →
      (slots.filterMap s.blockAt).map some = slots.map s.blockAt
  | [], _ => rfl
  | i :: slots, h => by
      obtain ⟨b, hb⟩ := Option.isSome_iff_exists.mp (h i List.mem_cons_self)
      have ih := map_filterMap_blockAt fun k hk => h k (List.mem_cons_of_mem i hk)
      rw [List.filterMap_cons_some hb, List.map_cons, List.map_cons, ih, hb]

theorem retiring_eq_filterMap (s : LiveSlots) :
    s.retiring = s.retire.outside.filterMap s.blockAt := by
  rw [retiring, blocksIn_eq_filterMap, blocksIn_eq_filterMap, outside, List.filterMap_append,
    List.filterMap_reverse, capacity_retire, List.range_eq_range', Nat.sub_zero]
  rfl

@[simp] theorem blockAt_skipWindow (s : LiveSlots) : s.skipWindow.blockAt = s.blockAt := by
  unfold skipWindow
  split <;> rfl

@[simp] theorem freed_skipWindow (s : LiveSlots) : s.skipWindow.freed = s.freed := by
  unfold skipWindow
  split <;> rfl

/-! ## Retire events -/

variable {capacity : Nat} {s : LiveSlots}

/-- A request that retires finds every slot occupied. -/
theorem Regular.full_of_end (h : Regular capacity s) (hend : s.capacity ≤ s.skipWindow.cursor)
    {i : Nat} (hi : i < capacity) : (s.blockAt i).isSome = true := by
  rw [← blockAt_skipWindow]
  exact h.skipWindow.full (h.capacity_eq ▸ hend) hi

theorem lt_capacity_of_mem_outside {i : Nat} (hi : i ∈ s.retire.outside) : i < s.capacity := by
  have hle := s.nextWindowStart_le
  have hend := s.nextWindowEnd_le
  rw [outside, List.mem_append, List.mem_range, List.mem_reverse, List.mem_range'_1,
    capacity_retire] at hi
  change i < s.nextWindowStart ∨ s.nextWindowEnd ≤ i ∧
    i < s.nextWindowEnd + (s.capacity - s.nextWindowEnd) at hi
  omega

theorem length_outside_retire (s : LiveSlots) :
    s.retire.outside.length = s.capacity - (s.retire.windowEnd - s.retire.windowStart) := by
  have hle : s.retire.windowStart ≤ s.retire.windowEnd := s.nextWindowStart_le
  have hend : s.retire.windowEnd ≤ s.capacity := s.nextWindowEnd_le
  rw [outside, List.length_append, List.length_range, List.length_reverse, List.length_range',
    capacity_retire]
  omega

/-- What a request does that retires a buffer in use. -/
structure Retirement (s : LiveSlots) (before : Journal) (t : LiveSlots) (after : Journal) :
    Prop where
  full : ∀ i < s.capacity, (s.blockAt i).isSome = true
  /-- The events are one release for each slot outside the window, in order. -/
  freed_eq : ∃ blocks : List Block, blocks.map some = t.outside.map s.blockAt
    ∧ after.events.toList = before.events.toList ++ blocks.map .released
  /-- No block is asked for. -/
  calls_eq : after.calls = before.calls
  window_le : t.windowStart ≤ t.windowEnd ∧ t.windowEnd ≤ s.capacity
  kept : ∀ i, t.windowStart ≤ i → i < t.windowEnd → t.blockAt i = s.blockAt i
  emptied : ∀ i, i < t.windowStart ∨ t.windowEnd ≤ i → t.blockAt i = none
  freed : t.freed = s.freed + UInt64.ofNat (s.capacity - (t.windowEnd - t.windowStart))
  retires : t.retires = s.retires + 1
  allocated : t.allocated = s.allocated
  cursor : t.cursor = 0

theorem Served.retirement {a : Allocator} {size : Nat} {j j' : Journal} {t : LiveSlots}
    (h : Regular capacity s) (hserved : Served a s size j (.ok .retired, t) j') :
    Retirement s j t j' := by
  generalize hout : (Except.ok Step.retired, t) = out at hserved
  cases hserved with
  | noLayout _ _ => cases hout
  | refused _ _ _ => cases hout
  | stored _ _ _ => cases hout
  | retired hend =>
      obtain ⟨-, rfl⟩ := Prod.mk.inj hout
      have hfull : ∀ i < s.capacity, (s.blockAt i).isSome = true := fun i hi =>
        h.full_of_end hend (h.capacity_eq ▸ hi)
      -- one block for each slot that is emptied, and so as many as there are such slots
      have hblocks : s.skipWindow.retiring.map some
          = s.skipWindow.retire.outside.map s.skipWindow.blockAt := by
        rw [retiring_eq_filterMap]
        refine map_filterMap_blockAt fun i hi => ?_
        rw [blockAt_skipWindow]
        exact hfull i (s.capacity_skipWindow ▸ lt_capacity_of_mem_outside hi)
      have hlength := congrArg List.length hblocks
      rw [List.length_map, List.length_map, length_outside_retire, capacity_skipWindow] at hlength
      refine ⟨hfull, ⟨_, ?_, j.events_returned _⟩, j.calls_returned _, ?_, ?_, ?_, ?_, ?_, ?_, rfl⟩
      · rw [hblocks, blockAt_skipWindow]
      · exact ⟨s.skipWindow.nextWindowStart_le, s.capacity_skipWindow ▸
          s.skipWindow.nextWindowEnd_le⟩
      · intro i hlow hhigh
        rw [blockAt_retire, if_pos ⟨hlow, hhigh⟩, blockAt_skipWindow]
      · intro i hi
        rw [blockAt_retire, if_neg]
        change i < s.skipWindow.nextWindowStart ∨ s.skipWindow.nextWindowEnd ≤ i at hi
        omega
      · change s.skipWindow.freed + UInt64.ofNat s.skipWindow.retiring.length = _
        rw [hlength, freed_skipWindow]
      · change s.skipWindow.retires + 1 = _
        rw [retires_skipWindow]
      · change s.skipWindow.allocated = _
        rw [allocated_skipWindow]

/-- A buffer is regular after any sequence of calls. -/
theorem regular_run_serve (a : Allocator) (capacity : Nat) (calls : List Call) (v : View) :
    Regular capacity (((empty capacity).serve calls).run a v).1 := by
  have hv : v.Holds [] fun _ => none := nofun
  have htally : Tally capacity v.journal.events.toList [] (empty capacity) v.journal :=
    ⟨(List.append_nil _).symm, by rw [live_eq_length, blocks_empty]; rfl,
      Trace.atMost_nil (Int.natCast_nonneg _)⟩
  exact (ensures_serve calls hv (regular_empty capacity) htally).run_self.1

theorem ofCapacity_eq_ok (h : ofCapacity capacity = .ok s) :
    reservable capacity = true ∧ s = empty capacity := by
  unfold ofCapacity at h
  split at h
  · exact ⟨‹_›, (Except.ok.inj h).symm⟩
  · cases h

/-- Whatever was asked for before, refused or released, a request that retires frees every block
outside the new window and no other: below it from the front, above it from the end. -/
theorem retire_frees_outside {s : LiveSlots} (h : ofCapacity capacity = .ok s) (a : Allocator)
    (calls : List Call) (v w : View) (size : Nat) :
    let t := ((s.serve calls).run a v).1
    let out := (t.allocate size).run a w
    out.1.1 = .ok .retired →
      t.capacity = capacity ∧ Retirement t w.journal out.1.2 out.2.journal := by
  obtain ⟨-, rfl⟩ := ofCapacity_eq_ok h
  intro t out hretired
  have hregular : Regular capacity t := regular_run_serve a capacity calls v
  have hserved : Served a t size w.journal out.1 out.2.journal := run_allocate hregular size w
  have hout : out.1 = (.ok .retired, out.1.2) := Prod.ext hretired rfl
  rw [hout] at hserved
  exact ⟨hregular.capacity_eq, hserved.retirement hregular⟩

/-- Ten slots with windows of two: the fifth call is refused, the twelfth request retires the
buffer for the first time, and the one after twenty others for the second time. -/
theorem retire_frees_outside_ten :
    let a : Allocator := { refuses := fun _ call _ => call = 4, overwrites := fun _ _ => [] }
    let served := ((empty 10).serve (List.replicate 20 (.allocate 16))).run a
      ⟨#[], { thread := .worker 0 }⟩
    let out := (served.1.allocate 8).run a served.2
    ofCapacity 10 = .ok (empty 10) ∧ out.1.1 = .ok .retired
      ∧ (served.1.capacity = 10
        ∧ Retirement served.1 served.2.journal out.1.2 out.2.journal)
      ∧ out.1.2.outside = [0, 1, 9, 8, 7, 6, 5, 4] :=
  ⟨rfl, rfl, retire_frees_outside rfl _ _ _ _ 8 rfl, rfl⟩

end LiveSlots

end HeapChurn
