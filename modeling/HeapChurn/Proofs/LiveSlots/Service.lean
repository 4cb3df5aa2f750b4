import HeapChurn.Proofs.LiveSlots.Occupancy
import HeapChurn.Proofs.Trace.Custody

/-!
# Requests and what they come to

A request to a regular buffer comes to one of four things: the buffer is full and retires, the size
has no layout, the allocator refuses, or a block is stored. `Served` lists them with everything that
decides between them, and `ensures_allocate` says that there is no fifth. What a request keeps is
read off `Served`, case by case, and what many requests keep follows by the one induction of
`ensures_allocateMany`.
-/

namespace HeapChurn

namespace LiveSlots

/-- What becomes of a request for `size` bytes, of the buffer and of the journal. -/
inductive Served (a : Allocator) (s : LiveSlots) (size : Nat) (j : Journal) :
    Except Error Step × LiveSlots → Journal → Prop
  | retired (hend : s.capacity ≤ s.skipWindow.cursor) :
      Served a s size j (.ok .retired, s.skipWindow.retire)
        ((j.returned s.skipWindow.retiring).counted (.retire s.skipWindow.retiring.length))
  | noLayout (hroom : s.skipWindow.cursor < s.capacity) (hsize : Layout.forLive? size = none) :
      Served a s size j (.error (.outOfMemory size), s.skipWindow) j
  | refused (hroom : s.skipWindow.cursor < s.capacity) {layout : Layout}
      (hsize : Layout.forLive? size = some layout)
      (hanswer : a.refuses j.thread j.calls layout.size = true) :
      Served a s size j (.error (.outOfMemory size), s.skipWindow)
        (j.refused (j.nextBlock layout))
  | stored (hroom : s.skipWindow.cursor < s.capacity) {layout : Layout}
      (hsize : Layout.forLive? size = some layout)
      (hanswer : a.refuses j.thread j.calls layout.size = false) :
      Served a s size j (.ok .allocated, s.skipWindow.store (j.nextBlock layout))
        ((j.granted (j.nextBlock layout)).counted (.liveAlloc size))

/-! ## Contracts -/

section Contracts

variable {a : Allocator} {slots : List Nat} {held : Nat → Option Block} {s : LiveSlots} {v : View}

/-- Where the next slot is empty nothing is freed to make room. -/
theorem makeRoom_of_vacant (h : s.stale? = none) : s.makeRoom = pure s := by
  unfold makeRoom
  rw [h]

theorem ensures_allocate (hv : v.Holds slots held) (hvacant : s.skipWindow.stale? = none)
    (size : Nat) :
    (s.allocate size).Ensures a (.retagging slots) v fun out w =>
      w.Holds slots held ∧ Served a s size v.journal out w.journal := by
  unfold allocate
  by_cases hend : s.skipWindow.capacity ≤ s.skipWindow.cursor
  · simp only [if_pos hend]
    rw [capacity_skipWindow] at hend
    refine (Routine.ensures_releaseAll _ hv).bind fun _ w ⟨hw, hj⟩ => ?_
    refine (Routine.ensures_count hw _).bind fun _ u ⟨hu, hj'⟩ => ?_
    refine Routine.ensures_pure fun _ hpool => ⟨hu.shift hpool, ?_⟩
    rw [hj', hj]
    exact .retired hend
  · simp only [if_neg hend, makeRoom_of_vacant hvacant]
    rw [capacity_skipWindow, Nat.not_le] at hend
    cases hsize : Layout.forLive? size with
    | none => exact Routine.ensures_pure fun _ hpool => ⟨hv.shift hpool, .noLayout hend hsize⟩
    | some layout =>
        refine (Routine.ensures_request hv layout).bind fun granted w ⟨hw, hcase⟩ => ?_
        rcases hcase with ⟨hanswer, rfl, hj⟩ | ⟨hanswer, rfl, hj⟩
        · refine Routine.ensures_pure fun _ hpool => ⟨hw.shift hpool, ?_⟩
          rw [hj]
          exact .refused hend hsize hanswer
        · refine (Routine.ensures_count hw _).bind fun _ u ⟨hu, hj'⟩ => ?_
          refine Routine.ensures_pure fun _ hpool => ⟨hu.shift hpool, ?_⟩
          rw [hj', hj]
          exact .stored hend hsize hanswer

/-- What a run of requests keeps. `P n` holds while `n` of them have succeeded, and `F` holds of the
first that fails. -/
theorem ensures_allocateMany {size : Nat} {P : Nat → LiveSlots → Journal → Prop}
    {F : Error → LiveSlots → Journal → Prop}
    (hvacant : ∀ n s j, P n s j → s.skipWindow.stale? = none)
    (hok : ∀ n s j x s' j', P n s j → Served a s size j (.ok x, s') j' → P (n + 1) s' j')
    (herr : ∀ n s j e s' j', P n s j → Served a s size j (.error e, s') j' → F e s' j') :
    ∀ (count : Nat) {n : Nat} {s : LiveSlots} {v : View}, v.Holds slots held → P n s v.journal →
      (allocateMany size count s).Ensures a (.retagging slots) v fun out w =>
        w.Holds slots held ∧
          ((out.1 = .ok () ∧ P (n + count) out.2 w.journal)
            ∨ ∃ e, out.1 = .error e ∧ F e out.2 w.journal)
  | 0, _, _, _, hv, hP =>
      Routine.ensures_pure fun _ hpool => ⟨hv.shift hpool, Or.inl ⟨rfl, hP⟩⟩
  | count + 1, n, s, v, hv, hP => by
      unfold allocateMany
      refine (ensures_allocate hv (hvacant n s _ hP) size).bind fun out w ⟨hw, hserved⟩ => ?_
      obtain ⟨result, s'⟩ := out
      cases result with
      | error e =>
          exact Routine.ensures_pure fun _ hpool =>
            ⟨hw.shift hpool, Or.inr ⟨e, rfl, herr n s _ e s' _ hP hserved⟩⟩
      | ok x =>
          have hrest := ensures_allocateMany hvacant hok herr count hw
            (hok n s _ x s' _ hP hserved)
          rw [Nat.add_assoc, Nat.add_comm 1 count] at hrest
          exact hrest

theorem ensures_releaseAll (hv : v.Holds slots held) :
    s.releaseAll.Ensures a (.retagging slots) v fun out w => w.Holds slots held
      ∧ out = (s.blocks.length, s.clear)
      ∧ w.journal = (v.journal.returned s.blocks).counted (.liveFrees s.blocks.length) := by
  unfold releaseAll
  refine (Routine.ensures_releaseAll _ hv).bind fun _ w ⟨hw, hj⟩ => ?_
  refine (Routine.ensures_count hw _).bind fun _ u ⟨hu, hj'⟩ => ?_
  refine Routine.ensures_pure fun _ hpool => ⟨hu.shift hpool, rfl, ?_⟩
  rw [hj', hj]

end Contracts

/-! ## What a request keeps -/

section Served

variable {a : Allocator} {s : LiveSlots} {size : Nat} {j j' : Journal}
  {out : Except Error Step × LiveSlots} {capacity : Nat} {freed : List Block}

theorem Served.regular (h : Served a s size j out j') (hs : Regular capacity s) :
    Regular capacity out.2 := by
  cases h with
  | retired hend =>
      rw [hs.capacity_eq] at hend
      exact hs.skipWindow.retire hend
  | noLayout _ _ => exact hs.skipWindow
  | refused _ _ _ => exact hs.skipWindow
  | stored hroom _ _ =>
      rw [← capacity_skipWindow] at hroom
      exact hs.store hroom _

/-- The blocks of the buffer are the blocks that the thread holds. -/
theorem Served.custody (h : Served a s size j out j') (hs : Regular capacity s)
    (hj : Custody j s.blocks freed) : Custody j' out.2.blocks freed := by
  cases h with
  | retired hend =>
      have hparted := s.skipWindow.perm_retire
      rw [blocks_skipWindow] at hparted
      exact (hj.perm hparted).returned.counted _
  | noLayout _ _ => simpa using hj
  | refused _ _ _ => simpa using hj.refused _
  | stored hroom _ _ =>
      rw [← capacity_skipWindow] at hroom
      have hstored := perm_store (b := j.nextBlock ‹Layout›) hroom hs.vacant
      rw [blocks_skipWindow] at hstored
      exact ((hj.granted _).perm hstored.symm).counted _

theorem Served.thread_eq (h : Served a s size j out j') : j'.thread = j.thread := by
  cases h with
  | retired _ => exact Journal.thread_returned j _
  | noLayout _ _ => rfl
  | refused _ _ _ => rfl
  | stored _ _ _ => rfl

/-- A request that fails names the size that was asked for. -/
theorem Served.error_eq (h : Served a s size j out j') {e : Error} (he : out.1 = .error e) :
    e = .outOfMemory size := by
  cases h with
  | retired _ => simp at he
  | noLayout _ _ => exact (Except.error.inj he).symm
  | refused _ _ _ => exact (Except.error.inj he).symm
  | stored _ _ _ => simp at he

/-- A thread that holds the blocks of its buffer and no others. `freed` are blocks of other threads
that it has handed back. -/
structure Stock (thread : Thread) (capacity : Nat) (freed : List Block) (s : LiveSlots)
    (j : Journal) : Prop where
  thread : j.thread = thread
  custody : Custody j s.blocks freed
  regular : Regular capacity s

theorem Served.stock {thread : Thread} (h : Served a s size j out j')
    (hs : Stock thread capacity freed s j) : Stock thread capacity freed out.2 j' :=
  ⟨h.thread_eq.trans hs.thread, h.custody hs.regular hs.custody, h.regular hs.regular⟩

end Served

namespace Stock

variable {thread : Thread} {capacity : Nat} {freed : List Block} {s : LiveSlots} {j : Journal}

theorem noted (h : Stock thread capacity freed s j) (notice : Notice) :
    Stock thread capacity freed s (j.noted notice) :=
  ⟨h.thread, h.custody.noted notice, h.regular⟩

/-- Draining blocks of others adds to what was freed. -/
theorem drained (h : Stock thread capacity freed s j) {blocks : List Block}
    (hother : ∀ b ∈ blocks, b.id.thread ≠ thread) :
    Stock thread capacity (freed ++ blocks) s (j.drained blocks) := by
  refine ⟨(j.thread_drained blocks).trans h.thread, h.custody.drained fun b hb => ?_, h.regular⟩
  rw [h.thread]
  exact hother b hb

end Stock

end LiveSlots

end HeapChurn
