import HeapChurn.LiveSlots
import Mathlib.Data.List.Basic

/-!
# The blocks of a buffer

The blocks of a buffer of live slots, counted as a list in slot order. A request adds the block it
obtained; a retire event parts the blocks in those that it frees and those that its window keeps
(`perm_retire`); a release of everything leaves none. None of it depends on how full the buffer is.
-/

namespace HeapChurn

namespace LiveSlots

/-- The block in a slot. -/
def blockAt (s : LiveSlots) (i : Nat) : Option Block := s.slots[i]?.join

theorem live_eq_length (s : LiveSlots) : s.live = s.blocks.length := by
  rw [live, blocks, List.length_filterMap_eq_countP, ← Array.countP_toList]
  rfl

theorem perm_filterMap_set {b : Block} : ∀ {l : List (Option Block)} {i : Nat},
    l[i]? = some none → ((l.set i (some b)).filterMap id).Perm (b :: l.filterMap id)
  | [], _, h => by simp at h
  | x :: l, 0, h => by
      obtain rfl : x = none := by simpa using h
      simp
  | x :: l, i + 1, h => by
      have ih := perm_filterMap_set (b := b) (l := l) (i := i) (by simpa using h)
      cases x with
      | none => simpa using ih
      | some c =>
          simp only [List.set_cons_succ, List.filterMap_cons, id_eq]
          exact (ih.cons c).trans (List.Perm.swap b c _)

/-- A stored block is one more block of the buffer. -/
theorem perm_store {s : LiveSlots} {b : Block} (h : s.cursor < s.capacity)
    (hvacant : s.blockAt s.cursor = none) : (s.store b).blocks.Perm (b :: s.blocks) := by
  have hslot : s.slots.toList[s.cursor]? = some none := by
    have hlt : s.cursor < s.slots.size := h
    rw [Array.getElem?_toList]
    simpa [blockAt, hlt] using hvacant
  have : (s.store b).slots.toList = s.slots.toList.set s.cursor (some b) := by simp [store]
  rw [blocks, this]
  exact perm_filterMap_set hslot

theorem filterMap_keepWindow : ∀ {l : List (Option Block)} {low high : Nat}, low ≤ high →
    (l.mapIdx fun i slot => if low ≤ i ∧ i < high then slot else none).filterMap id
      = (l.extract low high).filterMap id
  | [], _, _, _ => by simp
  | x :: l, 0, 0, _ => by simp
  | x :: l, 0, high + 1, _ => by
      have ih := filterMap_keepWindow (l := l) (Nat.zero_le high)
      cases x <;> simpa using ih
  | x :: l, low + 1, high + 1, h => by
      have ih := filterMap_keepWindow (l := l) (Nat.le_of_succ_le_succ h)
      simpa using ih

theorem nextWindowStart_le (s : LiveSlots) : s.nextWindowStart ≤ s.nextWindowEnd := by
  unfold nextWindowEnd nextWindowStart
  split <;> omega

theorem nextWindowEnd_le (s : LiveSlots) : s.nextWindowEnd ≤ s.capacity := by
  unfold nextWindowEnd
  omega

theorem blocks_retire (s : LiveSlots) :
    s.retire.blocks = s.blocksIn s.nextWindowStart s.nextWindowEnd := by
  rw [blocks, blocksIn, ← filterMap_keepWindow s.nextWindowStart_le, retire,
    Array.toList_mapIdx]

/-- The slots of a buffer, cut in three. -/
theorem blocks_eq_append (s : LiveSlots) {low high : Nat} (h : low ≤ high) :
    s.blocks = s.blocksIn 0 low ++ s.blocksIn low high ++ s.blocksIn high s.capacity := by
  have hcut : s.slots.toList.extract 0 low ++ s.slots.toList.extract low high
      ++ s.slots.toList.extract high s.capacity = s.slots.toList := by
    have hend : List.take (s.capacity - high) (List.drop high s.slots.toList)
        = List.drop high s.slots.toList := by
      rw [List.take_of_length_le]
      simp [capacity]
    simp only [List.extract_eq_take_drop, Nat.sub_zero, List.drop_zero, hend]
    rw [List.append_assoc]
    have hmid : List.take (high - low) (List.drop low s.slots.toList)
        ++ List.drop high s.slots.toList = List.drop low s.slots.toList := by
      conv_rhs => rw [← List.take_append_drop (high - low) (List.drop low s.slots.toList)]
      rw [List.drop_drop, Nat.add_sub_cancel' h]
    rw [hmid, List.take_append_drop]
  conv_lhs => rw [blocks, ← hcut]
  rw [List.filterMap_append, List.filterMap_append]
  rfl

/-- A retire event frees or keeps each block of the buffer, and no other. -/
theorem perm_retire (s : LiveSlots) : s.blocks.Perm (s.retiring ++ s.retire.blocks) := by
  rw [s.blocks_eq_append s.nextWindowStart_le, blocks_retire, retiring, List.append_assoc,
    List.append_assoc]
  refine List.Perm.append_left _ ?_
  exact List.perm_append_comm.trans (List.Perm.append_right _ (List.reverse_perm _).symm)

@[simp] theorem blocks_empty (capacity : Nat) : (empty capacity).blocks = [] := by
  simp [blocks, empty]

@[simp] theorem blocks_clear (s : LiveSlots) : s.clear.blocks = [] :=
  blocks_empty s.capacity

@[simp] theorem blocks_skipWindow (s : LiveSlots) : s.skipWindow.blocks = s.blocks := by
  unfold skipWindow
  split <;> rfl

end LiveSlots

end HeapChurn
