import HeapChurn.Proofs.LiveSlots.Service
import HeapChurn.Proofs.Trace.Outstanding

/-!
# Sequences of requests

A buffer of live slots in use: any number of requests, of any sizes, some of them refused, and
releases of everything in between. Whatever the sequence and whatever the allocator answers, the
buffer stays regular (`regular_serve`). It follows that it never holds more blocks than it has
slots, that a block is only ever stored in an empty slot, and that no retire event counts past the
largest word.
-/

namespace HeapChurn

namespace LiveSlots

/-- What can be asked of a buffer. -/
inductive Call where
  | allocate (size : Nat)
  | releaseAll
  deriving Repr, DecidableEq

/-- Serves one call after the other, whether the calls before succeeded or not. -/
def serve : List Call → LiveSlots → Routine LiveSlots
  | [], s => return s
  | .allocate size :: rest, s => do
    let (_, s) ← s.allocate size
    serve rest s
  | .releaseAll :: rest, s => do
    let (_, s) ← s.releaseAll
    serve rest s

theorem live_le_capacity (s : LiveSlots) : s.live ≤ s.capacity := Array.countP_le_size

/-- What a thread has seen since its buffer was empty: its outstanding blocks are those in the
buffer, and there never were more of them than the buffer has slots. -/
structure Tally (capacity : Nat) (before new : List Event) (s : LiveSlots) (j : Journal) :
    Prop where
  events : j.events.toList = before ++ new
  outstanding : Trace.outstanding new = s.live
  atMost : Trace.AtMost capacity new

variable {capacity : Nat} {before new : List Event} {s : LiveSlots} {j j' : Journal}

theorem Tally.retire (h : Tally capacity before new s j) (growth : Counters) :
    Tally capacity before (new ++ s.retiring.map .released) s.retire
      ((j.returned s.retiring).counted growth) where
  events := by
    rw [← List.append_assoc, ← h.events]
    exact j.events_returned _
  outstanding := by
    have hparted := s.perm_retire.length_eq
    rw [List.length_append, ← live_eq_length, ← live_eq_length] at hparted
    rw [Trace.outstanding_append, Trace.outstanding_released, h.outstanding, hparted]
    omega
  atMost := h.atMost.append_released _

theorem Tally.clear (h : Tally capacity before new s j) (growth : Counters) :
    Tally capacity before (new ++ s.blocks.map .released) s.clear
      ((j.returned s.blocks).counted growth) where
  events := by
    rw [← List.append_assoc, ← h.events]
    exact j.events_returned _
  outstanding := by
    rw [Trace.outstanding_append, Trace.outstanding_released, h.outstanding, live_eq_length,
      live_eq_length, blocks_clear, List.length_nil]
    omega
  atMost := h.atMost.append_released _

theorem Tally.refused (h : Tally capacity before new s j) (b : Block) :
    Tally capacity before (new ++ [.refused b]) s (j.refused b) where
  events := by
    rw [← List.append_assoc, ← h.events]
    exact Array.toList_push
  outstanding := by
    rw [Trace.outstanding_append, h.outstanding]
    simp [Trace.outstanding]
  atMost := h.atMost.append_refused b

theorem Tally.store (h : Tally capacity before new s j) (hcapacity : s.capacity = capacity)
    (hroom : s.cursor < s.capacity) (hvacant : s.stale? = none) (b : Block) (growth : Counters) :
    Tally capacity before (new ++ [.granted b]) (s.store b) ((j.granted b).counted growth) := by
  have hlive : (s.store b).live = s.live + 1 := by
    rw [live_eq_length, (perm_store hroom hvacant).length_eq, List.length_cons, ← live_eq_length]
  have hbound := (s.store b).live_le_capacity
  rw [capacity_store, hcapacity, hlive] at hbound
  refine ⟨?_, ?_, ?_⟩
  · rw [← List.append_assoc, ← h.events]
    exact Array.toList_push
  · rw [Trace.outstanding_append, h.outstanding, hlive]
    simp [Trace.outstanding]
  · refine h.atMost.append_granted ?_ b
    rw [h.outstanding]
    omega

theorem Tally.skipWindow (h : Tally capacity before new s j) :
    Tally capacity before new s.skipWindow j := by
  refine ⟨h.events, ?_, h.atMost⟩
  rw [live_eq_length, blocks_skipWindow, ← live_eq_length]
  exact h.outstanding

/-- A request keeps the tally, whatever it comes to. -/
theorem Served.tally {a : Allocator} {size : Nat} {out : Except Error Step × LiveSlots}
    (hserved : Served a s size j out j') (hs : Regular capacity s)
    (h : Tally capacity before new s j) : ∃ new', Tally capacity before new' out.2 j' := by
  cases hserved with
  | retired _ => exact ⟨_, h.skipWindow.retire _⟩
  | noLayout _ _ => exact ⟨_, h.skipWindow⟩
  | refused _ _ _ => exact ⟨_, h.skipWindow.refused _⟩
  | stored hroom _ _ =>
      rw [← capacity_skipWindow] at hroom
      exact ⟨_, h.skipWindow.store hs.skipWindow.capacity_eq hroom hs.vacant _ _⟩

theorem ensures_serve {a : Allocator} {slots : List Nat} {held : Nat → Option Block} :
    ∀ (calls : List Call) {s : LiveSlots} {v : View} {new : List Event}, v.Holds slots held →
      Regular capacity s → Tally capacity before new s v.journal →
      (s.serve calls).Ensures a (.retagging slots) v fun s' w =>
        Regular capacity s' ∧ ∃ new', Tally capacity before new' s' w.journal
  | [], _, _, _, _, hs, hj => Routine.ensures_pure fun _ _ => ⟨hs, _, hj⟩
  | .allocate size :: rest, s, v, new, hv, hs, hj => by
      unfold serve
      refine (ensures_allocate hv hs.vacant size).bind fun out w ⟨hw, hserved⟩ => ?_
      obtain ⟨new', hj'⟩ := hserved.tally hs hj
      exact ensures_serve rest hw (hserved.regular hs) hj'
  | .releaseAll :: rest, s, v, new, hv, hs, hj => by
      unfold serve
      refine (ensures_releaseAll hv).bind fun out w ⟨hw, hout, hjournal⟩ => ?_
      subst hout
      have hj' := hj.clear (.liveFrees s.blocks.length)
      rw [← hjournal] at hj'
      exact ensures_serve rest hw hs.clear hj'

/-- The state of a buffer that can be made, after any sequence of calls. No request that follows
makes room first: the slot that it fills is inside the buffer and empty. -/
theorem regular_serve {s : LiveSlots} (h : ofCapacity capacity = .ok s) (a : Allocator)
    (calls : List Call) (v : View) :
    let s' := ((s.serve calls).run a v).1
    let j' := ((s.serve calls).run a v).2.journal
    Regular capacity s' ∧ s'.live ≤ capacity
      ∧ (∃ new, j'.events.toList = v.journal.events.toList ++ new ∧ Trace.AtMost capacity new)
      ∧ (s'.skipWindow.cursor < s'.capacity →
          s'.skipWindow.slots[s'.skipWindow.cursor]? = some none)
      ∧ s'.skipWindow.makeRoom = pure s'.skipWindow
      ∧ (∀ size w, Served a s' size w.journal ((s'.allocate size).run a w).1
          ((s'.allocate size).run a w).2.journal)
      ∧ s'.skipWindow.nextWindowStart + s'.capacity / 5 < Word.modulus := by
  have hreservable : reservable capacity = true ∧ s = empty capacity := by
    unfold ofCapacity at h
    split at h
    · exact ⟨‹_›, (Except.ok.inj h).symm⟩
    · cases h
  obtain ⟨hreservable, rfl⟩ := hreservable
  have hholds (w : View) : w.Holds [] fun _ => none := fun _ hs => absurd hs List.not_mem_nil
  have htally : Tally capacity v.journal.events.toList [] (empty capacity) v.journal :=
    ⟨(List.append_nil _).symm, by rw [live_eq_length, blocks_empty]; rfl,
      Trace.atMost_nil (Int.natCast_nonneg _)⟩
  have hrun := ((ensures_serve (a := a) calls (hholds v) (regular_empty capacity)
    htally)).run_self
  intro s' j'
  obtain ⟨hs, new, hj⟩ := hrun
  have hvacant : s'.skipWindow.stale? = none := hs.vacant
  refine ⟨hs, hs.capacity_eq ▸ s'.live_le_capacity, ⟨new, hj.events, hj.atMost⟩, fun hroom => ?_,
    makeRoom_of_vacant hvacant, fun size w => ?_, ?_⟩
  · rw [← capacity_skipWindow] at hroom
    have hlt : s'.skipWindow.cursor < s'.skipWindow.slots.size := hroom
    simpa [stale?, hlt] using hvacant
  · exact (ensures_allocate (hholds w) hvacant size).run_self.2
  · have hwrap := hs.skipWindow.window_no_wrap hreservable
    rw [capacity_skipWindow] at hwrap
    exact hwrap

/-- Seven slots with a window of one: thirty requests of which the tenth and every later fifth is
refused, with a release of everything in between. -/
theorem regular_serve_seven :
    ofCapacity 7 = .ok (empty 7) ∧
      Regular 7 (((empty 7).serve
        (List.replicate 20 (.allocate 16) ++ .releaseAll :: List.replicate 10 (.allocate 0))).run
          { refuses := fun _ call _ => 9 ≤ call && call % 5 = 4, overwrites := fun _ _ => [] }
          ⟨#[], { thread := .worker 3 }⟩).1 :=
  ⟨rfl, (regular_serve rfl _ _ _).1⟩

end LiveSlots

end HeapChurn
