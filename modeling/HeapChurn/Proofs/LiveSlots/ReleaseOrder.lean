import HeapChurn.Proofs.LiveSlots.Cycles
import HeapChurn.Proofs.LiveSlots.Retirement

/-!
# In which order a retire event frees

A retire event frees by slots: below the new window from the front, above it towards the front. Slot
order is the order of allocation within a fill cycle, but a buffer that retires holds blocks of two
cycles. Those of the old window are older than all others (`Layered`), wherever the window lies. So
the blocks below the new window are freed in the order of their allocation, and those above it in
the reverse order, unless the old window is among them and does not come first. `ReleaseOrders` says
when that is, and the five slots at the end show both.
-/

namespace HeapChurn

namespace Trace

/-- Were these blocks granted, and in this order? -/
def InOrder (events : List Event) (blocks : List Block) : Prop := blocks.Sublist (handedOut events)

instance (events : List Event) (blocks : List Block) : Decidable (InOrder events blocks) :=
  inferInstanceAs (Decidable (blocks.Sublist (handedOut events)))

variable {events : List Event} {older newer blocks part : List Block}

theorem InOrder.sublist (h : InOrder events blocks) (hpart : part.Sublist blocks) :
    InOrder events part :=
  hpart.trans h

/-- Blocks in front of older ones are out of order. -/
theorem inOrder_append_iff (hcalls : (handedOut events).Pairwise fun b c => b.id.call < c.id.call)
    (h : InOrder events (older ++ newer)) :
    InOrder events (newer ++ older) ↔ newer = [] ∨ older = [] := by
  constructor
  · intro hswapped
    by_contra hnot
    obtain ⟨hnewer, holder⟩ := not_or.mp hnot
    obtain ⟨b, hb⟩ := List.exists_mem_of_ne_nil newer hnewer
    obtain ⟨c, hc⟩ := List.exists_mem_of_ne_nil older holder
    have hbefore := (List.pairwise_append.mp (hcalls.sublist h)).2.2 c hc b hb
    have hafter := (List.pairwise_append.mp (hcalls.sublist hswapped)).2.2 b hb c hc
    omega
  · rintro (rfl | rfl)
    · rw [List.append_nil] at h
      exact h
    · rw [List.append_nil]
      exact h

end Trace

namespace LiveSlots

open Trace

theorem handedOut_flatMap (pages : List Page) :
    handedOut (pages.flatMap Page.events) = storedOn pages :=
  List.filterMap_flatMap

/-- A full buffer has blocks wherever it has slots. -/
theorem blocksIn_eq_nil_iff {t : LiveSlots} {low high : Nat}
    (hfull : ∀ i < t.capacity, (t.blockAt i).isSome = true) (hhigh : high ≤ t.capacity) :
    t.blocksIn low high = [] ↔ high ≤ low := by
  have hlength : (t.blocksIn low high).length = high - low :=
    length_blocksIn fun i _ hi => hfull i (by omega)
  rw [← List.length_eq_zero_iff, hlength]
  omega

/-- In which order the blocks of the buffer `t` were granted that a retire event frees when it
leaves the buffer `u`. -/
structure ReleaseOrders (events : List Event) (t u : LiveSlots) : Prop where
  /-- The old window first, then the other slots from the front to the end. -/
  order : InOrder events (t.blocksIn t.windowStart t.windowEnd
    ++ (t.blocksIn 0 t.windowStart ++ t.blocksIn t.windowEnd t.capacity))
  /-- Below the new window from the front, unless the old one has younger blocks in front of it. -/
  below_iff : InOrder events (t.blocksIn 0 u.windowStart)
    ↔ ¬(0 < t.windowStart ∧ t.windowStart < t.windowEnd ∧ t.windowEnd ≤ u.windowStart)
  /-- Above the new window from its end, unless the old one has younger blocks in front of it. -/
  above_iff : InOrder events (t.blocksIn u.windowEnd t.capacity)
    ↔ ¬(u.windowEnd < t.windowStart ∧ t.windowStart < t.windowEnd)

theorem releaseOrders_retire {capacity : Nat} {events : List Event} {c : Cycles} {t : LiveSlots}
    (hcalls : (handedOut events).Pairwise fun b c => b.id.call < c.id.call)
    (hcycles : (c.old ++ c.fresh).Sublist (handedOut events)) (hlayered : Layered c t)
    (ht : Regular capacity t) (hend : t.capacity ≤ t.cursor)
    (hapart : t.capacity ≤ t.windowEnd → t.nextWindowEnd ≤ t.windowStart) :
    ReleaseOrders events t t.retire := by
  have hle := ht.window_le
  have hfits : t.windowEnd ≤ t.capacity := ht.capacity_eq ▸ ht.windowEnd_le
  have hfull : ∀ i < t.capacity, (t.blockAt i).isSome = true := fun i hi =>
    ht.full (ht.capacity_eq ▸ hend) (ht.capacity_eq ▸ hi)
  have horder : InOrder events (t.blocksIn t.windowStart t.windowEnd
      ++ (t.blocksIn 0 t.windowStart ++ t.blocksIn t.windowEnd t.capacity)) := by
    have hfresh := hlayered.fresh_of_end ht hend
    have hwindow := hlayered.old.append (List.Sublist.refl c.fresh)
    rw [hfresh] at hwindow
    exact InOrder.sublist hcycles (hfresh ▸ hwindow)
  refine ⟨horder, ?_, ?_⟩
  · show InOrder events (t.blocksIn 0 t.nextWindowStart)
      ↔ ¬(0 < t.windowStart ∧ t.windowStart < t.windowEnd ∧ t.windowEnd ≤ t.nextWindowStart)
    by_cases hwrap : t.capacity ≤ t.windowEnd
    · -- the window starts over, and there is nothing below it
      have hstart : t.nextWindowStart = 0 := if_pos hwrap
      rw [hstart, blocksIn_eq_nil (Nat.le_refl 0)]
      exact iff_of_true (List.nil_sublist _) (by omega)
    · have hstart : t.nextWindowStart = t.windowEnd := if_neg hwrap
      have hbelow : InOrder events
          (t.blocksIn t.windowStart t.windowEnd ++ t.blocksIn 0 t.windowStart) :=
        horder.sublist ((List.sublist_append_left _ _).append_left _)
      rw [hstart, ← blocksIn_append (Nat.zero_le _) hle, inOrder_append_iff hcalls hbelow,
        blocksIn_eq_nil_iff hfull (by omega), blocksIn_eq_nil_iff hfull hfits]
      omega
  · show InOrder events (t.blocksIn t.nextWindowEnd t.capacity)
      ↔ ¬(t.nextWindowEnd < t.windowStart ∧ t.windowStart < t.windowEnd)
    have hnext := t.nextWindowStart_le
    by_cases hwrap : t.capacity ≤ t.windowEnd
    · have hcapacity : t.capacity = t.windowEnd := Nat.le_antisymm hwrap hfits
      have hfirst := hapart hwrap
      have habove : InOrder events
          (t.blocksIn t.windowStart t.capacity ++ t.blocksIn t.nextWindowEnd t.windowStart) := by
        rw [hcapacity]
        refine horder.sublist (List.Sublist.append_left ?_ _)
        exact (blocksIn_sublist (Nat.zero_le _) (Nat.le_refl _)).trans
          (List.sublist_append_left _ _)
      rw [← blocksIn_append hfirst (hle.trans hfits), inOrder_append_iff hcalls habove,
        blocksIn_eq_nil_iff hfull (hle.trans hfits), blocksIn_eq_nil_iff hfull (Nat.le_refl _)]
      omega
    · -- the old window is below the new one
      have hstart : t.nextWindowStart = t.windowEnd := if_neg hwrap
      have habove : (t.blocksIn t.nextWindowEnd t.capacity).Sublist
          (t.blocksIn t.windowEnd t.capacity) :=
        blocksIn_sublist (hstart ▸ t.nextWindowStart_le) (Nat.le_refl _)
      refine iff_of_true (horder.sublist ?_) (by omega)
      exact habove.trans ((List.sublist_append_right _ _).trans (List.sublist_append_right _ _))

/-- Whatever was asked for, refused and released: a retire event frees what lies below the new
window from the front and what lies above it from the end, and `ReleaseOrders` says when these are
the order of allocation and its reverse. -/
theorem retire_release_orders {capacity : Nat} {s : LiveSlots} (h : ofCapacity capacity = .ok s)
    (a : Allocator) (calls : List Call) (v : View) (size : Nat) :
    let told := chronicle a calls s v
    let t := told.2.1
    let out := (t.allocate size).run a told.2.2
    let u := out.1.2
    told.2 = (s.serve calls).run a v
      ∧ (out.1.1 = .ok .retired →
          out.2.journal.events.toList = told.2.2.journal.events.toList
              ++ (t.blocksIn 0 u.windowStart
                ++ (t.blocksIn u.windowEnd t.capacity).reverse).map .released
            ∧ ReleaseOrders (told.1.flatMap Page.events) t u) := by
  obtain ⟨-, rfl⟩ := ofCapacity_eq_ok h
  intro told t out u
  refine ⟨chronicle_eq_serve a calls _ v, ?_⟩
  intro hretired
  obtain ⟨hchronicled, hlayered⟩ := keep_chronicle
    (P := fun pages s => Layered (cycles pages) s) Layered.entry calls
    (Chronicled.opened a capacity v.journal) (layered_empty capacity)
  rw [List.nil_append] at hchronicled hlayered
  have hregular : Regular capacity t := hchronicled.regular
  obtain ⟨hend, hout, hevents⟩ := hregular.run_retiring hretired
  have hu : u = t.skipWindow.retire := hout
  have hordered := hchronicled.ordered
  have hcycles := sublist_cycles told.1
  rw [← handedOut_flatMap] at hordered hcycles
  rw [← capacity_skipWindow] at hend
  have horders : ReleaseOrders (told.1.flatMap Page.events) t.skipWindow t.skipWindow.retire :=
    releaseOrders_retire hordered hcycles (hlayered.skipWindow hregular) hregular.skipWindow hend
      hchronicled.ledger.scheduled.skipWindow.windows_apart
  obtain ⟨horder, hbelow, habove⟩ := horders
  simp only [blocksIn_skipWindow, windowStart_skipWindow, windowEnd_skipWindow,
    capacity_skipWindow] at horder hbelow habove
  rw [hu]
  refine ⟨hevents.trans ?_, ⟨horder, hbelow, habove⟩⟩
  rw [retiring, blocksIn_skipWindow, capacity_skipWindow]
  rfl

/-- Five slots with windows of one, at the fourth retire event: three blocks are freed below the new
window, and the last of them is the oldest. -/
theorem retire_release_orders_five :
    let told := chronicle .faultless (List.replicate 20 (.allocate 8)) (empty 5)
      ⟨#[], { thread := .worker 0 }⟩
    let t := told.2.1
    let out := (t.allocate 8).run .faultless told.2.2
    ofCapacity 5 = .ok (empty 5) ∧ out.1.1 = .ok .retired
      ∧ (t.blocksIn 0 out.1.2.windowStart).map (·.id.call) = [13, 14, 10]
      ∧ ReleaseOrders (told.1.flatMap Page.events) t out.1.2 := by
  have hopen : ofCapacity 5 = .ok (empty 5) := rfl
  obtain ⟨-, hretired⟩ := retire_release_orders hopen .faultless
    (List.replicate 20 (.allocate 8)) ⟨#[], { thread := .worker 0 }⟩ 8
  obtain ⟨-, horders⟩ := hretired (by decide +kernel)
  exact ⟨hopen, by decide +kernel, by decide +kernel, horders⟩

/-- The third retire event of five slots frees what lies below the new window out of order, and the
sixth, which starts over, what lies above it. -/
theorem releases_out_of_order :
    let third := chronicle .faultless (List.replicate 15 (.allocate 8)) (empty 5)
      ⟨#[], { thread := .worker 0 }⟩
    let sixth := chronicle .faultless (List.replicate 30 (.allocate 8)) (empty 5)
      ⟨#[], { thread := .worker 0 }⟩
    let early := (third.2.1.allocate 8).run .faultless third.2.2
    let late := (sixth.2.1.allocate 8).run .faultless sixth.2.2
    ofCapacity 5 = .ok (empty 5)
      ∧ early.1.1 = .ok .retired
      ∧ ¬InOrder (third.1.flatMap Page.events) (third.2.1.blocksIn 0 early.1.2.windowStart)
      ∧ late.1.1 = .ok .retired
      ∧ ¬InOrder (sixth.1.flatMap Page.events) (sixth.2.1.blocksIn late.1.2.windowEnd 5) := by
  refine ⟨rfl, ?_, ?_, ?_, ?_⟩ <;> decide +kernel

end LiveSlots

end HeapChurn
