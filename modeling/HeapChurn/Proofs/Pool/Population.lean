import HeapChurn.Pool
import HeapChurn.Proofs.Trace.Custody
import Mathlib.Data.List.Basic

/-!
# Filling and emptying the pool

What the main thread does while it is alone. A pool that was filled holds in slot `s` the block of
the call with that number (`Filled`), and when a request fails all the blocks obtained so far are
handed back (`ensures_populate`). At its end a pool hands back what its slots still hold, in slot
order (`ensures_reclaim`).
-/

namespace HeapChurn

namespace Routine

variable {α : Type} {a : Allocator}

/-- With nobody in between an action does what it does. -/
theorem ensures_perform_alone (action : Action) (v : View) :
    (perform action).Ensures a .nobody v fun answer w => (answer, w) = action.perform a v := by
  rintro pool rfl pool' rfl
  rfl

/-- A contract that reckons with others holds without them. -/
theorem Ensures.alone {others : Interference} {Q : α → View → Prop} {r : Routine α} :
    ∀ {v : View}, r.Ensures a others v Q → r.Ensures a .nobody v Q := by
  induction r with
  | done x =>
      rintro v h pool rfl
      exact h _ (others.refl _)
  | act action next ih =>
      rintro v h pool rfl
      exact ih _ (h _ (others.refl _))

end Routine

namespace Pool

/-- The block that fills a slot: each call of the main thread fills the next one. -/
def blockOf (layout : Layout) (slot : Nat) : Block := ⟨⟨.main, slot⟩, layout⟩

/-- The first `n` slots of the pool hold their blocks, and the main thread holds no others. -/
structure Stored (layout : Layout) (n : Nat) (v : View) : Prop where
  size : v.pool.size = n
  block : ∀ s < n, v.pool.blockAt s = some (blockOf layout s)
  thread : v.journal.thread = .main
  custody : Custody v.journal ((List.range n).map (blockOf layout)) []

/-- All of that, and nothing else has happened. -/
structure Filled (a : Allocator) (layout : Layout) (n : Nat) (v : View) : Prop extends
    Stored layout n v where
  calls : v.journal.calls = n
  events : v.journal.events.toList = (List.range n).map fun s => .granted (blockOf layout s)
  honest : (∀ call, a.overwrites .main call = []) → v.pool.Honest

variable {a : Allocator} {layout : Layout} {n : Nat} {v : View}

theorem filled_start (a : Allocator) (layout : Layout) :
    Filled a layout 0 ⟨#[], { thread := .main }⟩ where
  size := rfl
  block := nofun
  thread := rfl
  custody := .start .main
  calls := rfl
  events := rfl
  honest _ := nofun

theorem Stored.noted (h : Stored layout n v) (notice : Notice) :
    Stored layout n ⟨v.pool, v.journal.noted notice⟩ :=
  ⟨h.size, h.block, h.thread, h.custody.noted notice⟩

theorem Filled.noted (h : Filled a layout n v) (notice : Notice) :
    Filled a layout n ⟨v.pool, v.journal.noted notice⟩ :=
  ⟨h.toStored.noted notice, h.calls, h.events, h.honest⟩

theorem Filled.nextBlock (h : Filled a layout n v) :
    v.journal.nextBlock layout = blockOf layout n := by
  rw [Journal.nextBlock, h.thread, h.calls]
  rfl

theorem Filled.push (h : Filled a layout n v) (growth : Counters) :
    Filled a layout (n + 1)
      ⟨(v.pool.overwriteAll (a.overwrites v.journal.thread v.journal.calls)).push
          (some ⟨v.journal.nextBlock layout, n⟩),
        (v.journal.granted (v.journal.nextBlock layout)).counted growth⟩ := by
  refine ⟨⟨?_, fun s hs => ?_, h.thread, ?_⟩, ?_, ?_, fun hquiet => ?_⟩
  · simp [h.size]
  · rw [PoolSlots.blockAt_push, PoolSlots.size_overwriteAll, h.size,
      PoolSlots.blockAt_overwriteAll, h.nextBlock]
    by_cases heq : s = n
    · rw [if_pos heq, heq]
    · rw [if_neg heq]
      exact h.block s (by omega)
  · have hgranted := (h.custody.granted layout).counted growth
    refine hgranted.perm ?_
    rw [h.nextBlock, List.range_succ, List.map_append]
    exact (List.perm_append_singleton _ _).symm
  · exact congrArg (· + 1) h.calls
  · rw [h.nextBlock, List.range_succ, List.map_append, ← h.events]
    exact Array.toList_push
  · have hsame : v.pool.overwriteAll (a.overwrites v.journal.thread v.journal.calls) = v.pool := by
      rw [h.thread, hquiet]
      rfl
    rw [hsame]
    exact (h.honest hquiet).push h.size.symm

/-- A request that is refused leaves the pool as it is. -/
theorem Filled.refused (h : Filled a layout n v) (os : List Overwrite) :
    Stored layout n
      ⟨v.pool.overwriteAll os, v.journal.refused (v.journal.nextBlock layout)⟩ := by
  refine ⟨?_, fun s hs => ?_, h.thread, h.custody.refused layout⟩
  · simp [h.size]
  · rw [PoolSlots.blockAt_overwriteAll]
    exact h.block s hs

/-- Filling goes on to the end or to the first refusal. -/
theorem ensures_fill {blockSize : Nat} (hlayout : Layout.forForeign? blockSize = some layout) :
    ∀ (count slot : Nat) {v : View}, Filled a layout slot v →
      (fill blockSize count slot).Ensures a .nobody v fun missing w =>
        (missing = 0 ∧ Filled a layout (slot + count) w)
          ∨ ∃ m, missing = m + 1 ∧ Stored layout (slot + count - missing) w
  | 0, slot, _, h => by
      refine Routine.ensures_pure ?_
      rintro pool rfl
      exact Or.inl ⟨rfl, h⟩
  | count + 1, slot, v, h => by
      unfold fill
      rw [hlayout]
      refine (Routine.ensures_perform_alone (.request layout) v).bind ?_
      rintro answer w hw
      simp only [Action.perform] at hw
      cases hanswer : a.refuses v.journal.thread v.journal.calls layout.size with
      | true =>
          rw [hanswer, if_pos rfl] at hw
          obtain ⟨rfl, rfl⟩ := Prod.mk.inj hw
          refine Routine.ensures_pure ?_
          rintro pool rfl
          refine Or.inr ⟨count, rfl, ?_⟩
          rw [Nat.add_sub_cancel]
          exact h.refused _
      | false =>
          rw [hanswer, if_neg Bool.false_ne_true] at hw
          obtain ⟨rfl, rfl⟩ := Prod.mk.inj hw
          refine (Routine.ensures_perform_alone (.store _) _).bind ?_
          rintro _ x hx
          obtain ⟨-, rfl⟩ := Prod.mk.inj hx
          refine (Routine.ensures_perform_alone (.count .foreignAlloc) _).bind ?_
          rintro _ y hy
          obtain ⟨-, rfl⟩ := Prod.mk.inj hy
          refine (ensures_fill hlayout count (slot + 1) (h.push .foreignAlloc)).mono ?_
          intro missing z hz
          rw [show slot + (count + 1) = slot + 1 + count by omega]
          exact hz

/-- The slots of a range are emptied in order and their blocks are handed back. -/
theorem ensures_reclaim {slots : List Nat} {held : Nat → Option Block} :
    ∀ (count slot released : Nat) {past : List Nat} {v : View},
      v.Holds slots (without held past) → (past ++ List.range' slot count).Nodup →
      (∀ s ∈ List.range' slot count, s ∈ slots) →
      (reclaim count slot released).Ensures a (.retagging slots) v fun _ w =>
        w.journal = v.journal.returned ((List.range' slot count).filterMap held)
  | 0, _, _, _, _, _, _, _ => Routine.ensures_pure fun _ _ => rfl
  | count + 1, slot, released, past, v, hv, hnodup, hslots => by
      rw [List.range'_succ] at hnodup hslots ⊢
      have hnew : slot ∉ past := fun hmem =>
        (List.nodup_append.mp hnodup).2.2 slot hmem slot List.mem_cons_self rfl
      have hnodup' : (past ++ [slot] ++ List.range' (slot + 1) count).Nodup := by
        simpa using hnodup
      have hslots' : ∀ s ∈ List.range' (slot + 1) count, s ∈ slots := fun s hs =>
        hslots s (List.mem_cons_of_mem _ hs)
      unfold reclaim
      refine (Routine.ensures_take hv (hslots slot List.mem_cons_self)).bind
        fun taken w ⟨htaken, hw, hj⟩ => ?_
      rw [update_without] at hw
      rw [without_of_notMem hnew] at htaken
      cases taken with
      | none =>
          rw [List.filterMap_cons_none htaken.symm, ← hj]
          exact ensures_reclaim count (slot + 1) released hw hnodup' hslots'
      | some b =>
          rw [List.filterMap_cons_some htaken.symm]
          refine (Routine.ensures_release hw b.block).bind fun _ u ⟨hu, hj'⟩ => ?_
          refine (ensures_reclaim count (slot + 1) (released + 1) hu hnodup' hslots').mono ?_
          intro _ x hx
          rw [hx, hj', hj]
          rfl

/-- From the first slot on: what the slots still hold is handed back in slot order. -/
theorem ensures_reclaim_all (total : Nat) (v : View) :
    (reclaim total 0 0).Ensures a (.retagging (List.range total)) v fun _ w =>
      w.journal = v.journal.returned ((List.range total).filterMap v.pool.blockAt) := by
  have hv : v.Holds (List.range total) (without v.pool.blockAt []) := fun s _ => by
    rw [without_nil]
  have hrange : List.range total = List.range' 0 total := List.range_eq_range'
  have hnodup : ([] ++ List.range' 0 total).Nodup := by
    rw [List.nil_append, ← hrange]
    exact List.nodup_range
  rw [hrange]
  exact ensures_reclaim total 0 0 (hrange ▸ hv) hnodup fun s hs => hs

theorem ensures_tearDown (total : Nat) (v : View) :
    (tearDown total).Ensures a (.retagging (List.range total)) v fun _ w =>
      w.journal.events
        = (v.journal.returned ((List.range total).filterMap v.pool.blockAt)).events := by
  unfold tearDown
  refine (ensures_reclaim_all total v).bind fun leftover w hw => ?_
  have hw' : w.Holds (List.range total) w.pool.blockAt := fun _ _ => rfl
  by_cases hleft : 0 < leftover
  · rw [if_pos hleft]
    refine (Routine.ensures_note hw' _).mono fun _ u ⟨_, hj⟩ => ?_
    rw [hj, ← hw]
    rfl
  · rw [if_neg hleft]
    exact Routine.ensures_pure fun _ _ => congrArg Journal.events hw

/-- Blocks that were stored are what a pool hands back. -/
theorem Stored.filterMap_blockAt (h : Stored layout n v) :
    (List.range n).filterMap v.pool.blockAt = (List.range n).map (blockOf layout) := by
  rw [List.filterMap_eq_map_iff_forall_eq_some]
  exact fun s hs => h.block s (List.mem_range.mp hs)

theorem ensures_fillUp {plan : Plan} {blockSize : Nat} (h : ∀ layout, Filled a layout 0 v) :
    (fillUp plan blockSize).Ensures a .nobody v fun result w =>
      (result = .ok () ∧ ∃ layout, Filled a layout plan.foreignTotal w)
      ∨ ∃ e, result = .error e ∧ w.journal.thread = .main ∧ Custody w.journal [] [] := by
  unfold fillUp
  cases hlayout : Layout.forForeign? blockSize with
  | none =>
      cases htotal : plan.foreignTotal with
      | zero =>
          refine (Routine.ensures_perform_alone (.note _) v).bind ?_
          rintro _ w hw
          obtain ⟨-, rfl⟩ := Prod.mk.inj hw
          refine Routine.ensures_pure ?_
          rintro pool rfl
          exact Or.inl ⟨rfl, ⟨0, 0⟩, (h _).noted _⟩
      | succ count =>
          unfold fill
          rw [hlayout]
          refine (show Routine.Ensures a .nobody (reclaim _ 0 0 >>= _) v _ from ?_)
          rw [Nat.sub_self]
          refine Routine.ensures_pure ?_
          rintro pool rfl
          exact Or.inr ⟨_, rfl, (h ⟨0, 0⟩).thread, (h ⟨0, 0⟩).custody⟩
  | some layout =>
      refine (ensures_fill hlayout plan.foreignTotal 0 (h layout)).bind ?_
      rintro missing w (⟨rfl, hw⟩ | ⟨m, rfl, hw⟩)
      · rw [Nat.zero_add] at hw
        refine (Routine.ensures_perform_alone (.note _) w).bind ?_
        rintro _ u hu
        obtain ⟨-, rfl⟩ := Prod.mk.inj hu
        refine Routine.ensures_pure ?_
        rintro pool rfl
        exact Or.inl ⟨rfl, layout, hw.noted _⟩
      · rw [Nat.zero_add] at hw
        have hreclaim := (ensures_reclaim_all (a := a) (plan.foreignTotal - (m + 1)) w).alone
        rw [hw.filterMap_blockAt] at hreclaim
        refine hreclaim.bind fun _ u hu => ?_
        refine Routine.ensures_pure ?_
        rintro pool rfl
        have hcustody := hw.custody
        rw [← List.append_nil ((List.range _).map (blockOf layout))] at hcustody
        refine Or.inr ⟨_, rfl, ?_, ?_⟩
        · exact (congrArg Journal.thread hu).trans
            ((Journal.thread_returned _ _).trans hw.thread)
        · rw [hu]
          exact hcustody.returned

/-- All or nothing: the whole pool is filled, or the main thread holds no block. -/
theorem ensures_populate {plan : Plan} {blockSize : Nat} (h : ∀ layout, Filled a layout 0 v) :
    (populate plan blockSize).Ensures a .nobody v fun result w =>
      (result = .ok () ∧ reservable plan.foreignTotal = true
        ∧ ∃ layout, Filled a layout plan.foreignTotal w)
      ∨ ∃ e, result = .error e ∧ w.journal.thread = .main ∧ Custody w.journal [] [] := by
  have hnothing : ∀ result : Except Error Unit, (∃ e, result = .error e) →
      (pure result : Routine (Except Error Unit)).Ensures a .nobody v fun result w =>
        (result = .ok () ∧ reservable plan.foreignTotal = true
          ∧ ∃ layout, Filled a layout plan.foreignTotal w)
        ∨ ∃ e, result = .error e ∧ w.journal.thread = .main ∧ Custody w.journal [] [] := by
    rintro _ ⟨e, rfl⟩
    refine Routine.ensures_pure ?_
    rintro pool rfl
    exact Or.inr ⟨e, rfl, (h ⟨0, 0⟩).thread, (h ⟨0, 0⟩).custody⟩
  unfold populate
  by_cases hreservable : reservable plan.foreignTotal = true
  · rw [if_pos hreservable]
    refine (Routine.ensures_perform_alone (.reserve _) v).bind ?_
    rintro reserved w hw
    obtain ⟨-, rfl⟩ := Prod.mk.inj hw
    cases reserved with
    | true =>
        refine (ensures_fillUp h).mono fun result w hcase => ?_
        exact hcase.imp_left fun ⟨hok, hfilled⟩ => ⟨hok, hreservable, hfilled⟩
    | false => exact hnothing _ ⟨_, rfl⟩
  · rw [if_neg hreservable]
    exact hnothing _ ⟨_, rfl⟩

/-- The making of a pool from nothing: what it comes to, and what the main thread sees then. -/
def made (a : Allocator) (plan : Plan) (blockSize : Nat) : Except Error Unit × View :=
  (populate plan blockSize).run a ⟨#[], { thread := .main }⟩

/-- A pool that was made is full. -/
theorem filled_of_ok {plan : Plan} {blockSize : Nat}
    (hok : ((populate plan blockSize).run a ⟨#[], { thread := .main }⟩).1 = .ok ()) :
    ∃ layout, Filled a layout plan.foreignTotal
      ((populate plan blockSize).run a ⟨#[], { thread := .main }⟩).2 := by
  have hpopulated : (populate plan blockSize).Ensures a .nobody _ _ :=
    ensures_populate (filled_start a)
  rcases hpopulated.run_self with ⟨-, -, hfilled⟩ | ⟨e, he, -⟩
  · exact hfilled
  · rw [hok] at he
    cases he

end Pool

end HeapChurn
