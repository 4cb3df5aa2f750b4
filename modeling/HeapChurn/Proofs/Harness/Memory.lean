import HeapChurn.Proofs.Harness.Counters
import Mathlib.Algebra.Order.BigOperators.Group.Finset

/-!
# How much memory a run holds

A bound on the blocks that are outstanding at every point of every trace. A trace falls apart into
the events about the blocks of each thread. Those of a worker are in its own events alone, where its
buffer bounds them at every point; those of the main thread are never more than it obtained. The
buffers together are what the configuration grants, so the sum of these bounds is the bound of the
run (`outstanding_le`).

What is asked of the allocator always has a layout. A size without one ends in an error before the
allocator hears of it.
-/

namespace HeapChurn

open LiveSlots (Deed Ledger)

namespace Layout

/-- What every layout of a request looks like. -/
theorem ofSize?_bounds {size : Nat} {layout : Layout} (h : ofSize? size = some layout)
    (hpos : 1 ≤ size) : layout.align = 8 ∧ 1 ≤ layout.size ∧ layout.size ≤ 2 ^ 63 - 8 := by
  unfold ofSize? at h
  split at h
  · rename_i hle
    cases h
    exact ⟨rfl, hpos, hle⟩
  · cases h

theorem ofSize?_eq_none {size : Nat} : ofSize? size = none ↔ 2 ^ 63 - 8 < size := by
  unfold ofSize?
  split
  · rename_i hle
    exact ⟨nofun, fun h => absurd hle (Nat.not_le.mpr h)⟩
  · rename_i hlt
    exact ⟨fun _ => Nat.not_le.mp hlt, fun _ => rfl⟩

end Layout

/-- The workers together have no more slots than the configuration says. -/
theorem Config.heapSlots_mul_le (config : Config) {plan : Plan} (h : config.plan = .ok plan) :
    plan.heapSlotsPerWorker * plan.workers ≤ config.heapSlots := by
  simp only [Config.plan] at h
  split at h
  · cases h
  · cases h
    exact Nat.div_mul_le_self _ _

theorem LiveSlots.run_allocate_of_no_layout {a : Allocator} {capacity size : Nat} {s : LiveSlots}
    (hs : Regular capacity s) (hroom : s.skipWindow.cursor < s.capacity)
    (hsize : Layout.forLive? size = none) (v : View) :
    (s.allocate size).run a v = ((.error (.outOfMemory size), s.skipWindow), v) := by
  have hend : ¬s.skipWindow.capacity ≤ s.skipWindow.cursor := by
    rw [capacity_skipWindow]
    omega
  unfold allocate
  simp only [if_neg hend, makeRoom_of_vacant hs.vacant, hsize]
  rfl

theorem Pool.run_populate_of_no_layout {a : Allocator} {p : Plan} {size : Nat} {v : View}
    (hreservable : reservable p.foreignTotal = true) (htotal : p.foreignTotal ≠ 0)
    (hgranted : a.denies v.journal.thread p.foreignTotal = false)
    (hsize : Layout.forForeign? size = none) :
    (populate p size).run a v = (.error (.outOfMemory size), v) := by
  obtain ⟨count, hcount⟩ := Nat.exists_eq_succ_of_ne_zero htotal
  have hreserved : (Routine.reserve p.foreignTotal).run a v = (true, v) := by
    simp [Routine.reserve, Routine.perform, Routine.run, Action.perform, hgranted]
  have hfill : (fill size p.foreignTotal 0).run a v = (count + 1, v) := by
    rw [hcount, fill, hsize]
    rfl
  unfold populate
  rw [if_pos hreservable, Routine.run_bind, hreserved]
  simp only [if_true, fillUp, Routine.run_bind, hfill]
  rw [hcount, Nat.sub_self]
  rfl

namespace Harness

namespace Books

variable {a : Allocator} {config : Config} {h : Histogram} {r : Run}
  {done : List (Crew.Finished × List Deed)} (hb : Books a config h r done) {t : List Event}
  (ht : r.Traced t)

include hb ht

/-- Each event is about a block of the main thread or of a worker of the plan. -/
theorem threads {plan : Plan} (hplan : config.plan = .ok plan) :
    ∀ e ∈ t, e.block.id.thread = .main ∨ ∃ k < plan.workers, e.block.id.thread = .worker k := by
  obtain ⟨blocks, hperm, hmain⟩ := hb.perm_of_traced ht
  intro e he
  rcases List.mem_append.mp (hperm.mem_iff.mp he) with he | he
  · rcases List.mem_append.mp he with he | he
    · exact Or.inl (hb.opened.threads e he)
    · obtain ⟨w, hw, hmem⟩ := List.mem_flatMap.mp he
      obtain ⟨id, hid⟩ := List.mem_iff_getElem?.mp hw
      obtain ⟨plan', hplan', hlt, -, haudit, -⟩ := hb.accounts id w hid
      obtain rfl : plan' = plan := Except.ok.inj (hplan'.symm.trans hplan)
      rcases haudit.threads e hmem with hthread | hthread
      · exact Or.inr ⟨id, hlt, hthread⟩
      · exact Or.inl hthread
  · obtain ⟨b, hmem, rfl⟩ := List.mem_map.mp he
    exact Or.inl (hmain b hmem)

/-- The blocks of a worker are dealt with in its own events and nowhere else. -/
theorem own_worker (k : Nat) : Trace.own (.worker k) t
    = (r.workers[k]?.elim [] fun f => Trace.own (.worker k) f.journal.events.toList) := by
  obtain ⟨mid, hmid, rfl⟩ := ht
  obtain ⟨blocks, hclosing, hmain⟩ := hb.closing
  have hopening : Trace.own (.worker k) r.opening.events.toList = [] :=
    Trace.own_eq_nil fun e he heq => by
      rw [hb.opened.threads e he] at heq
      cases heq
  have hleft : Trace.own (.worker k) (blocks.map .released) = [] :=
    Trace.own_released_other fun b hmem heq => by
      rw [hmain b hmem] at heq
      cases heq
  have hothers : ∀ j l, j ≠ k → (r.workers.map (·.journal.events.toList))[j]? = some l →
      Trace.own (.worker k) l = [] := by
    intro j l hj hl
    rw [← hb.workers, List.map_map, List.getElem?_map] at hl
    obtain ⟨w, hw, rfl⟩ := Option.map_eq_some_iff.mp hl
    obtain ⟨plan, -, -, -, haudit, -⟩ := hb.accounts j w hw
    refine Trace.own_eq_nil fun e he heq => ?_
    rcases haudit.threads e he with hthread | hthread
    · rw [hthread] at heq
      exact hj (Thread.worker.inj heq)
    · rw [hthread] at heq
      cases heq
  rw [hclosing.drop, Trace.own_append, Trace.own_append, hopening, hleft, List.nil_append,
    List.append_nil]
  cases hk : r.workers[k]? with
  | some f => exact hmid.filter_eq (by rw [List.getElem?_map, hk]; rfl) hothers
  | none =>
      refine hmid.filter_eq_nil fun l hl => ?_
      obtain ⟨j, hj⟩ := List.mem_iff_getElem?.mp hl
      refine hothers j l (fun heq => ?_) hj
      rw [heq, List.getElem?_map, hk] at hj
      cases hj

/-- Of the blocks of a worker there are never more outstanding than its buffer has slots. -/
theorem outstanding_worker_le {plan : Plan} (hplan : config.plan = .ok plan) (k n : Nat) :
    Trace.outstanding (Trace.own (.worker k) (t.take n)) ≤ plan.heapSlotsPerWorker := by
  refine Trace.AtMost.own_take ?_ n
  rw [hb.own_worker ht k, ← hb.workers, List.getElem?_map]
  cases hk : done[k]? with
  | none => exact Trace.atMost_nil (Int.natCast_nonneg _)
  | some w =>
      obtain ⟨plan', hplan', -, -, haudit, -⟩ := hb.accounts k w hk
      obtain rfl : plan' = plan := Except.ok.inj (hplan'.symm.trans hplan)
      exact haudit.atMost

/-- Of the blocks of the main thread there are never more outstanding than the pool has slots. -/
theorem outstanding_main_le {plan : Plan} (hplan : config.plan = .ok plan) (n : Nat) :
    Trace.outstanding (Trace.own .main (t.take n)) ≤ plan.foreignTotal := by
  -- their returns are spread over all threads, so the bound is on the grants alone
  have hprefix : Trace.own .main (t.take n) <+: Trace.own .main t := (List.take_prefix n t).filter _
  have hgrants := Trace.grants_le_of_prefix hprefix
  rw [hb.grants_main ht] at hgrants
  have htotal := hb.opened.grants_le plan hplan
  rw [Trace.outstanding_eq]
  omega

theorem outstanding_le {plan : Plan} (hplan : config.plan = .ok plan) (n : Nat) :
    Trace.outstanding (t.take n)
      ≤ plan.heapSlotsPerWorker * plan.workers + plan.foreignTotal := by
  have hthreads : ∀ e ∈ t.take n, e.block.id.thread = .main
      ∨ ∃ k < plan.workers, e.block.id.thread = .worker k := fun e he =>
    hb.threads ht hplan e (List.mem_of_mem_take he)
  have hworkers : ∑ k ∈ Finset.range plan.workers,
      Trace.outstanding (Trace.own (.worker k) (t.take n))
        ≤ ∑ _k ∈ Finset.range plan.workers, (plan.heapSlotsPerWorker : Int) :=
    Finset.sum_le_sum fun k _ => hb.outstanding_worker_le ht hplan k n
  have hmain := hb.outstanding_main_le ht hplan n
  rw [Finset.sum_const, Finset.card_range, nsmul_eq_mul, mul_comm] at hworkers
  rw [Trace.outstanding_eq_sum hthreads, Int.add_comm]
  exact Int.add_le_add hworkers hmain

/-- Whatever is asked of the allocator has a layout. -/
theorem asked_bounds : ∀ e ∈ t, e.isReturn = false → e.block.layout.align = 8
    ∧ 1 ≤ e.block.layout.size ∧ e.block.layout.size ≤ 2 ^ 63 - 8 := by
  obtain ⟨blocks, hperm, -⟩ := hb.perm_of_traced ht
  intro e he hreturn
  rcases List.mem_append.mp (hperm.mem_iff.mp he) with he | he
  · rcases List.mem_append.mp he with he | he
    · obtain ⟨size, hsize⟩ := hb.opened.asked e he hreturn
      exact Layout.ofSize?_bounds hsize (by omega)
    · obtain ⟨w, hw, hmem⟩ := List.mem_flatMap.mp he
      obtain ⟨id, capacity, haudit, -⟩ := hb.audited w hw
      obtain ⟨-, size, hsize⟩ := haudit.asked e hmem hreturn
      exact Layout.ofSize?_bounds hsize (by omega)
  · obtain ⟨b, -, rfl⟩ := List.mem_map.mp he
    cases hreturn

end Books

/-- Without a plan nothing is asked for. -/
theorem eq_nil_of_unplanned {a : Allocator} {config : Config} {h : Histogram}
    {schedule : List Turn} {e : Error} (hplan : config.plan = .error e) {t : List Event}
    (ht : (run a config h schedule).Traced t) : t = [] := by
  obtain ⟨done, hb⟩ := run_books a config h schedule
  rcases run_course a config h schedule with
    ⟨plan, layout, closed, hc⟩ | ⟨e', -, hworkers, hclosing, -, -⟩
  · rw [hc.plan_eq] at hplan
    cases hplan
  · obtain ⟨mid, hmid, rfl⟩ := ht
    rw [hworkers] at hmid
    rw [hclosing, List.drop_length, hb.opened.unplanned e hplan,
      List.perm_nil.mp hmid.perm]
    rfl

end Harness

open Harness (run)

/-- The bound on the memory of a run, at every point of every trace, and what the allocator is asked
for. A buffer that is full is retired and asks for nothing, so the last clauses are about buffers
with room and pools with slots. -/
theorem memory_bounded (a : Allocator) :
    (∀ (config : Config) (h : Histogram) (schedule : List Turn) (t : List Event),
      (run a config h schedule).Traced t →
      (∀ plan, config.plan = .ok plan →
        plan.heapSlotsPerWorker * plan.workers ≤ config.heapSlots
          ∧ ∀ n, Trace.outstanding (t.take n) ≤ config.heapSlots + plan.foreignTotal
            ∧ ∀ k, Trace.outstanding (Trace.own (.worker k) (t.take n)) ≤ plan.heapSlotsPerWorker)
      ∧ (∀ e, config.plan = .error e → t = [])
      ∧ ∀ e ∈ t, e.isReturn = false → e.block.layout.align = 8
        ∧ 1 ≤ e.block.layout.size ∧ e.block.layout.size ≤ 2 ^ 63 - 8)
    ∧ (∀ (capacity size : Nat) (s : LiveSlots) (v : View), LiveSlots.Regular capacity s →
      s.skipWindow.cursor < s.capacity → 2 ^ 63 - 8 < max size 1 →
      (s.allocate size).run a v = ((.error (.outOfMemory size), s.skipWindow), v))
    ∧ ∀ (p : Plan) (size : Nat) (v : View), reservable p.foreignTotal = true →
      p.foreignTotal ≠ 0 → a.denies v.journal.thread p.foreignTotal = false →
      2 ^ 63 - 8 < max size 8 →
      (Pool.populate p size).run a v = (.error (.outOfMemory size), v) := by
  refine ⟨fun config h schedule t ht => ?_, fun capacity size s v hs hroom hsize => ?_,
    fun p size v hreservable htotal hgranted hsize => ?_⟩
  · obtain ⟨done, hb⟩ := Harness.run_books a config h schedule
    refine ⟨fun plan hplan => ?_, fun e he => Harness.eq_nil_of_unplanned he ht,
      hb.asked_bounds ht⟩
    have hslots := config.heapSlots_mul_le hplan
    refine ⟨hslots, fun n => ⟨?_, fun k => hb.outstanding_worker_le ht hplan k n⟩⟩
    have hbound := hb.outstanding_le ht hplan n
    have hcast : (plan.heapSlotsPerWorker : Int) * plan.workers ≤ config.heapSlots := by
      exact_mod_cast hslots
    omega
  · exact LiveSlots.run_allocate_of_no_layout hs hroom (Layout.ofSize?_eq_none.mpr hsize) v
  · exact Pool.run_populate_of_no_layout hreservable htotal hgranted
      (Layout.ofSize?_eq_none.mpr hsize)

/-- Three workers of which two fail, at the point of the trace where most is outstanding; a request
that is too long for a buffer of one slot, and one that is too long for a pool. -/
theorem memory_bounded_two_failures :
    let a : Allocator := {
      refuses := fun thread call _ => thread = .worker 0 && call = 1
      overwrites := fun _ _ => [] }
    let config : Config := ⟨6, 6, 3, 10, some 1⟩
    let plan : Plan := ⟨3, 2, 2, 9, 3, 1, some 1⟩
    let r := run a config ⟨[⟨16, 2⟩], by decide, by decide⟩
      [.act 0, .act 1, .act 1, .overwrite ⟨⟨.main, 4⟩, 9⟩]
    let v : View := ⟨#[], { thread := .worker 7 }⟩
    config.plan = .ok plan ∧ plan.heapSlotsPerWorker * plan.workers ≤ 6
      ∧ Trace.outstanding (r.oneByOne.take 9) = 9
      ∧ (∀ n, Trace.outstanding (r.oneByOne.take n) ≤ 15)
      ∧ (∀ e, (⟨2, 6, 3, 10, none⟩ : Config).plan = .error e →
        (run a ⟨2, 6, 3, 10, none⟩ ⟨[⟨16, 2⟩], by decide, by decide⟩ []).oneByOne = [])
      ∧ (⟨2, 6, 3, 10, none⟩ : Config).plan = .error (.noSlots 2 3)
      ∧ ((LiveSlots.empty 1).allocate (2 ^ 63)).run a v
        = ((.error (.outOfMemory (2 ^ 63)), .empty 1), v)
      ∧ (Pool.populate plan (2 ^ 63)).run a v = (.error (.outOfMemory (2 ^ 63)), v) := by
  intro a config plan r v
  obtain ⟨hruns, hbuffers, hpools⟩ := memory_bounded a
  have hplan : config.plan = .ok plan := by decide
  obtain ⟨hplanned, -, -⟩ := hruns config ⟨[⟨16, 2⟩], by decide, by decide⟩ _ _ r.traced_oneByOne
  obtain ⟨hslots, hbound⟩ := hplanned plan hplan
  obtain ⟨-, hunplanned, -⟩ := hruns ⟨2, 6, 3, 10, none⟩ ⟨[⟨16, 2⟩], by decide, by decide⟩ [] _
    (Run.traced_oneByOne _)
  exact ⟨hplan, hslots, by decide +kernel, fun n => (hbound n).1, hunplanned, by decide,
    hbuffers 1 (2 ^ 63) _ v (LiveSlots.regular_empty 1) (by decide) (by decide),
    hpools plan (2 ^ 63) v (by decide) (by decide) rfl (by decide)⟩

end HeapChurn
