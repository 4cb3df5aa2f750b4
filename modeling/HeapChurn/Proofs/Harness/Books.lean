import HeapChurn.Proofs.Harness.Conservation
import HeapChurn.Proofs.Pool.Counting
import HeapChurn.Proofs.Worker.Audit

/-!
# The books of a run

A run, thread by thread: what the main thread asked for before the workers started, the audit of each
worker, and what the main thread handed back in the end. `run_books` says that every run has them,
also one whose pool could not be filled, or whose workers fail. Sums over a whole trace are read off
them, since a trace weaves the events of the threads and nothing else (`Run.Traced.perm`).
-/

namespace HeapChurn

open LiveSlots (Deed Ledger)

/-- What holds of each member of a list for some partner holds of a list of pairs. -/
theorem exists_partners {α β : Type} : ∀ {l : List α} {P : Nat → α → β → Prop},
    (∀ k x, l[k]? = some x → ∃ y, P k x y) →
    ∃ pairs : List (α × β), pairs.map Prod.fst = l
      ∧ ∀ k w, pairs[k]? = some w → P k w.1 w.2
  | [], _, _ => ⟨[], rfl, nofun⟩
  | x :: l, P, h => by
      obtain ⟨y, hy⟩ := h 0 x rfl
      obtain ⟨pairs, hpairs, hP⟩ :=
        @exists_partners _ _ l (fun k => P (k + 1)) fun k z hz => h (k + 1) z hz
      refine ⟨(x, y) :: pairs, congrArg (x :: ·) hpairs, fun k w hw => ?_⟩
      cases k with
      | zero =>
          obtain rfl := Option.some.inj hw
          exact hy
      | succ k => exact hP k w hw

namespace Harness

/-- The main thread when the workers start. -/
structure Opened (config : Config) (j : Journal) : Prop where
  threads : ∀ e ∈ j.events.toList, e.block.id.thread = .main
  asked : ∀ e ∈ j.events.toList, e.isReturn = false →
    ∃ size, Layout.forForeign? size = some e.block.layout
  counters : j.counters = .ofTrace j.events.toList 0 0
  grants_le : ∀ plan, config.plan = .ok plan →
    Trace.grants j.events.toList ≤ plan.foreignTotal
  unplanned : ∀ e, config.plan = .error e → j.events.toList = []

/-- What is asked for before the workers start, and what is handed back of it. -/
theorem gained_prepare (a : Allocator) (config : Config) (h : Histogram) :
    ∃ (asked : List Event) (blocks : List Block),
      start.journal.Gained ((prepare config h).run a start).2.journal
          (asked ++ blocks.map .released) (.stores (Trace.grants asked))
        ∧ (∀ e ∈ asked, e.AsksFor h.firstSize .main)
        ∧ (∀ plan, config.plan = .ok plan → Trace.grants asked ≤ plan.foreignTotal)
        ∧ ∀ e, config.plan = .error e → asked = [] ∧ blocks = [] := by
  have hnotes := Routine.gained_notes (a := a) config.planNotices start
  unfold prepare
  rw [Routine.run_bind]
  have hthread : ((config.planNotices.forM Routine.note).run a start).2.journal.thread = .main :=
    Routine.run_thread _ start
  generalize (config.planNotices.forM Routine.note).run a start = out at hnotes hthread
  obtain ⟨_, v⟩ := out
  cases hplan : config.plan with
  | error e => exact ⟨[], [], hnotes, nofun, nofun, fun _ _ => ⟨rfl, rfl⟩⟩
  | ok plan =>
      have hstarting := hnotes.trans (v.journal.gained_noted (.workloadStarting plan.workers
        plan.heapSlotsPerWorker plan.iterationsPerWorker plan.foreignTotal))
      simp only [Routine.run_bind]
      by_cases htotal : plan.foreignTotal = 0
      · rw [if_pos htotal]
        exact ⟨[], [], hstarting, nofun, fun _ _ => Nat.zero_le _, nofun⟩
      · rw [if_neg htotal, Routine.run_bind]
        obtain ⟨asked, blocks, hpopulate, hle, hasked, -⟩ := Pool.gained_populate (a := a) plan
          h.firstSize ((Routine.note (.workloadStarting plan.workers plan.heapSlotsPerWorker
            plan.iterationsPerWorker plan.foreignTotal)).run a v).2
        have hall := hstarting.trans hpopulate
        rw [zero_add, zero_add] at hall
        rw [Routine.run_thread, hthread] at hasked
        generalize (Pool.populate plan h.firstSize).run a _ = result at hall
        obtain ⟨result, w⟩ := result
        refine ⟨asked, blocks, ?_, hasked, ?_, nofun⟩
        · cases result with
          | error e => exact hall
          | ok _ => exact hall
        · rintro plan' hplan'
          cases hplan'
          exact hle

/-- What the main thread has done does not change while the log is told. -/
theorem Opened.gained {config : Config} {i j : Journal} (hi : Opened config i)
    (hj : i.Gained j [] 0) : Opened config j := by
  have hevents : j.events.toList = i.events.toList := by
    rw [hj.events, List.append_nil]
  have hcounters : j.counters = i.counters := by
    rw [hj.counters, add_zero]
  constructor
  · exact hevents ▸ hi.threads
  · exact hevents ▸ hi.asked
  · rw [hevents, hcounters]
    exact hi.counters
  · exact hevents ▸ hi.grants_le
  · exact hevents ▸ hi.unplanned

theorem opened_announced {a : Allocator} {config : Config} {h : Histogram} (plan : Plan)
    (hprepared : Opened config ((prepare config h).run a start).2.journal) :
    Opened config (announced a config h plan).journal :=
  hprepared.gained (Routine.gained_notes (plan.absences a) ((prepare config h).run a start).2)

theorem opened_prepare (a : Allocator) (config : Config) (h : Histogram) :
    Opened config ((prepare config h).run a start).2.journal := by
  obtain ⟨asked, blocks, hgained, hasked, hle, hunplanned⟩ := gained_prepare a config h
  have hevents : ((prepare config h).run a start).2.journal.events.toList
      = asked ++ blocks.map .released := hgained.events
  have hthreads : ∀ e ∈ ((prepare config h).run a start).2.journal.events.toList,
      e.block.id.thread = .main := by
    rcases (ensures_prepare a config h).run_self with
      ⟨plan, layout, -, -, -, hfilled⟩ | ⟨e, -, hthread, hcustody⟩
    · rw [hfilled.events]
      intro e he
      obtain ⟨s, -, rfl⟩ := List.mem_map.mp he
      rfl
    · intro e he
      by_contra hne
      have hmem : e ∈ Trace.foreign .main
          ((prepare config h).run a start).2.journal.events.toList :=
        List.mem_filter.mpr ⟨he, decide_eq_true hne⟩
      rw [← hthread, hcustody.foreign] at hmem
      cases hmem
  have hgrants : Trace.grants (asked ++ blocks.map .released) = Trace.grants asked := by
    rw [Trace.grants_append, Trace.grants_released, Nat.add_zero]
  refine ⟨hthreads, ?_, ?_, fun plan hplan => ?_, fun e he => ?_⟩
  · rw [hevents]
    intro e he hreturn
    rcases List.mem_append.mp he with he | he
    · obtain ⟨-, -, hlayout⟩ := hasked e he
      exact ⟨_, hlayout⟩
    · obtain ⟨b, -, rfl⟩ := List.mem_map.mp he
      cases hreturn
  · have hcounters := hgained.counters.trans (zero_add _)
    rw [hcounters, Counters.ofTrace, Trace.foreign_eq_nil hthreads, Trace.own_eq_self hthreads,
      hevents, hgrants]
    rfl
  · rw [hevents, hgrants]
    exact hle plan hplan
  · obtain ⟨rfl, rfl⟩ := hunplanned e he
    exact hevents

/-- The books of a run: each worker with its history. -/
structure Books (a : Allocator) (config : Config) (h : Histogram) (r : Run)
    (done : List (Crew.Finished × List Deed)) : Prop where
  workers : done.map Prod.fst = r.workers
  opened : Opened config r.opening
  closing : ∃ blocks : List Block, r.opening.Gained r.closing (blocks.map .released) 0
    ∧ ∀ b ∈ blocks, b.id.thread = .main
  accounts : ∀ id w, done[id]? = some w → ∃ plan, config.plan = .ok plan ∧ id < plan.workers
    ∧ Worker.Account a id plan h (Worker.ending w.1.result) w.1.journal w.2
    ∧ Worker.Audit id plan.heapSlotsPerWorker (Worker.ending w.1.result) w.1.journal w.2
    ∧ (w.1.result = none → w.1.journal = { thread := .worker id } ∧ w.2 = [])

section Workers

variable {a : Allocator} {config : Config} {h : Histogram} {plan : Plan} {layout : Layout}
  (hok : ((prepare config h).run a start).1 = .ok plan)
  (hfilled : Pool.Filled a layout plan.foreignTotal ((prepare config h).run a start).2)
  (schedule : List Turn)

include hok hfilled

/-- Each worker of a run leaves an account. That of a worker that was not started is empty. -/
theorem account_of_ok {id : Nat} {f : Crew.Finished}
    (hf : (run a config h schedule).workers[id]? = some f) :
    ∃ deeds, Worker.Account a id plan h (Worker.ending f.result) f.journal deeds
      ∧ (f.result = none → f.journal = { thread := .worker id } ∧ deeds = []) := by
  have hsound : (plan.crew a h (populated a config h)).Sound a
      (fun id => .retagging (plan.share id)) (fun id => Action.Within (plan.share id))
      (Leaves a (fun id => .retagging (plan.share id)) (populated a config h)
        fun id result v => ∃ deeds, Worker.Account a id plan h result v.journal deeds) := by
    refine Plan.sound_leaves fun id hid => ?_
    exact Worker.account_thread (plan.nodup_share id)
      (fun s hs b hb => ne_worker_of_mem_share hfilled hs hb id)
      (Plan.ahead_inboxOf hid).symm (fun _ _ => rfl) rfl
  rw [run_eq_of_ok hok schedule] at hf
  have hleaves := hsound.finished tolerated_retagging (weathered_retagging schedule) hf
  cases hresult : f.result with
  | some result =>
      rw [hresult] at hleaves
      obtain ⟨-, deeds, haccount⟩ := hleaves
      exact ⟨deeds, haccount, nofun⟩
  | none =>
      rw [hresult] at hleaves
      obtain ⟨-, -, hjournal⟩ := hleaves
      rw [show f.journal = { thread := .worker id } from hjournal]
      exact ⟨[], .barren a id plan h _, fun _ => ⟨rfl, rfl⟩⟩

/-- The workers of a run, each with its account, which was audited. -/
theorem accounts_of_ok {opened closed : PoolSlots}
    (hc : Course a config h (run a config h schedule) plan layout opened closed) :
    ∃ done : List (Crew.Finished × List Deed), done.map Prod.fst = (run a config h schedule).workers
      ∧ ∀ id w, done[id]? = some w →
        Worker.Account a id plan h (Worker.ending w.1.result) w.1.journal w.2
        ∧ Worker.Audit id plan.heapSlotsPerWorker (Worker.ending w.1.result) w.1.journal w.2
        ∧ (w.1.result = none → w.1.journal = { thread := .worker id } ∧ w.2 = []) := by
  have hpartner : ∀ id f, (run a config h schedule).workers[id]? = some f →
      ∃ deeds, Worker.Account a id plan h (Worker.ending f.result) f.journal deeds
        ∧ Worker.Audit id plan.heapSlotsPerWorker (Worker.ending f.result) f.journal deeds
        ∧ (f.result = none → f.journal = { thread := .worker id } ∧ deeds = []) := by
    intro id f hf
    obtain ⟨deeds, haccount, hidle⟩ := account_of_ok hok hfilled schedule hf
    obtain ⟨gone, lost, hleft⟩ := hc.left hf
    refine ⟨deeds, haccount, haccount.audit hleft fun b hb => ?_, hidle⟩
    rw [hc.freed_eq hleft] at hb
    obtain ⟨s, -, rfl⟩ := List.mem_map.mp hb
    rfl
  exact exists_partners hpartner

end Workers

theorem run_books (a : Allocator) (config : Config) (h : Histogram) (schedule : List Turn) :
    ∃ done, Books a config h (run a config h schedule) done := by
  rcases (ensures_prepare a config h).run_self with
    ⟨plan, layout, hok, hplan, hreservable, hfilled⟩ | ⟨e, herror, -, -⟩
  · obtain ⟨closed, hc⟩ := course_of_ok hok hplan hreservable hfilled schedule
    obtain ⟨done, hdone, haccounts⟩ := accounts_of_ok hok hfilled schedule hc
    refine ⟨done, hdone, ?_, ?_, fun id w hw => ⟨plan, hplan, ?_, haccounts id w hw⟩⟩
    · have hopened := opened_announced plan (opened_prepare a config h)
      rw [run_eq_of_ok hok schedule]
      exact hopened
    · have hcounters : (run a config h schedule).closing.counters
          = (run a config h schedule).opening.counters + 0 := by
        rw [run_eq_of_ok hok schedule]
        obtain ⟨blocks, hgained⟩ := Pool.gained_tearDown (a := a) plan.foreignTotal
          ⟨((plan.crew a h (populated a config h)).outcome a schedule).1,
            (announced a config h plan).journal⟩
        exact hgained.counters
      refine ⟨_, ⟨hc.closing, hcounters⟩, fun b hb => ?_⟩
      rw [hc.leftover_eq] at hb
      obtain ⟨s, -, rfl⟩ := List.mem_map.mp hb
      rfl
    · rw [← hc.length_workers, ← hdone, List.length_map]
      exact (List.getElem?_eq_some_iff.mp hw).1
  · refine ⟨[], ?_, ?_, ⟨[], ?_, nofun⟩, fun id w hw => by cases hw⟩
    · rw [run_eq_of_error herror schedule]
      rfl
    · have hopened := opened_prepare a config h
      rw [run_eq_of_error herror schedule]
      exact hopened
    · rw [run_eq_of_error herror schedule]
      exact .refl _

end Harness

end HeapChurn
