import HeapChurn.Proofs.Harness.Books
import HeapChurn.Proofs.LiveSlots.Answers

/-!
# Counters agree with the trace

The counters of a run, its trace and its reports are three tellings of one story. The counters are
sums over the threads and so are the counts of a trace, whatever the order in which it weaves the
threads; the audit of each worker says that the two agree for that worker. This holds of runs that
fail as well, since a worker that breaks off releases its live blocks and counts them, and since
what the main thread hands back is never counted. In a run that succeeds the reports add up to the
same figures.
-/

namespace HeapChurn

open LiveSlots (Deed Ledger)

theorem Run.counters_eq_sum (r : Run) :
    r.counters = r.closing.counters + (r.workers.map (·.journal.counters)).sum := by
  unfold counters
  generalize r.closing.counters = c
  induction r.workers generalizing c with
  | nil => exact (add_zero c).symm
  | cons w rest ih => rw [List.foldl_cons, ih, List.map_cons, List.sum_cons, add_assoc]

/-- The totals of a report, as counters. -/
theorem Report.figures_totals (r : Report) :
    r.totals.figures = (r.workers.map WorkerReport.figures).sum := by
  have hfold : ∀ {step : WorkerReport → WorkerReport → WorkerReport},
      (∀ sum w, (step sum w).figures = sum.figures + w.figures) →
      ∀ (reports : List WorkerReport) (sum : WorkerReport), (reports.foldl step sum).figures
        = sum.figures + (reports.map WorkerReport.figures).sum := by
    intro step hstep reports
    induction reports with
    | nil => exact fun sum => (add_zero _).symm
    | cons w rest ih =>
        intro sum
        rw [List.foldl_cons, ih, hstep, List.map_cons, List.sum_cons, add_assoc]
  exact (hfold (fun _ _ => rfl) r.workers _).trans (zero_add _)

namespace Harness

/-- A worker that is done, with its history, was audited. One that was not started has done
nothing. -/
def Audited (w : Crew.Finished × List Deed) : Prop :=
  ∃ id capacity, Worker.Audit id capacity (Worker.ending w.1.result) w.1.journal w.2
    ∧ (w.1.result = none → w.1.journal = { thread := .worker id })

/-- What the workers have seen, one after the other. -/
def seen (done : List (Crew.Finished × List Deed)) : List Event :=
  done.flatMap (·.1.journal.events.toList)

/-- The retire events of the workers. -/
def retirements (done : List (Crew.Finished × List Deed)) : Nat :=
  (done.map fun w => Ledger.retirements w.2).sum

/-- The blocks of the main thread that workers have handed back. -/
def drained (workers : List Crew.Finished) : Nat :=
  (workers.map fun w => Trace.returns (Trace.own .main w.journal.events.toList)).sum

/-! ## Sums over the workers -/

section Workers

variable {done : List (Crew.Finished × List Deed)}

theorem counters_workers (haudit : ∀ w ∈ done, Audited w) :
    ((done.map Prod.fst).map (·.journal.counters)).sum
      = .ofTrace (seen done) (retirements done) (drained (done.map Prod.fst)) := by
  induction done with
  | nil => rfl
  | cons w rest ih =>
      obtain ⟨id, capacity, hw, -⟩ := haudit w List.mem_cons_self
      have hrest := ih fun v hv => haudit v (List.mem_cons_of_mem w hv)
      rw [List.map_cons, List.map_cons, List.sum_cons, hw.counters, hrest,
        ← Counters.ofTrace_append]
      rfl

theorem settled_workers (haudit : ∀ w ∈ done, Audited w) :
    Trace.grants (Trace.foreign .main (seen done))
      = Trace.returns (Trace.foreign .main (seen done)) := by
  induction done with
  | nil => rfl
  | cons w rest ih =>
      obtain ⟨id, capacity, hw, -⟩ := haudit w List.mem_cons_self
      have hrest := ih fun v hv => haudit v (List.mem_cons_of_mem w hv)
      rw [show seen (w :: rest) = w.1.journal.events.toList ++ seen rest from rfl,
        Trace.foreign_append, Trace.grants_append, Trace.returns_append, hw.settled, hrest]

theorem figures_workers {reports : List WorkerReport} (haudit : ∀ w ∈ done, Audited w)
    (hreports : (done.map Prod.fst).filterMap (·.result) = reports.map .ok) :
    (reports.map WorkerReport.figures).sum
      = Counters.shown ((done.map Prod.fst).map (·.journal.counters)).sum := by
  induction done generalizing reports with
  | nil =>
      have hnil : reports = [] := by simpa using hreports.symm
      subst hnil
      rfl
  | cons w rest ih =>
      obtain ⟨id, capacity, hw, hidle⟩ := haudit w List.mem_cons_self
      have hothers := fun v hv => haudit v (List.mem_cons_of_mem w hv)
      rw [List.map_cons, List.filterMap_cons] at hreports
      rw [List.map_cons, List.map_cons, List.sum_cons, Counters.shown_add]
      cases hresult : w.1.result with
      | none =>
          rw [hresult] at hreports
          rw [hidle hresult, ih hothers hreports]
          exact (zero_add _).symm
      | some result =>
          rw [hresult] at hreports hw
          cases reports with
          | nil => cases hreports
          | cons report reports =>
              obtain ⟨rfl, hrest⟩ := List.cons.inj hreports
              rw [List.map_cons, List.sum_cons, hw.report report rfl, ih hothers hrest]

end Workers

/-! ## Sums over a run -/

namespace Books

variable {a : Allocator} {config : Config} {h : Histogram} {r : Run}
  {done : List (Crew.Finished × List Deed)} (hb : Books a config h r done) {t : List Event}

include hb

theorem audited : ∀ w ∈ done, Audited w := by
  intro w hw
  obtain ⟨id, hid⟩ := List.mem_iff_getElem?.mp hw
  obtain ⟨plan, -, -, -, haudit, hidle⟩ := hb.accounts id w hid
  exact ⟨id, _, haudit, fun hnone => (hidle hnone).1⟩

/-- A trace is made of what the three stages show, but for the order among the workers. -/
theorem perm_of_traced (ht : r.Traced t) : ∃ blocks : List Block,
    t.Perm (r.opening.events.toList ++ seen done ++ blocks.map .released)
      ∧ ∀ b ∈ blocks, b.id.thread = .main := by
  obtain ⟨mid, hmid, rfl⟩ := ht
  obtain ⟨blocks, hclosing, hmain⟩ := hb.closing
  refine ⟨blocks, ?_, hmain⟩
  rw [hclosing.drop]
  refine List.Perm.append_right _ (List.Perm.append_left _ ?_)
  have hseen : seen done = (r.workers.map (·.journal.events.toList)).flatten := by
    rw [← hb.workers, List.map_map, seen, List.flatMap_def]
    rfl
  rw [hseen]
  exact hmid.perm

/-- Before the workers start nothing is counted that reports show, and after them nothing at all. -/
theorem counters_closing : r.closing.counters = .ofTrace r.opening.events.toList 0 0
    ∧ r.closing.counters.shown = 0 := by
  obtain ⟨_, hclosing, -⟩ := hb.closing
  have hsame : r.closing.counters = .ofTrace r.opening.events.toList 0 0 := by
    rw [hclosing.counters, add_zero]
    exact hb.opened.counters
  refine ⟨hsame, ?_⟩
  rw [hsame, Counters.ofTrace, Trace.foreign_eq_nil hb.opened.threads]
  rfl

theorem counters_eq (ht : r.Traced t) :
    r.counters = .ofTrace t (retirements done) (drained r.workers) := by
  obtain ⟨blocks, hperm, hmain⟩ := hb.perm_of_traced ht
  have hleft : Counters.ofTrace (blocks.map .released) 0 0 = 0 := by
    rw [Counters.ofTrace, Trace.foreign_released hmain, Trace.own_released hmain,
      Trace.grants_released]
    rfl
  have hworkers := counters_workers hb.audited
  rw [hb.workers] at hworkers
  calc r.counters
      = .ofTrace r.opening.events.toList 0 0
          + .ofTrace (seen done) (retirements done) (drained r.workers)
          + .ofTrace (blocks.map .released) 0 0 := by
        rw [r.counters_eq_sum, hb.counters_closing.1, hworkers, hleft, add_zero]
    _ = .ofTrace (r.opening.events.toList ++ seen done ++ blocks.map .released)
          (0 + retirements done + 0) (0 + drained r.workers + 0) := by
        rw [Counters.ofTrace_append, Counters.ofTrace_append]
    _ = .ofTrace t (retirements done) (drained r.workers) := by
        rw [Counters.ofTrace_perm hperm, Nat.zero_add, Nat.zero_add, Nat.add_zero, Nat.add_zero]

/-- All live blocks were handed back. -/
theorem settled (ht : r.Traced t) :
    Trace.grants (Trace.foreign .main t) = Trace.returns (Trace.foreign .main t) := by
  obtain ⟨blocks, hperm, hmain⟩ := hb.perm_of_traced ht
  have hforeign : (Trace.foreign .main t).Perm (Trace.foreign .main (seen done)) := by
    have hfilter : (Trace.foreign .main t).Perm (Trace.foreign .main _) := hperm.filter _
    rwa [Trace.foreign_append, Trace.foreign_append, Trace.foreign_released hmain,
      Trace.foreign_eq_nil hb.opened.threads, List.nil_append, List.append_nil] at hfilter
  rw [Trace.grants, Trace.returns, hforeign.countP_eq, hforeign.countP_eq]
  exact settled_workers hb.audited

/-- Only the main thread obtains foreign blocks, and only before the workers start. -/
theorem grants_main (ht : r.Traced t) :
    Trace.grants (Trace.own .main t) = Trace.grants r.opening.events.toList := by
  obtain ⟨blocks, hperm, hmain⟩ := hb.perm_of_traced ht
  have hworkers : Trace.grants (Trace.own .main (seen done)) = 0 := by
    refine List.countP_eq_zero.mpr fun e he hgrant => ?_
    obtain ⟨hseen, hthread⟩ := Trace.mem_own.mp he
    obtain ⟨w, hw, hmem⟩ := List.mem_flatMap.mp hseen
    obtain ⟨id, capacity, haudit, -⟩ := hb.audited w hw
    have hreturn : e.isReturn = false := by
      cases e with
      | granted b => rfl
      | refused b => rfl
      | released b => cases hgrant
    rw [(haudit.asked e hmem hreturn).1] at hthread
    cases hthread
  have hown : (Trace.own .main t).Perm (Trace.own .main _) := hperm.filter _
  rw [Trace.own_append, Trace.own_append, Trace.own_released hmain,
    Trace.own_eq_self hb.opened.threads] at hown
  have hcount := hown.countP_eq Event.isGrant
  rw [Trace.grants, hcount, ← Trace.grants, Trace.grants_append, Trace.grants_append, hworkers,
    Trace.grants_released]
  rfl

/-- The reports of a successful run add up to its counters. -/
theorem figures_totals {reports : List WorkerReport}
    (hreports : r.workers.filterMap (·.result) = reports.map .ok) (started : Nat) :
    (Report.totals ⟨started, reports⟩).figures = r.counters.shown := by
  rw [← hb.workers] at hreports
  have hworkers := figures_workers hb.audited hreports
  rw [hb.workers] at hworkers
  rw [Report.figures_totals, r.counters_eq_sum, Counters.shown_add, hb.counters_closing.2,
    zero_add]
  exact hworkers

end Books

/-- The books of any run. -/
theorem run_counted (a : Allocator) (config : Config) (h : Histogram) (schedule : List Turn)
    {t : List Event} (ht : (run a config h schedule).Traced t) :
    ∃ done : List (Crew.Finished × List Deed),
      done.map Prod.fst = (run a config h schedule).workers
        ∧ (∀ id w, done[id]? = some w → ∃ plan, config.plan = .ok plan
          ∧ Worker.Account a id plan h (Worker.ending w.1.result) w.1.journal w.2
          ∧ (w.1.result = none → w.1.journal = { thread := .worker id } ∧ w.2 = []))
        ∧ (run a config h schedule).counters
          = .ofTrace t (retirements done) (drained (run a config h schedule).workers)
        ∧ Trace.grants (Trace.foreign .main t) = Trace.returns (Trace.foreign .main t) := by
  obtain ⟨done, hb⟩ := run_books a config h schedule
  refine ⟨done, hb.workers, fun id w hw => ?_, hb.counters_eq ht, hb.settled ht⟩
  obtain ⟨plan, hplan, -, haccount, -, hidle⟩ := hb.accounts id w hw
  exact ⟨plan, hplan, haccount, hidle⟩

/-- The counters of a successful run are those of its totals. All foreign blocks were obtained, and
the workers that were started have drained their quotas. -/
theorem counters_of_ok {a : Allocator} {config : Config} {h : Histogram} {schedule : List Turn}
    {plan : Plan} {reports : List WorkerReport}
    (hok : (run a config h schedule).result = .ok (plan, reports)) :
    let r := run a config h schedule
    (Report.totals ⟨r.started, reports⟩).figures = r.counters.shown
      ∧ r.counters.foreignAllocs = UInt64.ofNat plan.foreignTotal
      ∧ r.counters.foreignFrees = UInt64.ofNat ((plan.started a).length * plan.foreignQuota)
      ∧ (plan.AllStart a → r.counters.foreignFrees = UInt64.ofNat plan.foreignTotal) := by
  intro r
  obtain ⟨done, hb⟩ := run_books a config h schedule
  rcases run_course a config h schedule with ⟨plan', layout, closed, hc⟩ | ⟨e, herror, -⟩
  · obtain ⟨rfl, hreports, -⟩ := hc.left_of_ok hok
    have hfigures := hb.figures_totals hreports r.started
    have htrace := hb.counters_eq (Run.traced_oneByOne _)
    have hgranted : Trace.grants r.opening.events.toList = plan.foreignTotal := by
      have hevents := hc.filled.events
      simp only at hevents
      rw [hevents, Trace.grants, List.countP_map]
      exact (List.countP_eq_length.mpr fun _ _ => rfl).trans List.length_range
    have hdrained : r.counters.foreignFrees
        = UInt64.ofNat ((plan.started a).length * plan.foreignQuota) := by
      rw [← hc.totals_of_ok hok r.started]
      exact (congrArg Counters.foreignFrees hfigures).symm
    refine ⟨hfigures, ?_, hdrained, fun hall => ?_⟩
    · rw [htrace, ← hgranted, ← hb.grants_main (Run.traced_oneByOne _)]
      rfl
    · rw [hdrained, Plan.started_eq_range hall, List.length_range, hc.quotas.1]
  · rw [hok] at herror
    cases herror

end Harness

open Harness (run retirements drained)

/-- The counters agree with the trace: in every run, in every direct use of a buffer, and over every
life of a pool. -/
theorem counters_agree (a : Allocator) :
    (∀ (config : Config) (h : Histogram) (schedule : List Turn) (t : List Event),
      (run a config h schedule).Traced t →
      let r := run a config h schedule
      (∃ done : List (Crew.Finished × List Deed), done.map Prod.fst = r.workers
        ∧ (∀ id w, done[id]? = some w → ∃ plan, config.plan = .ok plan
          ∧ Worker.Account a id plan h (Worker.ending w.1.result) w.1.journal w.2
          ∧ (w.1.result = none → w.1.journal = { thread := .worker id } ∧ w.2 = []))
        ∧ r.counters = .ofTrace t (retirements done) (drained r.workers))
      ∧ Trace.grants (Trace.foreign .main t) = Trace.returns (Trace.foreign .main t)
      ∧ ∀ plan reports, r.result = .ok (plan, reports) →
        (Report.totals ⟨r.started, reports⟩).figures = r.counters.shown
          ∧ r.counters.foreignAllocs = UInt64.ofNat plan.foreignTotal
          ∧ r.counters.foreignFrees = UInt64.ofNat ((plan.started a).length * plan.foreignQuota)
          ∧ (plan.AllStart a → r.counters.foreignFrees = UInt64.ofNat plan.foreignTotal))
    ∧ (∀ (capacity : Nat) (s : LiveSlots) (calls : List LiveSlots.Call) (v : View),
      LiveSlots.ofCapacity capacity = .ok s →
      let served := (LiveSlots.attend calls s).run a v
      let ended := (served.1.2.releaseAll).run a served.2
      ∃ new final : List Event,
        v.journal.Gained served.2.journal new (.live (Ledger.obtained served.1.1)
          (Trace.returns new) (Ledger.retirements served.1.1))
        ∧ (Trace.obtained new).map some = (Ledger.obtained served.1.1).map Layout.forLive?
        ∧ served.2.journal.Gained ended.2.journal final (.live [] (Trace.returns final) 0)
        ∧ Trace.grants final = 0
        ∧ Trace.grants (new ++ final) = Trace.returns (new ++ final))
    ∧ ∀ (p : Plan) (blockSize : Nat) (moves : List Pool.Move) (v : View),
      let populated := (Pool.populate p blockSize).run a v
      let used := Pool.Usage.follow a p moves { view := populated.2 }
      let ended := (Pool.tearDown p.foreignTotal).run a used.view
      ∃ (asked : List Event) (undone taken left : List Block),
        v.journal.Gained populated.2.journal (asked ++ undone.map .released)
          (.stores (Trace.grants asked))
        ∧ (populated.1 = .ok () → undone = [])
        ∧ populated.2.journal.Gained used.view.journal (taken.map .released)
          (.drains taken.length)
        ∧ used.view.journal.Gained ended.2.journal (left.map .released) 0 := by
  refine ⟨fun config h schedule t ht => ?_, fun capacity s calls v hs => ?_,
    fun p size moves v => ?_⟩
  · obtain ⟨done, hdone, haccounts, hcounters, hsettled⟩ :=
      Harness.run_counted a config h schedule ht
    exact ⟨⟨done, hdone, haccounts, hcounters⟩, hsettled,
      fun plan reports hok => Harness.counters_of_ok hok⟩
  · exact LiveSlots.counted_attend hs calls v
  · intro populated used ended
    obtain ⟨asked, undone, hpopulated, -, -, hundone⟩ := Pool.gained_populate (a := a) p size v
    obtain ⟨taken, hused⟩ := Pool.Usage.gained_follow (a := a) p moves { view := populated.2 }
    obtain ⟨left, hended⟩ := Pool.gained_tearDown (a := a) p.foreignTotal used.view
    exact ⟨asked, undone, taken, left, hpopulated, hundone, hused, hended⟩

/-- A run in which two of three workers fail, a run that succeeds, a buffer that is refused a block
and asked for nothing, and a pool whose third block is refused. -/
theorem counters_agree_four_uses :
    let a : Allocator := {
      refuses := fun thread call _ =>
        thread = .worker 0 && call = 1 || thread = .worker 7 && call = 2
      overwrites := fun _ _ => [] }
    let failing := run a ⟨6, 6, 3, 10, some 1⟩ ⟨[⟨16, 2⟩], by decide, by decide⟩
      [.act 0, .act 1, .act 1, .overwrite ⟨⟨.main, 4⟩, 9⟩]
    let succeeding := run a ⟨2, 1, 1, 4, none⟩ ⟨[⟨16, 1⟩], by decide, by decide⟩ []
    let plan : Plan := ⟨1, 2, 1, 4, 4, 4, none⟩
    let used := (LiveSlots.attend [.allocate 16, .allocate 0, .allocate 16, .allocate 24,
      .allocate 16] (.empty 3)).run a ⟨#[], { thread := .worker 7 }⟩
    let filled := (Pool.populate plan 16).run a ⟨#[], { thread := .worker 7 }⟩
    Trace.grants (Trace.foreign .main failing.oneByOne)
        = Trace.returns (Trace.foreign .main failing.oneByOne)
      ∧ failing.counters = ⟨6, 96, 6, 1, 9, 5⟩
      ∧ succeeding.result = .ok (plan, [⟨0, 1, 1, 0, 4⟩])
      ∧ succeeding.counters.foreignFrees = 4
      ∧ Ledger.obtained used.1.1 = [16, 0, 24]
      ∧ (∃ new : List Event,
        (Trace.obtained new).map some = [some ⟨16, 8⟩, some ⟨1, 8⟩, some ⟨24, 8⟩]
        ∧ used.2.journal.counters = .live [16, 0, 24] (Trace.returns new) 1)
      ∧ filled.1 = .error (.outOfMemory 16)
      ∧ ∃ asked : List Event, filled.2.journal.counters = .stores (Trace.grants asked) := by
  intro a failing succeeding plan used filled
  obtain ⟨hruns, hbuffers, hpools⟩ := counters_agree a
  have hok : succeeding.result = .ok (plan, [⟨0, 1, 1, 0, 4⟩]) := by decide +kernel
  obtain ⟨-, hsettled, -⟩ := hruns ⟨6, 6, 3, 10, some 1⟩ ⟨[⟨16, 2⟩], by decide, by decide⟩ _ _
    failing.traced_oneByOne
  obtain ⟨-, -, htotals⟩ := hruns ⟨2, 1, 1, 4, none⟩ ⟨[⟨16, 1⟩], by decide, by decide⟩ _ _
    succeeding.traced_oneByOne
  obtain ⟨-, -, -, hdrained⟩ := htotals _ _ hok
  obtain ⟨new, -, hbuffer, hobtained, -⟩ := hbuffers 3 (.empty 3) [.allocate 16, .allocate 0,
    .allocate 16, .allocate 24, .allocate 16] ⟨#[], { thread := .worker 7 }⟩ rfl
  obtain ⟨asked, _, _, _, hpool, -⟩ := hpools plan 16 [] ⟨#[], { thread := .worker 7 }⟩
  have hrecord : Ledger.obtained used.1.1 = [16, 0, 24] := by decide +kernel
  have hretired : Ledger.retirements used.1.1 = 1 := by decide +kernel
  refine ⟨hsettled, by decide +kernel, hok, hdrained fun _ _ => rfl, hrecord, ⟨new, ?_, ?_⟩,
    by decide +kernel, asked, hpool.counters.trans (zero_add _)⟩
  · rw [hobtained, hrecord]
    decide
  · have hcounters := hbuffer.counters.trans (zero_add _)
    rw [hrecord, hretired] at hcounters
    exact hcounters

end HeapChurn
