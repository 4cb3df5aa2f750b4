import HeapChurn.Proofs.Harness.Lives
import HeapChurn.Report

/-!
# Conservation

What a successful run adds up to. All workers report the same figures, as many live blocks freed as
allocated and one quota of foreign blocks each; the quotas are the whole pool; and every foreign
block was freed by the worker whose share it lay in, so that nothing is left for the main thread.
-/

namespace HeapChurn

theorem foreignFrees_foldl {quota : Nat} {step : WorkerReport → WorkerReport → WorkerReport}
    (hstep : ∀ sum w, (step sum w).foreignFrees = sum.foreignFrees + w.foreignFrees) :
    ∀ (reports : List WorkerReport) (sum : WorkerReport),
      (∀ w ∈ reports, w.foreignFrees = UInt64.ofNat quota) →
      (reports.foldl step sum).foreignFrees
        = sum.foreignFrees + UInt64.ofNat (reports.length * quota)
  | [], sum, _ => by simp
  | w :: reports, sum, h => by
      rw [List.foldl_cons, foreignFrees_foldl hstep reports _ fun v hv =>
        h v (List.mem_cons_of_mem w hv), hstep, h w List.mem_cons_self, List.length_cons,
        Nat.succ_mul, Nat.add_comm (reports.length * quota), UInt64.ofNat_add, UInt64.add_assoc]

/-- The foreign blocks of equal reports add up to a product, as words. -/
theorem Report.foreignFrees_totals {quota : Nat} {r : Report}
    (h : ∀ w ∈ r.workers, w.foreignFrees = UInt64.ofNat quota) :
    r.totals.foreignFrees = UInt64.ofNat (r.workers.length * quota) := by
  unfold totals
  rw [foreignFrees_foldl (fun _ _ => rfl) r.workers _ h]
  exact UInt64.zero_add _

namespace Plan

/-- The workers that can be started, in their order. -/
def started (p : Plan) (a : Allocator) : List Nat :=
  (List.range p.workers).filter fun id => (a.starts (.worker id)).toBool

/-- Every worker can be started. -/
def AllStart (p : Plan) (a : Allocator) : Prop :=
  ∀ id, id < p.workers → a.starts (.worker id) = .ok ()

variable {p : Plan} {a : Allocator}

theorem mem_started {id : Nat} :
    id ∈ p.started a ↔ id < p.workers ∧ a.starts (.worker id) = .ok () := by
  rw [started, List.mem_filter, List.mem_range]
  cases a.starts (.worker id) <;> simp [Except.toBool]

theorem length_started_le (p : Plan) (a : Allocator) : (p.started a).length ≤ p.workers :=
  le_of_le_of_eq (List.length_filter_le _ _) List.length_range

theorem started_eq_range (h : p.AllStart a) : p.started a = List.range p.workers := by
  refine List.filter_eq_self.mpr fun id hid => ?_
  rw [h id (List.mem_range.mp hid)]
  rfl

end Plan

/-- Reports of all workers, one after the other. -/
theorem Report.in_order {reports : List WorkerReport} {n : Nat}
    (h : reports.map (·.worker) = List.range n) :
    reports.length = n
      ∧ ∀ (id : Nat) (report : WorkerReport), reports[id]? = some report → report.worker = id := by
  have hlength : reports.length = n := by
    rw [← List.length_map (f := (·.worker)), h, List.length_range]
  refine ⟨hlength, fun id report hreport => ?_⟩
  have hworker : (reports.map (·.worker))[id]? = some report.worker := by
    rw [List.getElem?_map, hreport]
    rfl
  have hid : id < n := hlength ▸ (List.getElem?_eq_some_iff.mp hreport).1
  rw [h, List.getElem?_range hid] at hworker
  exact (Option.some.inj hworker).symm

theorem Run.filterMap_results (r : Run) :
    (r.workers.map (·.result)).filterMap id = r.workers.filterMap (·.result) :=
  List.filterMap_map ..

namespace Harness

namespace Course

variable {a : Allocator} {config : Config} {h : Histogram} {r : Run} {plan : Plan}
  {layout : Layout} {opened closed : PoolSlots}
  (hc : Course a config h r plan layout opened closed)

include hc

/-- A share is one quota. -/
theorem length_share {id : Nat} (hid : id < plan.workers) :
    (plan.share id).length = plan.foreignQuota := by
  obtain ⟨htotal, hquota⟩ := Config.plan_grid hc.plan_eq hc.reservable
  by_cases hchunk : plan.foreignChunk = 0
  · rw [hquota, hchunk, Nat.mul_zero, Plan.share, if_pos hchunk]
    rfl
  · rw [Plan.length_share hchunk hid htotal, hquota]

theorem foreignTotal_lt : plan.foreignTotal < Word.modulus := by
  have hsmall : plan.foreignTotal * slotBytes ≤ Word.largestObject := by
    simpa [HeapChurn.reservable] using hc.reservable
  simp only [slotBytes, Word.largestObject, Word.modulus, UInt64.size] at hsmall ⊢
  omega

/-- In a successful run every worker that was started frees its whole share. -/
theorem left_of_ok {p : Plan} {reports : List WorkerReport} (hok : r.result = .ok (p, reports)) :
    p = plan ∧ r.workers.filterMap (·.result) = reports.map .ok
      ∧ ∀ id f, r.workers[id]? = some f → ∀ result, f.result = some result →
        result = .ok (plan.report h id plan.foreignQuota)
          ∧ Worker.Left id plan h (plan.share id) opened.blockAt (plan.share id) none
            (Worker.ending f.result) ⟨closed, f.journal⟩ := by
  have hresult := hc.result_eq
  rw [hok] at hresult
  rcases firstError_cases (r.workers.map (·.result)) with ⟨others, hfirst, hall⟩ | ⟨i, e, -, -, he⟩
  · rw [r.filterMap_results] at hfirst hall
    rw [hfirst] at hresult
    cases hresult
    refine ⟨rfl, hall, fun id f hf result hsome => ?_⟩
    have hid : id < plan.workers := by
      rw [← hc.length_workers]
      exact (List.getElem?_eq_some_iff.mp hf).1
    obtain ⟨gone, lost, hleft⟩ := hc.left hf
    have hmem : result ∈ reports.map Except.ok := by
      rw [← hall]
      exact List.mem_filterMap.mpr ⟨f, List.mem_of_getElem? hf, hsome⟩
    obtain ⟨report, -, rfl⟩ := List.mem_map.mp hmem
    rcases hleft.outcome with ⟨e, he, -⟩ | ⟨rfl, hgone, hreported⟩
    · rw [hsome] at he
      cases he
    · have hfilled : ∀ s ∈ plan.share id, (opened.blockAt s).isSome := fun s hs => by
        rw [show opened.blockAt s = _ from blockAt_of_mem_share hc.filled hs]
        rfl
      obtain rfl := hgone hfilled
      rw [hc.length_share hid, hsome] at hreported
      exact ⟨hreported, hleft⟩
  · rw [r.filterMap_results] at he
    rw [he] at hresult
    cases hresult

/-- A worker has an outcome if it was started, and only then. -/
theorem isSome_result {id : Nat} {f : Crew.Finished} (hf : r.workers[id]? = some f) :
    f.result.isSome = (a.starts (.worker id)).toBool := by
  cases hresult : f.result with
  | some result =>
      rw [hc.starts_of_result hf hresult]
      rfl
  | none =>
      have hidle := (hc.idle hf hresult).1
      cases hstarts : a.starts (.worker id) with
      | ok u => exact absurd hstarts hidle
      | error cause => rfl

theorem mem_started {id : Nat} {f : Crew.Finished} (hf : r.workers[id]? = some f) :
    id ∈ plan.started a ↔ f.result.isSome := by
  have hid : id < plan.workers := by
    rw [← hc.length_workers]
    exact (List.getElem?_eq_some_iff.mp hf).1
  rw [Plan.started, List.mem_filter, List.mem_range, ← hc.isSome_result hf]
  exact and_iff_right hid

/-- The reports of a successful run are those of the workers that were started. -/
theorem reports_eq {p : Plan} {reports : List WorkerReport} (hok : r.result = .ok (p, reports)) :
    reports = (plan.started a).map fun id => plan.report h id plan.foreignQuota := by
  obtain ⟨-, hall, hleft⟩ := hc.left_of_ok hok
  have hresults : r.workers.map (·.result) = (List.range plan.workers).map fun id =>
      if (a.starts (.worker id)).toBool then some (.ok (plan.report h id plan.foreignQuota))
      else none := by
    refine List.ext_getElem (by simp [hc.length_workers]) fun id hid _ => ?_
    rw [List.length_map] at hid
    have hf : r.workers[id]? = some r.workers[id] := List.getElem?_eq_getElem hid
    rw [List.getElem_map, List.getElem_map, List.getElem_range, ← hc.isSome_result hf]
    cases hresult : r.workers[id].result with
    | none => rfl
    | some result => exact congrArg some (hleft id _ hf result hresult).1
  have hreports : reports.map Except.ok = ((plan.started a).map fun id =>
      plan.report h id plan.foreignQuota).map Except.ok :=
    calc reports.map Except.ok
        = r.workers.filterMap (·.result) := hall.symm
      _ = (r.workers.map (·.result)).filterMap id := r.filterMap_results.symm
      _ = (List.range plan.workers).filterMap fun id => if (a.starts (.worker id)).toBool
            then some (.ok (plan.report h id plan.foreignQuota)) else none := by
          rw [hresults]
          exact List.filterMap_map ..
      _ = (plan.started a).filterMap fun id =>
            some (.ok (plan.report h id plan.foreignQuota)) := List.filterMap_filter.symm
      _ = ((plan.started a).map fun id => plan.report h id plan.foreignQuota).map .ok := by
          rw [List.map_map]
          exact congrFun List.filterMap_eq_map _
  exact List.map_injective_iff.mpr (fun _ _ => Except.ok.inj) hreports

/-- Of the block of a slot nothing is left in the pool if the worker that owns the slot was started,
and otherwise nobody has touched it. -/
theorem closed_of_ok {p : Plan} {reports : List WorkerReport} (hok : r.result = .ok (p, reports))
    {s : Nat} (hs : s < plan.foreignTotal) :
    closed.blockAt s = if s / plan.foreignChunk % plan.workers ∈ plan.started a then none
      else opened.blockAt s := by
  obtain ⟨-, -, hleft⟩ := hc.left_of_ok hok
  obtain ⟨hshare, f, hf⟩ := hc.owner hs
  simp only [hc.mem_started hf]
  cases hresult : f.result with
  | some result =>
      rw [hc.closed_blockAt hshare (hleft _ f hf result hresult).2, if_pos (Or.inl hshare)]
      rfl
  | none => exact (hc.idle hf hresult).2.2 s hshare

/-- A successful run leaves in the pool the shares of the workers that were not started. -/
theorem closing_of_ok {p : Plan} {reports : List WorkerReport}
    (hok : r.result = .ok (p, reports)) : r.closing.events.toList = r.opening.events.toList
      ++ (((List.range plan.foreignTotal).filter fun s =>
        s / plan.foreignChunk % plan.workers ∉ plan.started a).filterMap opened.blockAt).map
          .released := by
  rw [hc.closing, List.filterMap_filter]
  refine congrArg (fun left => r.opening.events.toList ++ left.map Event.released)
    (List.filterMap_congr fun s hs => ?_)
  rw [hc.closed_of_ok hok (List.mem_range.mp hs)]
  by_cases hstarted : s / plan.foreignChunk % plan.workers ∈ plan.started a
  · simp [hstarted]
  · simp [hstarted]

theorem owner_started (hall : plan.AllStart a) (s : Nat) :
    s / plan.foreignChunk % plan.workers ∈ plan.started a := by
  rw [Plan.started_eq_range hall]
  exact List.mem_range.mpr (Nat.mod_lt _ (Config.workers_pos hc.plan_eq))

/-- If all workers were started, a successful run leaves nothing in the pool. -/
theorem closing_eq_opening {p : Plan} {reports : List WorkerReport}
    (hok : r.result = .ok (p, reports)) (hall : plan.AllStart a) :
    r.closing.events = r.opening.events := by
  have hnone : ((List.range plan.foreignTotal).filter fun s =>
      s / plan.foreignChunk % plan.workers ∉ plan.started a) = [] :=
    List.filter_eq_nil_iff.mpr fun s _ => by simpa using hc.owner_started hall s
  refine Array.toList_inj.mp ?_
  rw [hc.closing_of_ok hok, hnone]
  exact List.append_nil _

/-- The quotas of the workers are the whole pool, and a word holds either figure. -/
theorem quotas : plan.workers * plan.foreignQuota = plan.foreignTotal
    ∧ plan.foreignQuota < Word.modulus ∧ plan.foreignTotal < Word.modulus := by
  obtain ⟨htotal, hquota⟩ := Config.plan_grid hc.plan_eq hc.reservable
  have hproduct : plan.workers * plan.foreignQuota = plan.foreignTotal := by
    rw [htotal, hquota, Nat.mul_assoc]
  have hsmall : plan.foreignQuota ≤ plan.foreignTotal := by
    rw [← hproduct]
    exact Nat.le_mul_of_pos_left _ (Config.workers_pos hc.plan_eq)
  exact ⟨hproduct, Nat.lt_of_le_of_lt hsmall hc.foreignTotal_lt, hc.foreignTotal_lt⟩

theorem totals_of_ok {p : Plan} {reports : List WorkerReport} (hok : r.result = .ok (p, reports))
    (started : Nat) :
    (Report.totals ⟨started, reports⟩).foreignFrees
      = UInt64.ofNat ((plan.started a).length * plan.foreignQuota) := by
  have hreports := hc.reports_eq hok
  have hfrees : ∀ w ∈ (Report.mk started reports).workers,
      w.foreignFrees = UInt64.ofNat plan.foreignQuota := by
    intro w hw
    simp only [hreports] at hw
    obtain ⟨id, -, rfl⟩ := List.mem_map.mp hw
    rfl
  rw [Report.foreignFrees_totals hfrees]
  simp only [hreports, List.length_map]

/-- In a successful run the block of a slot is obtained by the main thread and handed back by the
worker that owns the slot, if that was started, and no other worker deals with it. -/
theorem life_of_ok {p : Plan} {reports : List WorkerReport} (hok : r.result = .ok (p, reports))
    {s : Nat} (hs : s < plan.foreignTotal) : ∃ b, opened.blockAt s = some b
      ∧ b.id.thread = .main ∧ Trace.about b.id r.opening.events.toList = [.granted b]
      ∧ (∃ f, r.workers[s / plan.foreignChunk % plan.workers]? = some f
        ∧ Trace.about b.id f.journal.events.toList
          = if s / plan.foreignChunk % plan.workers ∈ plan.started a then [.released b] else [])
      ∧ ∀ k f, k ≠ s / plan.foreignChunk % plan.workers → r.workers[k]? = some f →
        Trace.about b.id f.journal.events.toList = [] := by
  obtain ⟨-, -, hleft⟩ := hc.left_of_ok hok
  obtain ⟨hshare, f, hf⟩ := hc.owner hs
  refine ⟨_, hc.filled.block s hs, rfl, ?_, ⟨f, hf, ?_⟩, fun k f' hk hf' => ?_⟩
  · exact (hc.about_opening s).trans (if_pos hs)
  · simp only [hc.mem_started hf]
    cases hresult : f.result with
    | some result =>
        exact (hc.about_worker (hleft _ f hf result hresult).2 s).trans (if_pos hshare)
    | none =>
        rw [(hc.idle hf hresult).2.1]
        rfl
  · obtain ⟨gone, lost, hothers⟩ := hc.left hf'
    refine (hc.about_worker hothers s).trans (if_neg fun hmem => hk ?_)
    exact Plan.share_disjoint (hothers.gone_subset hmem) hshare

end Course

/-- What a successful run adds up to. The workers that were started are meant, each of which frees its
whole quota; and where all of them were, that is the whole pool. -/
theorem run_conserves {a : Allocator} {config : Config} {h : Histogram} {schedule : List Turn}
    {plan : Plan} {reports : List WorkerReport}
    (hok : (run a config h schedule).result = .ok (plan, reports)) :
    let r := run a config h schedule
    config.plan = .ok plan
      ∧ reports.map (·.worker) = plan.started a
      ∧ (∀ report ∈ reports, report.allocations = report.frees
          ∧ report.foreignFrees.toNat = plan.foreignQuota)
      ∧ (∀ x ∈ reports, ∀ y ∈ reports, { x with worker := y.worker } = y)
      ∧ (Report.totals ⟨r.started, reports⟩).foreignFrees.toNat
          = (plan.started a).length * plan.foreignQuota
      ∧ (∀ s, s < plan.foreignTotal → ∃ b, (populated a config h).blockAt s = some b
          ∧ b.id.thread = .main ∧ Trace.about b.id r.opening.events.toList = [.granted b]
          ∧ (∃ f, r.workers[s / plan.foreignChunk % plan.workers]? = some f
            ∧ Trace.about b.id f.journal.events.toList
              = if s / plan.foreignChunk % plan.workers ∈ plan.started a then [.released b] else [])
          ∧ ∀ k f, k ≠ s / plan.foreignChunk % plan.workers → r.workers[k]? = some f →
            Trace.about b.id f.journal.events.toList = [])
      ∧ r.closing.events.toList = r.opening.events.toList
          ++ (((List.range plan.foreignTotal).filter fun s =>
            s / plan.foreignChunk % plan.workers ∉ plan.started a).filterMap
              (populated a config h).blockAt).map .released
      ∧ (plan.AllStart a →
          reports.length = plan.workers
          ∧ (∀ (id : Nat) (report : WorkerReport), reports[id]? = some report →
            report.worker = id)
          ∧ (Report.totals ⟨r.started, reports⟩).foreignFrees.toNat = plan.foreignTotal
          ∧ (∀ s, s < plan.foreignTotal → ∃ b f, (populated a config h).blockAt s = some b
            ∧ r.workers[s / plan.foreignChunk % plan.workers]? = some f
            ∧ Trace.about b.id f.journal.events.toList = [.released b])
          ∧ r.closing.events = r.opening.events) := by
  intro r
  rcases run_course a config h schedule with
    ⟨plan', layout, closed, hc⟩ | ⟨e, herror, -⟩
  · obtain ⟨rfl, -, -⟩ := hc.left_of_ok hok
    have hreports := hc.reports_eq hok
    have hworkers : reports.map (·.worker) = plan.started a := by
      rw [hreports, List.map_map]
      exact List.map_id _
    obtain ⟨hproduct, hquota, hbound⟩ := hc.quotas
    have hfew : (plan.started a).length * plan.foreignQuota ≤ plan.foreignTotal := by
      rw [← hproduct]
      exact Nat.mul_le_mul_right _ (Plan.length_started_le plan a)
    have htotals : (Report.totals ⟨r.started, reports⟩).foreignFrees.toNat
        = (plan.started a).length * plan.foreignQuota := by
      rw [hc.totals_of_ok hok]
      exact UInt64.toNat_ofNat_of_lt' (Nat.lt_of_le_of_lt hfew hbound)
    have hclosing := hc.closing_of_ok hok
    refine ⟨hc.plan_eq, hworkers, fun report hreport => ?_, fun x hx y hy => ?_, htotals,
      fun s hs => hc.life_of_ok hok hs, hclosing, fun hall => ?_⟩
    · rw [hreports] at hreport
      obtain ⟨id, -, rfl⟩ := List.mem_map.mp hreport
      exact ⟨rfl, UInt64.toNat_ofNat_of_lt' hquota⟩
    · rw [hreports] at hx hy
      obtain ⟨j, -, rfl⟩ := List.mem_map.mp hx
      obtain ⟨k, -, rfl⟩ := List.mem_map.mp hy
      rfl
    · obtain ⟨hlength, horder⟩ := Report.in_order (hworkers.trans (Plan.started_eq_range hall))
      refine ⟨hlength, horder, ?_, fun s hs => ?_, hc.closing_eq_opening hok hall⟩
      · rw [htotals, Plan.started_eq_range hall, List.length_range, hproduct]
      · obtain ⟨b, hb, -, -, ⟨f, hf, hfreed⟩, -⟩ := hc.life_of_ok hok hs
        exact ⟨b, f, hb, hf, hfreed.trans (if_pos (hc.owner_started hall s))⟩
  · rw [hok] at herror
    cases herror

/-- All of three workers are started, or one of them is not and its share is left to the main
thread. -/
theorem run_conserves_three_workers :
    let absent : Allocator := {
      Allocator.faultless with
      starts := fun thread =>
        if thread = .worker 1 then .error (.other "Resource temporarily unavailable (os error 11)")
        else .ok () }
    let plan : Plan := ⟨3, 2, 1, 9, 3, 1, some 1⟩
    let reports : List WorkerReport := [⟨0, 2, 2, 0, 3⟩, ⟨1, 2, 2, 0, 3⟩, ⟨2, 2, 2, 0, 3⟩]
    let r := fun a : Allocator =>
      run a ⟨7, 5, 3, 10, some 1⟩ ⟨[⟨16, 2⟩, ⟨24, 1⟩], by decide, by decide⟩
        [.act 1, .act 0, .act 1, .overwrite ⟨⟨.worker 0, 0⟩, 9⟩]
    ((r .faultless).result = .ok (plan, reports) ∧ plan.AllStart .faultless
      ∧ (Report.totals ⟨(r .faultless).started, reports⟩).foreignFrees.toNat = 9
      ∧ (r .faultless).closing.events = (r .faultless).opening.events)
    ∧ (r absent).result = .ok (plan, reports.eraseIdx 1)
      ∧ (Report.totals ⟨(r absent).started, reports.eraseIdx 1⟩).foreignFrees.toNat = 6 := by
  intro absent plan reports r
  have hok : (r .faultless).result = .ok (plan, reports) := by decide +kernel
  have hall : plan.AllStart .faultless := fun _ _ => rfl
  have hfew : (r absent).result = .ok (plan, reports.eraseIdx 1) := by decide +kernel
  obtain ⟨-, -, -, -, -, -, -, hwhole⟩ := run_conserves hok
  obtain ⟨-, -, htotals, -, hclosing⟩ := hwhole hall
  obtain ⟨-, -, -, -, hpart, -⟩ := run_conserves hfew
  exact ⟨⟨hok, hall, htotals, hclosing⟩, hfew, hpart⟩

end Harness

end HeapChurn
