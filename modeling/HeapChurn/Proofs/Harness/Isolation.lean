import HeapChurn.Proofs.Harness.Conservation

/-!
# Workers are isolated

What a worker does depends on its share of the pool, on its tags and on the answers to its own calls,
and on nothing else. So as long as nobody writes over the tags once the workers have started, each of
them ends in every interleaving as it would end alone: with the same result, the same journal and
the same slots. That the others stop half way or not at all makes no difference, and which error a
run reports is decided by the numbers of the workers that fail and not by the order in which they
fail.

Two views are `Alike` for a thread that cannot tell them apart. One action that keeps to a share
gets the same answer in both and leaves them alike (`Action.Within.alike`); so a whole routine does,
whatever the others do elsewhere (`Confined.ensures_alone`).
-/

namespace HeapChurn

/-- Two views that a thread with these slots cannot tell apart. -/
structure View.Alike (share : List Nat) (v w : View) : Prop where
  journal : v.journal = w.journal
  pool : ∀ s ∈ share, v.pool[s]? = w.pool[s]?

/-- Two allocators that treat a thread alike. -/
structure Allocator.Alike (thread : Thread) (a b : Allocator) : Prop where
  refuses : ∀ call size, a.refuses thread call size = b.refuses thread call size
  overwrites : ∀ call, a.overwrites thread call = b.overwrites thread call
  denies : ∀ slots, a.denies thread slots = b.denies thread slots
  starts : a.starts thread = b.starts thread

theorem Allocator.Alike.refl (thread : Thread) (a : Allocator) : a.Alike thread a :=
  ⟨fun _ _ => rfl, fun _ => rfl, fun _ => rfl, rfl⟩

theorem PoolSlots.getElem?_emptied (pool : PoolSlots) (t s : Nat) :
    (pool.setIfInBounds t none)[s]? = if t = s then pool[s]?.map fun _ => none else pool[s]? := by
  rw [Array.getElem?_setIfInBounds]
  split
  · subst s
    by_cases ht : t < pool.size
    · simp [ht]
    · simp [ht]
  · rfl

namespace View.Alike

variable {share : List Nat} {v w : View}

theorem shift (h : v.Alike share w) {pool : PoolSlots}
    (hpool : (Interference.leaving share).Allows v.pool pool) :
    View.Alike share ⟨pool, v.journal⟩ w :=
  ⟨h.journal, fun s hs => (hpool s hs).trans (h.pool s hs)⟩

/-- An action of the thread is answered alike and leaves the views alike. -/
theorem perform {a b : Allocator} (hab : a.Alike v.journal.thread b)
    (hquiet : ∀ call, a.overwrites v.journal.thread call = []) {x : Action}
    (hx : x.Within share) (h : v.Alike share w) :
    (x.perform a v).1 = (x.perform b w).1
      ∧ (x.perform a v).2.Alike share (x.perform b w).2 := by
  obtain ⟨p, j⟩ := v
  obtain ⟨q, k⟩ := w
  obtain ⟨rfl, hpool⟩ := h
  cases x with
  | request layout =>
      simp only [Action.perform, ← hab.refuses, ← hab.overwrites, hquiet]
      split
      · exact ⟨rfl, rfl, hpool⟩
      · exact ⟨rfl, rfl, hpool⟩
  | take slot =>
      refine ⟨congrArg Option.join (hpool slot hx), rfl, fun s hs => ?_⟩
      simp only [Action.perform, PoolSlots.getElem?_emptied]
      rw [hpool s hs]
  | store b => exact hx.elim
  | reserve slots =>
      simp only [Action.perform, ← hab.denies]
      exact ⟨trivial, rfl, hpool⟩
  | release b => exact ⟨rfl, rfl, hpool⟩
  | note notice => exact ⟨rfl, rfl, hpool⟩
  | count growth => exact ⟨rfl, rfl, hpool⟩

end View.Alike

/-- A routine that keeps to a share ends as it would end alone, if the others leave the share as it
is. -/
theorem Routine.Confined.ensures_alone {α : Type} {P : α → Prop} {a b : Allocator}
    {thread : Thread} {share : List Nat} (hab : a.Alike thread b)
    (hquiet : ∀ call, a.overwrites thread call = []) :
    ∀ {r : Routine α}, r.Confined (Action.Within share) (fun _ _ => True) P → ∀ {v w : View},
      v.journal.thread = thread → v.Alike share w →
      r.Ensures a (.leaving share) v fun x u =>
        x = (r.run b w).1 ∧ u.Alike share (r.run b w).2
  | done _, _, _, _, _, h => fun _ hpool => ⟨rfl, h.shift hpool⟩
  | act action next, hr, v, w, hv, h => fun pool hpool => by
      obtain ⟨hanswer, hview⟩ := (h.shift hpool).perform (hv.symm ▸ hab) (hv.symm ▸ hquiet) hr.1
      rw [hanswer]
      exact ensures_alone hab hquiet (hr.2 _ trivial) ((action.perform_thread a _).trans hv) hview

/-! ## Workers of a plan -/

/-- Worker `id` alone: nobody acts on the pool but its own thread, if that is started. -/
def Plan.alone (p : Plan) (b : Allocator) (h : Histogram) (own : PoolSlots) (id : Nat) :
    Option (Except Error WorkerReport) × View :=
  (Worker.spawn b id p h (p.inboxOf id)).run b ⟨own, { thread := .worker id }⟩

theorem Plan.starts_of_alone {p : Plan} {b : Allocator} {h : Histogram} {own : PoolSlots} {id : Nat}
    {result : Except Error WorkerReport} (halone : (p.alone b h own id).1 = some result) :
    b.starts (.worker id) = .ok () := by
  unfold alone Worker.spawn at halone
  cases hstarts : b.starts (.worker id) with
  | ok u => rfl
  | error cause =>
      rw [hstarts] at halone
      cases halone

section Plan

variable {a b : Allocator} {p : Plan} {own : PoolSlots} {id : Nat} (h : Histogram)
  (pool : PoolSlots)

theorem Plan.ensures_spawn_alone (hab : a.Alike (.worker id) b)
    (hquiet : ∀ call, a.overwrites (.worker id) call = []) (hid : id < p.workers)
    (hown : ∀ s ∈ p.share id, pool[s]? = own[s]?) :
    (Worker.spawn a id p h (p.inboxOf id)).Ensures a (.leaving (p.share id))
      ⟨pool, { thread := .worker id }⟩ fun result v =>
        result = (p.alone b h own id).1 ∧ v.Alike (p.share id) (p.alone b h own id).2 := by
  have hsame : Worker.spawn b id p h (p.inboxOf id) = Worker.spawn a id p h (p.inboxOf id) := by
    rw [Worker.spawn, Worker.spawn, hab.starts]
  rw [alone, hsame]
  exact (confined_spawn hid h).ensures_alone hab hquiet rfl ⟨rfl, hown⟩

/-- Whatever the interleaving, a worker ends as it would end alone. -/
theorem Plan.outcome_alone (hquiet : ∀ id call, a.overwrites (.worker id) call = [])
    (hid : id < p.workers) (turns : List Nat) : ∃ f,
      ((p.crew a h pool).outcome a (turns.map .act)).2[id]? = some f
        ∧ ∀ (b : Allocator) (own : PoolSlots), a.Alike (.worker id) b →
          (∀ s ∈ p.share id, pool[s]? = own[s]?) →
          f.result = (p.alone b h own id).1
            ∧ View.Alike (p.share id) ⟨((p.crew a h pool).outcome a (turns.map .act)).1, f.journal⟩
              (p.alone b h own id).2 := by
  have hsound : (p.crew a h pool).Sound a (fun id => .leaving (p.share id))
      (fun id => Action.Within (p.share id)) fun id result v =>
        result = (p.alone a h pool id).1 ∧ v.Alike (p.share id) (p.alone a h pool id).2 :=
    sound_crew fun k hk => ensures_spawn_alone h pool (.refl _ a) (hquiet k) hk fun _ _ => rfl
  have hacts : Weathered (fun id => .leaving (p.share id)) (turns.map Turn.act) :=
    weathered_of_acts (by simp)
  have hlt : id < ((p.crew a h pool).outcome a (turns.map .act)).2.length := by
    rwa [Crew.length_outcome, size_members]
  have hf := List.getElem?_eq_getElem hlt
  refine ⟨_, hf, fun b own hab hown => ?_⟩
  obtain ⟨hresult, hview⟩ := hsound.finished (tolerated_leaving hquiet) hacts hf
  obtain ⟨hresult', hview'⟩ := (ensures_spawn_alone h pool hab (hquiet id) hid hown).run_self
  exact ⟨hresult.trans hresult', hview.journal.trans hview'.journal,
    fun s hs => (hview.pool s hs).trans (hview'.pool s hs)⟩

/-- So the workers of an interleaved run are those of as many lonely runs. -/
theorem Plan.finished_alone (hquiet : ∀ id call, a.overwrites (.worker id) call = [])
    (turns : List Nat) :
    ((p.crew a h pool).outcome a (turns.map .act)).2
      = (List.range p.workers).map fun id =>
        ⟨(p.alone a h pool id).1, (p.alone a h pool id).2.journal⟩ := by
  refine List.ext_getElem (by simp [Crew.length_outcome, size_members]) fun id hid hid' => ?_
  have hlt : id < p.workers := by simpa using hid'
  obtain ⟨f, hf, halone⟩ := outcome_alone h pool hquiet hlt turns
  obtain ⟨hresult, hview⟩ := halone a pool (.refl _ a) fun _ _ => rfl
  obtain ⟨hbound, rfl⟩ := List.getElem?_eq_some_iff.mp hf
  rw [List.getElem_map, List.getElem_range, ← hresult, ← hview.journal]

end Plan

/-! ## Runs -/

theorem Crew.follow_overwrites (a : Allocator) (schedule : List Turn) : ∀ (os : List Overwrite)
    (c : Crew), c.follow a (os.map .overwrite ++ schedule)
      = ({ c with pool := c.pool.overwriteAll os } : Crew).follow a schedule
  | [], _ => rfl
  | o :: os, c => follow_overwrites a schedule os { c with pool := c.pool.overwrite o }

/-- What is written over before the first action is part of the pool with which the workers
start. -/
theorem Plan.outcome_overwrites (p : Plan) (a : Allocator) (h : Histogram) (pool : PoolSlots)
    (os : List Overwrite) (schedule : List Turn) :
    (p.crew a h pool).outcome a (os.map .overwrite ++ schedule)
      = (p.crew a h (pool.overwriteAll os)).outcome a schedule := by
  unfold Crew.outcome
  rw [Crew.follow_overwrites]
  rfl

theorem firstError_of_none {results : List (Option (Except Error WorkerReport))}
    (hnone : ∀ (k : Nat) (e : Error), results[k]? ≠ some (some (.error e))) :
    ∃ reports, firstError (results.filterMap id) = .ok reports := by
  rcases firstError_cases results with ⟨reports, hok, -⟩ | ⟨i, e, hi, -, -⟩
  · exact ⟨reports, hok⟩
  · exact absurd hi (hnone i e)

theorem firstError_of_first {results : List (Option (Except Error WorkerReport))} {i : Nat}
    {e : Error} (hi : results[i]? = some (some (.error e)))
    (hbefore : ∀ k < i, ∀ e, results[k]? ≠ some (some (.error e))) :
    firstError (results.filterMap id) = .error e := by
  rcases firstError_cases results with ⟨reports, -, hreports⟩ | ⟨j, e', hj, hbefore', herror⟩
  · have hmem : .error e ∈ reports.map Except.ok := by
      rw [← hreports]
      exact List.mem_filterMap.mpr ⟨_, List.mem_of_getElem? hi, rfl⟩
    obtain ⟨report, -, hreport⟩ := List.mem_map.mp hmem
    cases hreport
  · rcases Nat.lt_trichotomy i j with hlt | rfl | hlt
    · exact absurd hi (hbefore' i hlt e)
    · rw [hi] at hj
      cases hj
      exact herror
    · exact absurd hj (hbefore j hlt e')

namespace Harness

variable {a : Allocator} {config : Config} {h : Histogram} {p : Plan}

/-- What becomes of a run, in terms of its workers alone. -/
theorem run_eq_alone (hquiet : ∀ id call, a.overwrites (.worker id) call = [])
    (hp : ((prepare config h).run a start).1 = .ok p) (os : List Overwrite) (turns : List Nat) :
    let r := run a config h (os.map .overwrite ++ turns.map .act)
    let alone := p.alone a h ((populated a config h).overwriteAll os)
    r.workers = (List.range p.workers).map (fun id => ⟨(alone id).1, (alone id).2.journal⟩)
      ∧ r.result = (p, ·) <$> firstError (((List.range p.workers).map fun id =>
        (alone id).1).filterMap id) := by
  rw [run_eq_of_ok hp]
  simp only [Plan.outcome_overwrites, Plan.finished_alone h _ hquiet, List.filterMap_map, true_and]
  rfl

/-- The reports of a successful run are in the order of the workers, and each is that of the worker
that it names. -/
theorem result_of_report {schedule : List Turn} {reports : List WorkerReport}
    (hok : (run a config h schedule).result = .ok (p, reports)) :
    reports.map (·.worker) = p.started a
      ∧ ∀ report ∈ reports, ∀ f, (run a config h schedule).workers[report.worker]? = some f →
        f.result = some (.ok report) := by
  rcases run_course a config h schedule with ⟨plan, layout, closed, hc⟩ | ⟨e, herror, -⟩
  · obtain ⟨rfl, -, hleft⟩ := hc.left_of_ok hok
    rw [hc.reports_eq hok]
    refine ⟨?_, fun report hreport f hf => ?_⟩
    · rw [List.map_map]
      exact List.map_id _
    · obtain ⟨id, hid, rfl⟩ := List.mem_map.mp hreport
      obtain ⟨result, hresult⟩ := Option.isSome_iff_exists.mp ((hc.mem_started hf).mp hid)
      rw [hresult, (hleft _ f hf result hresult).1]
      rfl
  · rw [hok] at herror
    cases herror

/-- If no worker fails alone the run succeeds, with what each worker that was started reports alone. -/
theorem reports_of_none_fails (hquiet : ∀ id call, a.overwrites (.worker id) call = [])
    (hp : ((prepare config h).run a start).1 = .ok p) (os : List Overwrite) (turns : List Nat) :
    let r := run a config h (os.map .overwrite ++ turns.map .act)
    let alone := p.alone a h ((populated a config h).overwriteAll os)
    (∀ id < p.workers, ∀ e, (alone id).1 ≠ some (.error e)) →
      ∃ reports, r.result = .ok (p, reports) ∧ reports.map (·.worker) = p.started a
        ∧ ∀ report ∈ reports, (alone report.worker).1 = some (.ok report) := by
  intro r alone hall
  obtain ⟨hworkers, hresult⟩ := run_eq_alone hquiet hp os turns
  have hnone : ∀ (k : Nat) (e : Error), ((List.range p.workers).map fun id =>
      (alone id).1)[k]? ≠ some (some (.error e)) := fun k e heq => by
    have hk : k < p.workers := by simpa using (List.getElem?_eq_some_iff.mp heq).1
    rw [List.getElem?_map, List.getElem?_range hk] at heq
    exact hall k hk e (Option.some.inj heq)
  obtain ⟨reports, hfirst⟩ := firstError_of_none hnone
  have hok : r.result = .ok (p, reports) := by
    rw [hresult, hfirst]
    rfl
  obtain ⟨hstarted, hreports⟩ := result_of_report hok
  refine ⟨reports, hok, hstarted, fun report hreport => ?_⟩
  have hid : report.worker < p.workers :=
    (Plan.mem_started.mp (hstarted ▸ List.mem_map_of_mem hreport)).1
  refine hreports report hreport ⟨(alone report.worker).1, (alone report.worker).2.journal⟩ ?_
  rw [show (run a config h _).workers = _ from hworkers, List.getElem?_map,
    List.getElem?_range hid]
  rfl

/-- Workers are isolated: each ends in every interleaving as it would end alone, with slots and an
allocator that agree on nothing but what is its own, and its number alone decides whether its error
is the one that the run reports. -/
theorem workers_isolated (hquiet : ∀ id call, a.overwrites (.worker id) call = [])
    (h : Histogram) (turns : List Nat) :
    (∀ (p : Plan) (pool : PoolSlots) (id : Nat), id < p.workers →
      ∃ f, ((p.crew a h pool).outcome a (turns.map .act)).2[id]? = some f
        ∧ ∀ (b : Allocator) (own : PoolSlots), a.Alike (.worker id) b →
          (∀ s ∈ p.share id, pool[s]? = own[s]?) →
          f.result = (p.alone b h own id).1
            ∧ View.Alike (p.share id) ⟨((p.crew a h pool).outcome a (turns.map .act)).1, f.journal⟩
              (p.alone b h own id).2)
    ∧ ∀ (config : Config) (os : List Overwrite) (p : Plan),
      ((prepare config h).run a start).1 = .ok p →
      let r := run a config h (os.map .overwrite ++ turns.map .act)
      let alone := p.alone a h ((populated a config h).overwriteAll os)
      r.workers = (List.range p.workers).map (fun id => ⟨(alone id).1, (alone id).2.journal⟩)
      ∧ ((∀ id < p.workers, ∀ e, (alone id).1 ≠ some (.error e)) →
          ∃ reports, r.result = .ok (p, reports) ∧ reports.map (·.worker) = p.started a
            ∧ ∀ report ∈ reports, (alone report.worker).1 = some (.ok report))
      ∧ ((∀ id < p.workers, ∃ report, (alone id).1 = some (.ok report)) →
          ∃ reports, r.result = .ok (p, reports) ∧ reports.length = p.workers
            ∧ ∀ (id : Nat) (report : WorkerReport), reports[id]? = some report →
              report.worker = id ∧ (alone id).1 = some (.ok report))
      ∧ ∀ id e, id < p.workers → (alone id).1 = some (.error e) →
          (∀ k < id, ∀ e, (alone k).1 ≠ some (.error e)) → r.result = .error e := by
  refine ⟨fun p pool id hid => Plan.outcome_alone h pool hquiet hid turns, fun config os p hp => ?_⟩
  intro r alone
  obtain ⟨hworkers, hresult⟩ := run_eq_alone hquiet hp os turns
  have hget : ∀ k < p.workers, ((List.range p.workers).map fun id => (alone id).1)[k]?
      = some (alone k).1 := fun k hk => by
    rw [List.getElem?_map, List.getElem?_range hk]
    rfl
  have hnone := reports_of_none_fails hquiet hp os turns
  refine ⟨hworkers, hnone, fun hall => ?_, fun id e hid he hbefore => ?_⟩
  · have hstarted : p.AllStart a := fun id hid => by
      obtain ⟨report, hreport⟩ := hall id hid
      exact Plan.starts_of_alone hreport
    obtain ⟨reports, hok, hworker, hreports⟩ := hnone fun id hid e heq => by
      obtain ⟨report, hreport⟩ := hall id hid
      rw [hreport] at heq
      cases heq
    obtain ⟨hlength, horder⟩ :=
      Report.in_order (hworker.trans (Plan.started_eq_range hstarted))
    refine ⟨reports, hok, hlength, fun id report hreport => ?_⟩
    obtain rfl := horder id report hreport
    exact ⟨rfl, hreports report (List.mem_of_getElem? hreport)⟩
  · rw [hresult, firstError_of_first ((hget id hid).trans (congrArg some he)) fun k hk e' => ?_]
    · rfl
    · rw [hget k (Nat.lt_trans hk hid)]
      exact fun heq => hbefore k hk e' (Option.some.inj heq)

/-- Worker 2 fails before worker 1 does, and the run reports worker 1. Worker 3 is not started. -/
theorem workers_isolated_two_failures :
    let a : Allocator := {
      refuses := fun thread call _ => thread = .worker 1 && call = 1
      overwrites := fun _ _ => []
      starts := fun thread =>
        if thread = .worker 3 then .error (.other "Resource temporarily unavailable (os error 11)")
        else .ok () }
    let h : Histogram := ⟨[⟨16, 2⟩, ⟨24, 1⟩], by decide, by decide⟩
    let os : List Overwrite := [⟨⟨.main, 2⟩, 7⟩]
    let turns := [2, 2, 2, 1, 2, 3, 0, 2, 1, 1, 0]
    let r := run a ⟨8, 8, 4, 17, none⟩ h (os.map .overwrite ++ turns.map .act)
    (∀ id call, a.overwrites (.worker id) call = [])
      ∧ r.workers.map (·.result) = [some (.ok ⟨0, 2, 2, 1, 4⟩), some (.error (.outOfMemory 16)),
        some (.error (.corruptTag 2 7)), none]
      ∧ r.result = .error (.outOfMemory 16) := by
  intro a h os turns r
  have hquiet : ∀ id call, a.overwrites (.worker id) call = [] := fun _ _ => rfl
  obtain ⟨-, -, -, hfirst⟩ := (workers_isolated hquiet h turns).2 ⟨8, 8, 4, 17, none⟩ os
    ⟨4, 2, 2, 16, 4, 1, none⟩ (by decide +kernel)
  refine ⟨hquiet, by decide +kernel, ?_⟩
  refine hfirst 1 (.outOfMemory 16) (by decide) (by decide +kernel) fun k hk e heq => ?_
  obtain rfl : k = 0 := by omega
  have halone : (Plan.alone ⟨4, 2, 2, 16, 4, 1, none⟩ a h
      ((populated a ⟨8, 8, 4, 17, none⟩ h).overwriteAll os) 0).1 = some (.ok ⟨0, 2, 2, 1, 4⟩) := by
    decide +kernel
  rw [halone] at heq
  cases heq

end Harness

end HeapChurn
