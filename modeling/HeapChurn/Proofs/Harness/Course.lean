import HeapChurn.Proofs.Harness.Crew
import HeapChurn.Proofs.Plan.Grid
import HeapChurn.Proofs.Pool.Population
import HeapChurn.Proofs.Worker.Standing

/-!
# The course of a run

A run is over before its workers start, and then the main thread holds nothing, or it goes through
all of its stages: the pool is filled, every worker leaves, and the main thread hands back what is
left in the pool. `Course` puts the contracts of the stages side by side, as they hold of every
configuration, allocator and schedule. Whatever is said of whole runs is read off it.
-/

namespace HeapChurn

/-- All workers that were started succeeded, or the first that failed gives the error. -/
theorem firstError_cases : ∀ results : List (Option (Except Error WorkerReport)),
    (∃ reports, firstError (results.filterMap id) = .ok reports
        ∧ results.filterMap id = reports.map .ok)
      ∨ ∃ (i : Nat) (e : Error), results[i]? = some (some (.error e))
        ∧ (∀ k < i, ∀ e, results[k]? ≠ some (some (.error e)))
        ∧ firstError (results.filterMap id) = .error e
  | [] => Or.inl ⟨[], rfl, rfl⟩
  | some (.error e) :: rest => Or.inr ⟨0, e, rfl, nofun, rfl⟩
  | none :: rest => by
      rcases firstError_cases rest with hall | ⟨i, e, hi, hbefore, hrest⟩
      · exact Or.inl hall
      · refine Or.inr ⟨i + 1, e, hi, fun k hk => ?_, hrest⟩
        cases k with
        | zero => exact nofun
        | succ k => exact hbefore k (by omega)
  | some (.ok report) :: rest => by
      have hfirst : firstError ((some (.ok report) :: rest).filterMap id)
          = (report :: ·) <$> firstError (rest.filterMap id) := rfl
      rw [hfirst]
      rcases firstError_cases rest with ⟨reports, hrest, hall⟩ | ⟨i, e, hi, hbefore, hrest⟩
      · rw [hrest]
        exact Or.inl ⟨report :: reports, rfl, congrArg (_ :: ·) hall⟩
      · rw [hrest]
        refine Or.inr ⟨i + 1, e, hi, fun k hk => ?_, rfl⟩
        cases k with
        | zero => exact nofun
        | succ k => exact hbefore k (by omega)

/-- The ending of a worker. One that was not started leaves as little as one that is denied its
slots. -/
def Worker.ending (result : Option (Except Error WorkerReport)) : Except Error WorkerReport :=
  result.getD (.error (.setup .liveSlots))

theorem Worker.ending_eq_corruptTag {result : Option (Except Error WorkerReport)}
    {slot found : Nat} : ending result = .error (.corruptTag slot found)
      ↔ result = some (.error (.corruptTag slot found)) := by
  cases result <;> simp [ending]

namespace Harness

/-- Where the main thread starts. -/
def start : View := ⟨#[], { thread := .main }⟩

/-- The pool when the workers start. -/
def populated (a : Allocator) (config : Config) (h : Histogram) : PoolSlots :=
  ((prepare config h).run a start).2.pool

/-- What does not depend on the log holds on while the log is told. -/
theorem ensures_notes {a : Allocator} {P : View → Prop}
    (hnoted : ∀ v notice, P v → P ⟨v.pool, v.journal.noted notice⟩) :
    ∀ (notices : List Notice) {v : View}, P v →
      (notices.forM Routine.note).Ensures a .nobody v fun _ w => P w
  | [], _, h => Routine.ensures_pure fun pool hpool => by
      cases hpool
      exact h
  | notice :: rest, v, h => by
      refine (Routine.ensures_perform_alone (.note notice) v).bind fun _ w hw => ?_
      obtain ⟨-, rfl⟩ := Prod.mk.inj hw
      exact ensures_notes hnoted rest (hnoted v notice h)

theorem ensures_notes_filled {a : Allocator} (notices : List Notice) {n : Nat} {v : View}
    (h : ∀ layout, Pool.Filled a layout n v) :
    (notices.forM Routine.note).Ensures a .nobody v fun _ w => ∀ layout, Pool.Filled a layout n w :=
  ensures_notes (fun _ notice hw layout => (hw layout).noted notice) notices h

/-- The main thread has a plan and a full pool for it, or it holds nothing. -/
theorem ensures_prepare (a : Allocator) (config : Config) (h : Histogram) :
    (prepare config h).Ensures a .nobody start fun result w =>
      (∃ plan layout, result = .ok plan ∧ config.plan = .ok plan
        ∧ reservable plan.foreignTotal = true ∧ Pool.Filled a layout plan.foreignTotal w)
      ∨ ∃ e, result = .error e ∧ w.journal.thread = .main ∧ Custody w.journal [] [] := by
  unfold prepare
  refine (ensures_notes_filled _ (Pool.filled_start a)).bind fun _ w hw => ?_
  cases hplan : config.plan with
  | error e =>
      refine Routine.ensures_pure ?_
      rintro pool rfl
      exact Or.inr ⟨e, rfl, (hw ⟨0, 0⟩).thread, (hw ⟨0, 0⟩).custody⟩
  | ok plan =>
      refine (Routine.ensures_perform_alone (.note _) w).bind fun _ u hu => ?_
      obtain ⟨-, rfl⟩ := Prod.mk.inj hu
      have hfilled := fun layout => (hw layout).noted (.workloadStarting plan.workers
        plan.heapSlotsPerWorker plan.iterationsPerWorker plan.foreignTotal)
      by_cases htotal : plan.foreignTotal = 0
      · simp only [if_pos htotal]
        refine Routine.ensures_pure ?_
        rintro pool rfl
        refine Or.inl ⟨plan, ⟨0, 0⟩, rfl, rfl, ?_, ?_⟩
        · rw [htotal]
          rfl
        · have hempty := hfilled ⟨0, 0⟩
          rw [htotal] at hempty ⊢
          exact hempty
      · simp only [if_neg htotal]
        refine (Pool.ensures_populate hfilled).bind fun result x hx => ?_
        rcases hx with ⟨rfl, hreservable, layout, hx⟩ | ⟨e, rfl, hthread, hcustody⟩
        · refine Routine.ensures_pure ?_
          rintro pool rfl
          exact Or.inl ⟨plan, layout, rfl, rfl, hreservable, hx⟩
        · refine Routine.ensures_pure ?_
          rintro pool rfl
          exact Or.inr ⟨e, rfl, hthread, hcustody⟩

/-- The main thread when the workers start. It has told the log which of them do not. -/
def announced (a : Allocator) (config : Config) (h : Histogram) (plan : Plan) : View :=
  (((plan.absences a).forM Routine.note).run a ((prepare config h).run a start).2).2

theorem pool_announced (a : Allocator) (config : Config) (h : Histogram) (plan : Plan) :
    (announced a config h plan).pool = populated a config h :=
  (ensures_notes (P := fun v => v.pool = populated a config h) (fun _ _ => id) _ rfl).run_self

/-- A run that goes through all of its stages. `closed` is the pool when the workers are gone. -/
structure Course (a : Allocator) (config : Config) (h : Histogram) (r : Run) (plan : Plan)
    (layout : Layout) (opened closed : PoolSlots) : Prop where
  plan_eq : config.plan = .ok plan
  reservable : reservable plan.foreignTotal = true
  filled : Pool.Filled a layout plan.foreignTotal ⟨opened, r.opening⟩
  result_eq : r.result = (plan, ·) <$> firstError (r.workers.filterMap (·.result))
  length_workers : r.workers.length = plan.workers
  leaves : ∀ id f, r.workers[id]? = some f →
    Leaves a (fun id => .retagging (plan.share id)) opened (fun id result w => ∃ gone lost,
      Worker.Left id plan h (plan.share id) opened.blockAt gone lost result w)
      id f.result ⟨closed, f.journal⟩
  closing : r.closing.events.toList = r.opening.events.toList
    ++ ((List.range plan.foreignTotal).filterMap closed.blockAt).map .released

/-- What the slots of a share hold at the start. -/
theorem blockAt_of_mem_share {a : Allocator} {layout : Layout} {p : Plan} {v : View}
    (hfilled : Pool.Filled a layout p.foreignTotal v) {id s : Nat} (hs : s ∈ p.share id) :
    v.pool.blockAt s = some (Pool.blockOf layout s) :=
  hfilled.block s (Plan.mem_share.mp hs).2.1

/-- What the slots of a share hold at the start is the main thread's. -/
theorem ne_worker_of_mem_share {a : Allocator} {layout : Layout} {p : Plan} {v : View}
    (hfilled : Pool.Filled a layout p.foreignTotal v) {id s : Nat} (hs : s ∈ p.share id) {b : Block}
    (hb : v.pool.blockAt s = some b) (k : Nat) : b.id.thread ≠ .worker k := by
  rw [blockAt_of_mem_share hfilled hs] at hb
  cases hb
  exact fun heq => by cases heq

theorem run_eq_of_ok {a : Allocator} {config : Config} {h : Histogram} {plan : Plan}
    (hok : ((prepare config h).run a start).1 = .ok plan) (schedule : List Turn) :
    let opening := (announced a config h plan).journal
    let all := (plan.crew a h (populated a config h)).outcome a schedule
    run a config h schedule = {
      result := (plan, ·) <$> firstError (all.2.filterMap (·.result))
      opening
      closing := ((Pool.tearDown plan.foreignTotal).run a ⟨all.1, opening⟩).2.journal
      workers := all.2 } := by
  rw [← pool_announced a config h plan]
  unfold run announced
  rw [show (⟨#[], { thread := .main }⟩ : View) = start from rfl]
  generalize (prepare config h).run a start = out at hok
  obtain ⟨result, v⟩ := out
  subst hok
  rfl

theorem run_eq_of_error {a : Allocator} {config : Config} {h : Histogram} {e : Error}
    (herror : ((prepare config h).run a start).1 = .error e) (schedule : List Turn) :
    let opening := ((prepare config h).run a start).2
    run a config h schedule = {
      result := .error e
      opening := opening.journal
      closing := opening.journal
      workers := [] } := by
  unfold run
  rw [show (⟨#[], { thread := .main }⟩ : View) = start from rfl]
  generalize (prepare config h).run a start = out at herror
  obtain ⟨result, v⟩ := out
  subst herror
  rfl

/-- Each worker leaves its share of the pool as its contract says, or as it was. -/
theorem sound_left {a : Allocator} {plan : Plan} {layout : Layout} {v : View}
    (hfilled : Pool.Filled a layout plan.foreignTotal v) (h : Histogram) :
    (plan.crew a h v.pool).Sound a (fun id => .retagging (plan.share id))
      (fun id => Action.Within (plan.share id))
      (Leaves a (fun id => .retagging (plan.share id)) v.pool fun id result w => ∃ gone lost,
        Worker.Left id plan h (plan.share id) v.pool.blockAt gone lost result w) := by
  refine Plan.sound_leaves fun id hid => ?_
  exact Worker.ensures_thread (plan.nodup_share id)
    (fun s hs b hb => ne_worker_of_mem_share hfilled hs hb id)
    (Plan.ahead_inboxOf hid).symm (fun _ _ => rfl) rfl

theorem exists_left {a : Allocator} {plan : Plan} {h : Histogram} {pool : PoolSlots} {id : Nat}
    {result : Option (Except Error WorkerReport)} {w : View}
    (hleaves : Leaves a (fun id => .retagging (plan.share id)) pool (fun id result w =>
      ∃ gone lost, Worker.Left id plan h (plan.share id) pool.blockAt gone lost result w)
      id result w) :
    ∃ gone lost, Worker.Left id plan h (plan.share id) pool.blockAt gone lost
      (Worker.ending result) w := by
  cases result with
  | some result => exact hleaves.2
  | none => exact ⟨[], none, .barren hleaves.2.1 hleaves.2.2⟩

namespace Course

variable {a : Allocator} {config : Config} {h : Histogram} {r : Run} {plan : Plan}
  {layout : Layout} {opened closed : PoolSlots} {id : Nat} {f : Crew.Finished}
  (hc : Course a config h r plan layout opened closed) (hf : r.workers[id]? = some f)

include hc hf

theorem left : ∃ gone lost, Worker.Left id plan h (plan.share id) opened.blockAt gone lost
    (Worker.ending f.result) ⟨closed, f.journal⟩ :=
  exists_left (hc.leaves id f hf)

theorem starts_of_result {result : Except Error WorkerReport} (hresult : f.result = some result) :
    a.starts (.worker id) = .ok () := by
  have hleaves := hc.leaves id f hf
  rw [hresult] at hleaves
  exact hleaves.1

/-- A worker that was not started has done nothing. -/
theorem idle (hresult : f.result = none) : a.starts (.worker id) ≠ .ok ()
    ∧ f.journal = { thread := .worker id }
    ∧ ∀ s ∈ plan.share id, closed.blockAt s = opened.blockAt s := by
  have hleaves := hc.leaves id f hf
  rw [hresult] at hleaves
  exact ⟨hleaves.1, hleaves.2.2, hleaves.2.1⟩

end Course

theorem course_of_ok {a : Allocator} {config : Config} {h : Histogram} {plan : Plan}
    {layout : Layout} (hok : ((prepare config h).run a start).1 = .ok plan)
    (hplan : config.plan = .ok plan) (hreservable : HeapChurn.reservable plan.foreignTotal = true)
    (hfilled : Pool.Filled a layout plan.foreignTotal ((prepare config h).run a start).2)
    (schedule : List Turn) : ∃ closed, Course a config h (run a config h schedule) plan layout
      (populated a config h) closed := by
  have hannounced : Pool.Filled a layout plan.foreignTotal (announced a config h plan) :=
    (ensures_notes (fun _ notice hw => hw.noted notice) (plan.absences a) hfilled).run_self
  rw [run_eq_of_ok hok schedule]
  refine ⟨((plan.crew a h (populated a config h)).outcome a schedule).1, hplan, hreservable,
    ?_, rfl, ?_, fun id f hf => ?_, ?_⟩
  · rw [← pool_announced a config h plan]
    exact hannounced
  · exact (Crew.length_outcome schedule _).trans (plan.size_members a h _)
  · exact (sound_left hfilled h).finished tolerated_retagging (weathered_retagging schedule) hf
  · have hclosing := (Pool.ensures_tearDown (a := a) plan.foreignTotal
      ⟨((plan.crew a h (populated a config h)).outcome a schedule).1,
        (announced a config h plan).journal⟩).run_self
    exact (congrArg Array.toList hclosing).trans (Journal.events_returned _ _)

/-- Every run goes through all of its stages, or it is over when the main thread holds nothing. -/
theorem run_course (a : Allocator) (config : Config) (h : Histogram) (schedule : List Turn) :
    (∃ plan layout closed, Course a config h (run a config h schedule) plan layout
      (populated a config h) closed)
    ∨ ∃ e, (run a config h schedule).result = .error e
      ∧ (run a config h schedule).workers = []
      ∧ (run a config h schedule).closing = (run a config h schedule).opening
      ∧ (run a config h schedule).opening.thread = .main
      ∧ Custody (run a config h schedule).opening [] [] := by
  rcases (ensures_prepare a config h).run_self with
    ⟨plan, layout, hok, hplan, hreservable, hfilled⟩ | ⟨e, herror, hthread, hcustody⟩
  · exact Or.inl ⟨plan, layout, course_of_ok hok hplan hreservable hfilled schedule⟩
  · rw [run_eq_of_error herror schedule]
    exact Or.inr ⟨e, rfl, rfl, rfl, hthread, hcustody⟩

end Harness

end HeapChurn
