import HeapChurn.Proofs.Histogram.Stream
import HeapChurn.Proofs.Inbox.Reach
import HeapChurn.Proofs.LiveSlots.Requests
import HeapChurn.Proofs.Routine.Apart

/-!
# Workers and their request streams

The requests of a worker in a row are its request stream, which is fixed by the histogram and by the
number of iterations. A buffer that serves nothing but this stream, on a thread with no inbox and no
pool, is the reference: `Along` says that a worker at some point of its run has the buffer of the
reference, and that its events are those of the reference with the foreign blocks that it freed
woven in. Each layer of the control loop keeps it, and the run ends with it (`run_along`).

The inbox must be in order: its slots are distinct, their blocks name their slots, and nobody writes
over the tags. Then a drain never fails.
-/

namespace HeapChurn

namespace Worker

variable {table : Histogram} {a : Allocator}

theorem create_eq_ok {id : Nat} {plan : Plan} {inbox : Option Inbox} {w : Worker table}
    (h : create id plan table inbox = .ok w) : w
      = { id, plan, inbox, slots := .empty plan.heapSlotsPerWorker, sizes := table.start } := by
  rcases create_cases id plan table inbox with hcreate | hcreate
  · exact Except.ok.inj (h.symm.trans hcreate)
  · rw [hcreate] at h
    cases h

theorem run_drain {w : Worker table} {v : View} (hnodup : w.ahead.Nodup)
    (hlabelled : v.pool.Labelled w.ahead) (limit : Option Nat) :
    ∃ inbox pool, (w.drain limit).run a v = ((.ok (), { w with
        inbox
        foreignFrees := w.foreignFrees
          + UInt64.ofNat (Inbox.reach v.pool limit 0 w.ahead).length }),
        ⟨pool, v.journal.drained
          ((Inbox.reach v.pool limit 0 w.ahead).filterMap v.pool.blockAt)⟩)
      ∧ inbox.elim [] Inbox.ahead = w.ahead.drop (Inbox.reach v.pool limit 0 w.ahead).length
      ∧ ∀ s ∉ Inbox.reach v.pool limit 0 w.ahead, pool[s]? = v.pool[s]? := by
  unfold drain
  cases hinbox : w.inbox with
  | none =>
      have hahead : w.ahead = [] := by
        rw [ahead, hinbox]
        rfl
      rw [hahead, Inbox.reach_nil]
      refine ⟨none, v.pool, ?_, rfl, fun _ _ => rfl⟩
      obtain ⟨id, plan, inbox, slots, sizes, foreignFrees⟩ := w
      obtain rfl : inbox = none := hinbox
      simp [Routine.run_pure, Journal.drained]
  | some inbox =>
      have hahead : w.ahead = inbox.ahead := by
        rw [ahead, hinbox]
        rfl
      rw [hahead] at hnodup hlabelled ⊢
      obtain ⟨pool, hrun, hpool⟩ := @Inbox.run_drainFrom a inbox.worker limit inbox.ahead 0 v
        hnodup hlabelled fun _ _ => Nat.zero_le _
      refine ⟨some { inbox with ahead := _ }, pool, ?_, rfl, hpool⟩
      rw [Routine.run_bind, Inbox.drain, Routine.run_bind, hrun, Nat.zero_add]
      rfl

/-- A worker that started as `w₀` at the view `v₀`, in the middle of its run. It has made the
requests of `sizes`, with this result, and freed the blocks of the slots `gone`. -/
structure Along (a : Allocator) (w₀ : Worker table) (v₀ : View) (sizes gone : List Nat)
    (result : Except Error Unit) (w : Worker table) (v : View) : Prop where
  id_eq : w.id = w₀.id
  plan_eq : w.plan = w₀.plan
  share_eq : w₀.ahead = gone ++ w.ahead
  untouched : ∀ s ∈ w.ahead, v.pool[s]? = v₀.pool[s]?
  served : (LiveSlots.alone a w₀.plan.heapSlotsPerWorker v₀.journal sizes).1 = (result, w.slots)
  abreast : v.journal.Abreast
    (LiveSlots.alone a w₀.plan.heapSlotsPerWorker v₀.journal sizes).2.journal
  woven : ∃ live new,
    (LiveSlots.alone a w₀.plan.heapSlotsPerWorker v₀.journal sizes).2.journal.events.toList
        = v₀.journal.events.toList ++ live
      ∧ v.journal.events.toList = v₀.journal.events.toList ++ new
      ∧ Trace.Woven [live, (gone.filterMap v₀.pool.blockAt).map .released] new
  foreignFrees : w.foreignFrees = UInt64.ofNat gone.length

/-- The inbox of a worker is in order. -/
structure Tidy (a : Allocator) (w : Worker table) (v : View) : Prop where
  quiet : ∀ call, a.overwrites v.journal.thread call = []
  distinct : w.ahead.Nodup
  labelled : v.pool.Labelled w.ahead

namespace Along

variable {w₀ w : Worker table} {v₀ v : View} {sizes gone : List Nat} {result : Except Error Unit}

theorem thread_eq (h : Along a w₀ v₀ sizes gone result w v) :
    v.journal.thread = v₀.journal.thread :=
  h.abreast.thread.trans (Routine.run_thread _ _)

/-- A stream that has failed does not go on. -/
theorem extend {e : Error} (h : Along a w₀ v₀ sizes gone (.error e) w v) (more : List Nat) :
    Along a w₀ v₀ (sizes ++ more) gone (.error e) w v := by
  have hsame := LiveSlots.alone_append_error h.served more
  refine ⟨h.id_eq, h.plan_eq, h.share_eq, h.untouched, ?_, ?_, ?_, h.foreignFrees⟩
  · rw [hsame]
    exact h.served
  · rw [hsame]
    exact h.abreast
  · rw [hsame]
    exact h.woven

theorem drain (h : Along a w₀ v₀ sizes gone result w v) (htidy : w₀.Tidy a v₀)
    (limit : Option Nat) :
    ∃ w' v', (w.drain limit).run a v = ((.ok (), w'), v')
      ∧ Along a w₀ v₀ sizes (gone ++ Inbox.reach v₀.pool limit 0 w.ahead) result w' v'
      ∧ w'.sizes = w.sizes := by
  have hnodup := htidy.distinct
  have hlabelled := htidy.labelled
  rw [h.share_eq] at hnodup hlabelled
  have hlabelled' : v.pool.Labelled w.ahead := fun s hs b hb =>
    hlabelled s (List.mem_append_right gone hs) b (h.untouched s hs ▸ hb)
  obtain ⟨inbox, pool, hrun, hinbox, hpool⟩ :=
    run_drain (a := a) (List.nodup_append.mp hnodup).2.1 hlabelled' limit
  rw [Inbox.reach_congr h.untouched] at hrun hinbox hpool
  -- from here on only this matters: the slots reached are the first ones ahead
  have hsplit := Inbox.reach_append_drop v₀.pool limit 0 w.ahead
  generalize Inbox.reach v₀.pool limit 0 w.ahead = more at hrun hinbox hpool hsplit
  have hblocks : more.filterMap v.pool.blockAt = more.filterMap v₀.pool.blockAt := by
    refine List.filterMap_congr fun s hs => ?_
    rw [PoolSlots.blockAt, PoolSlots.blockAt,
      h.untouched s (hsplit ▸ List.mem_append_left _ hs)]
  rw [hblocks] at hrun
  refine ⟨_, _, hrun, ⟨h.id_eq, h.plan_eq, ?_, ?_, h.served, ?_, ?_, ?_⟩, rfl⟩
  · rw [h.share_eq, List.append_assoc]
    exact congrArg (gone ++ ·) (hsplit.symm.trans (congrArg (more ++ ·) hinbox.symm))
  · intro s hs
    have hs' : s ∈ w.ahead.drop more.length := hinbox ▸ hs
    have hnot : s ∉ more := by
      intro hmem
      have hdistinct := (List.nodup_append.mp hnodup).2.1
      rw [← hsplit] at hdistinct
      exact (List.nodup_append.mp hdistinct).2.2 s hmem s hs' rfl
    exact (hpool s hnot).trans (h.untouched s (hsplit ▸ List.mem_append_right _ hs'))
  · exact ⟨(v.journal.thread_drained _).trans h.abreast.thread,
      (v.journal.calls_drained _).trans h.abreast.calls⟩
  · obtain ⟨live, new, hlive, hnew, hwoven⟩ := h.woven
    have hmore := hwoven.append ((more.filterMap v₀.pool.blockAt).map .released) (i := 1) rfl
    refine ⟨live, new ++ (more.filterMap v₀.pool.blockAt).map .released, hlive, ?_, ?_⟩
    · rw [v.journal.events_drained, hnew, List.append_assoc]
    · rw [List.filterMap_append, List.map_append]
      exact hmore
  · rw [List.length_append, UInt64.ofNat_add, ← h.foreignFrees]

theorem allocateMany (h : Along a w₀ v₀ sizes gone (.ok ()) w v) (htidy : w₀.Tidy a v₀)
    (size count : Nat) (place : table.Cursor) :
    let out := (w.slots.allocateMany size count).run a v
    Along a w₀ v₀ (sizes ++ List.replicate count size) gone out.1.1
      { w with slots := out.1.2, sizes := place } out.2 := by
  intro out
  have hconfined : (w.slots.allocateMany size count).Confined (Action.Within []) (fun _ _ => True)
      fun _ => True := (LiveSlots.confined_allocateMany size count w.slots).mono fun _ _ => trivial
  have hpool : out.2.pool = v.pool :=
    hconfined.pool_run fun call => by rw [h.thread_eq, htidy.quiet]
  have halone := LiveSlots.alone_append_ok h.served (List.replicate count size)
  rw [← LiveSlots.allocateMany_eq] at halone
  obtain ⟨hresult, habreast, more, hmore, hmore'⟩ := hconfined.run_apart (a := a) h.abreast
  obtain ⟨live, new, hlive, hnew, hwoven⟩ := h.woven
  refine ⟨h.id_eq, h.plan_eq, h.share_eq, fun s hs => hpool ▸ h.untouched s hs, ?_, ?_, ?_,
    h.foreignFrees⟩
  · rw [halone]
    exact hresult.symm
  · rw [halone]
    exact habreast
  · refine ⟨live ++ more, new ++ more, ?_, ?_, hwoven.append more (i := 0) rfl⟩
    · rw [halone, hmore', hlive, List.append_assoc]
    · rw [hmore, hnew, List.append_assoc]

theorem iterate (h : Along a w₀ v₀ sizes gone (.ok ()) w v) (htidy : w₀.Tidy a v₀) :
    ∃ result w' v', w.iterate.run a v = ((result, w'), v')
      ∧ Along a w₀ v₀ (sizes ++ w.sizes.bucket.requests)
        (gone ++ Inbox.reach v₀.pool w₀.plan.foreignBurst 0 w.ahead) result w' v'
      ∧ w'.sizes = w.sizes.advance := by
  obtain ⟨w', v', hrun, hdrained, hsizes⟩ := h.drain htidy w₀.plan.foreignBurst
  have hrequested := hdrained.allocateMany htidy w'.sizes.bucket.size w'.sizes.bucket.count
    w'.sizes.advance
  rw [← h.plan_eq] at hrun
  refine ⟨_, _, _, ?_, hsizes ▸ hrequested, ?_⟩
  · rw [Worker.iterate, Routine.run_bind, hrun]
    show (w'.slots.allocateMany w'.sizes.bucket.size w'.sizes.bucket.count >>= _).run a v' = _
    rw [Routine.run_bind, hsizes]
    rfl
  · rw [← hsizes]

end Along

/-- The blocks freed of `m` in so many bursts, if `freed` were freed before. -/
def burstBy (burst : Option Nat) (m freed : Nat) : Nat → Nat
  | 0 => freed
  | n + 1 => burst.elim m fun b => min m (freed + (n + 1) * b)

theorem burstBy_add (burst : Option Nat) (m freed : Nat) : ∀ i n,
    burstBy burst m (burstBy burst m freed i) n = burstBy burst m freed (i + n)
  | 0, n => by rw [Nat.zero_add, burstBy]
  | _, 0 => rfl
  | i + 1, n + 1 => by
      cases burst with
      | none => rfl
      | some b =>
          rw [← Nat.add_assoc, burstBy, burstBy, burstBy]
          simp only [Option.elim_some, Nat.add_mul]
          omega

namespace Along

variable {w₀ w : Worker table} {v₀ v : View} {sizes gone : List Nat} {result : Except Error Unit}

theorem length_drained (h : Along a w₀ v₀ sizes gone result w v)
    (hfilled : ∀ s ∈ w₀.ahead, (v₀.pool.blockAt s).isSome) (burst : Option Nat) :
    (gone ++ Inbox.reach v₀.pool burst 0 w.ahead).length
      = burstBy burst w₀.ahead.length gone.length 1 := by
  rw [h.share_eq] at hfilled
  rw [Inbox.reach_of_filled fun s hs => hfilled s (List.mem_append_right gone hs),
    List.length_append, h.share_eq, List.length_append]
  cases burst with
  | none => rfl
  | some b =>
      simp only [Inbox.upTo, burstBy, Option.elim_some, List.length_take]
      omega

theorem iterations (htidy : w₀.Tidy a v₀) :
    ∀ (n : Nat) {w : Worker table} {v : View} {sizes gone : List Nat},
      Along a w₀ v₀ sizes gone (.ok ()) w v →
      ∃ result w' v' gone', (Worker.iterations n w).run a v = ((result, w'), v')
        ∧ Along a w₀ v₀ (sizes ++ w.sizes.stream n) gone' result w' v'
        ∧ (result = .ok () → (∀ s ∈ w₀.ahead, (v₀.pool.blockAt s).isSome) →
          gone'.length = burstBy w₀.plan.foreignBurst w₀.ahead.length gone.length n)
  | 0, w, v, sizes, gone, h => by
      refine ⟨_, _, _, gone, rfl, ?_, fun _ _ => rfl⟩
      rw [Histogram.Cursor.stream, List.append_nil]
      exact h
  | n + 1, w, v, sizes, gone, h => by
      obtain ⟨result, w', v', hrun, hnext, hplace⟩ := h.iterate htidy
      rw [Histogram.Cursor.stream, ← List.append_assoc, Worker.iterations, Routine.run_bind, hrun]
      cases result with
      | error e => exact ⟨_, _, _, _, rfl, hnext.extend _, fun hok => by cases hok⟩
      | ok _ =>
          obtain ⟨result, w'', v'', gone', hrest, hend, hcount⟩ :=
            iterations htidy n hnext
          rw [hplace] at hend
          refine ⟨result, w'', v'', gone', hrest, hend, fun hok hfilled => ?_⟩
          rw [hcount hok hfilled, h.length_drained hfilled, burstBy_add,
            Nat.add_comm 1]

theorem workOff (htidy : w₀.Tidy a v₀) (h : Along a w₀ v₀ [] [] (.ok ()) w v)
    (hsizes : w.sizes = table.start) :
    ∃ result w' v' gone, w.workOff.run a v = ((result, w'), v')
      ∧ Along a w₀ v₀ (table.stream w₀.plan.iterationsPerWorker) gone result w' v'
      ∧ (result = .ok () → (∀ s ∈ w₀.ahead, (v₀.pool.blockAt s).isSome) → gone = w₀.ahead) := by
  obtain ⟨result, w', v', gone, hrun, hend, -⟩ :=
    iterations htidy w₀.plan.iterationsPerWorker h
  rw [List.nil_append, hsizes, Histogram.stream_start] at hend
  rw [Worker.workOff, h.plan_eq, Routine.run_bind, hrun]
  cases result with
  | error e => exact ⟨_, _, _, gone, rfl, hend, nofun⟩
  | ok _ =>
      obtain ⟨w'', v'', hrun', hend', -⟩ := hend.drain htidy none
      refine ⟨_, _, _, _, hrun', hend', fun _ hfilled => ?_⟩
      have hlength := hend.length_drained hfilled none
      exact (List.IsPrefix.eq_of_length ⟨_, hend'.share_eq.symm⟩ hlength)

theorem start (hslots : w.slots = .empty w.plan.heapSlotsPerWorker)
    (hforeignFrees : w.foreignFrees = 0) (notice : Notice) :
    Along a w v [] [] (.ok ()) w ⟨v.pool, v.journal.noted notice⟩ where
  id_eq := rfl
  plan_eq := rfl
  share_eq := rfl
  untouched _ _ := rfl
  served := hslots ▸ rfl
  abreast := ⟨rfl, rfl⟩
  woven := ⟨[], [], (List.append_nil _).symm, (List.append_nil _).symm, .nil (by simp)⟩
  foreignFrees := hforeignFrees

end Along

theorem run_releaseAll (s : LiveSlots) (v : View) : (s.releaseAll.run a v).1.2 = s.clear
    ∧ (s.releaseAll.run a v).2.journal.events.toList
      = v.journal.events.toList ++ s.blocks.map .released := by
  have hv : v.Holds [] fun _ => none := nofun
  obtain ⟨-, hout, hj⟩ := (LiveSlots.ensures_releaseAll (a := a) (s := s) hv).run_self
  rw [hout, hj]
  exact ⟨rfl, v.journal.events_returned _⟩

/-- The view when the start of the worker is told. -/
def started (w : Worker table) (v : View) : View :=
  ⟨v.pool, v.journal.noted
    (.workerStarted w.id w.slots.capacity w.plan.iterationsPerWorker w.remaining)⟩

/-- A whole run ends as the reference does. What follows the last request is a release of the blocks
in the buffer. -/
theorem run_along {w : Worker table} {v : View} (htidy : w.Tidy a v)
    (hslots : w.slots = .empty w.plan.heapSlotsPerWorker) (hsizes : w.sizes = table.start)
    (hforeignFrees : w.foreignFrees = 0) :
    ∃ result w' v' gone,
      Along a w v (table.stream w.plan.iterationsPerWorker) gone result w' v'
        ∧ (w.run.run a v).1 = result.map (fun _ => { w' with slots := w'.slots.clear }.report)
        ∧ (w.run.run a v).2.journal.events.toList
          = v'.journal.events.toList ++ w'.slots.blocks.map .released
        ∧ (result = .ok () → (∀ s ∈ w.ahead, (v.pool.blockAt s).isSome) → gone = w.ahead) := by
  have hstart : Along a w v [] [] (.ok ()) w (w.started v) := .start hslots hforeignFrees _
  obtain ⟨result, w', v', gone, hwork, hend, hgone⟩ := hstart.workOff htidy hsizes
  obtain ⟨hclear, hevents⟩ := run_releaseAll (a := a) w'.slots v'
  have hnote : (Routine.note (.workerStarted w.id w.slots.capacity w.plan.iterationsPerWorker
      w.remaining)).run a v = ((), w.started v) := rfl
  simp only [Worker.run, Routine.run_bind, hnote, hwork]
  refine ⟨result, w', v', gone, hend, ?_, ?_, hgone⟩
  · cases result with
    | error e => rfl
    | ok _ =>
        rw [← hclear]
        rfl
  · rw [← hevents]
    cases result <;> rfl

end Worker

end HeapChurn
