import HeapChurn.Proofs.Inbox.Drain
import HeapChurn.Proofs.LiveSlots.Outline
import HeapChurn.Proofs.Worker.Confinement

/-!
# The standing of a worker

What holds of a worker between any two of its actions, whatever the other threads do to the tags of
its blocks. `Standing` says which slots of its share it has emptied, and that it has handed back
exactly their blocks; that the blocks that it holds are those in its live slots; and that these are
regular. `Left` says the same of a worker that is done, when it holds nothing any more.

Every layer of the control loop has one contract, and each says in which ways its layer can fail. A
worker fails for a reason that `Fault` lists, and only a corrupt tag costs it a block.
-/

namespace HeapChurn

/-- The requests in the next so many iterations. -/
def Histogram.Cursor.demand {table : Histogram} (c : table.Cursor) : Nat → Nat
  | 0 => 0
  | n + 1 => c.bucket.count + c.advance.demand n

/-- The report of worker `id` if it gets through and frees so many foreign blocks. -/
def Plan.report (p : Plan) (table : Histogram) (id foreignFrees : Nat) : WorkerReport :=
  let outline := LiveSlots.Outline.requests p.heapSlotsPerWorker
    (table.start.demand p.iterationsPerWorker) (.start p.heapSlotsPerWorker)
  { worker := id
    allocations := outline.allocated
    frees := outline.allocated
    retires := outline.retires
    foreignFrees := UInt64.ofNat foreignFrees }

namespace Worker

/-- Why a worker fails, and the slot whose block it loses by that. -/
inductive Fault : Error → Option Nat → Prop
  | setup (what : Reservation) : Fault (.setup what) none
  | outOfMemory (size : Nat) : Fault (.outOfMemory size) none
  | corruptTag (slot found : Nat) : Fault (.corruptTag slot found) (some slot)

variable {table : Histogram}

/-- A worker in the middle of its work. `share` are its slots of the pool, `held` the blocks that lay
there at the start, `gone` the slots whose blocks it has freed. -/
structure Standing (id capacity : Nat) (share : List Nat) (held : Nat → Option Block)
    (w : Worker table) (gone : List Nat) (lost : Option Nat) (v : View) : Prop where
  id_eq : w.id = id
  share_eq : share = gone ++ w.ahead
  lost_ahead : ∀ s, lost = some s → w.ahead.head? = some s ∧ (held s).isSome
  filled : ∀ s ∈ gone, (held s).isSome
  holds : v.Holds share (without held (gone ++ lost.toList))
  stock : LiveSlots.Stock (.worker id) capacity (gone.filterMap held) w.slots v.journal
  /-- A drain that ends at a corrupt tag does not report what it freed. -/
  foreignFrees : lost = none → w.foreignFrees = UInt64.ofNat gone.length

theorem Standing.shift {id capacity : Nat} {share : List Nat} {held : Nat → Option Block}
    {w : Worker table} {gone : List Nat} {lost : Option Nat} {v : View}
    (hw : w.Standing id capacity share held gone lost v) {pool : PoolSlots}
    (hpool : (Interference.retagging share).Allows v.pool pool) :
    w.Standing id capacity share held gone lost ⟨pool, v.journal⟩ :=
  ⟨hw.id_eq, hw.share_eq, hw.lost_ahead, hw.filled, hw.holds.shift hpool, hw.stock,
    hw.foreignFrees⟩

/-- A worker that is done. It holds no block, and of those in its share it has freed a first part
and lost at most the one that came next. -/
structure Left (id : Nat) (plan : Plan) (table : Histogram) (share : List Nat)
    (held : Nat → Option Block) (gone : List Nat) (lost : Option Nat)
    (result : Except Error WorkerReport) (v : View) : Prop where
  share_eq : ∃ rest, share = gone ++ rest ∧ ∀ s, lost = some s → rest.head? = some s
  lost_filled : ∀ s, lost = some s → (held s).isSome
  filled : ∀ s ∈ gone, (held s).isSome
  holds : v.Holds share (without held (gone ++ lost.toList))
  thread : v.journal.thread = .worker id
  custody : Custody v.journal [] (gone.filterMap held)
  outcome : (∃ e, result = .error e ∧ Fault e lost)
    ∨ lost = none ∧ ((∀ s ∈ share, (held s).isSome) → gone = share)
      ∧ result = .ok (plan.report table id gone.length)

namespace Left

variable {id : Nat} {plan : Plan} {share : List Nat} {held : Nat → Option Block}
  {gone : List Nat} {lost : Option Nat} {result : Except Error WorkerReport} {v : View}

/-- The block that a worker loses is the one whose tag it reports. -/
theorem lost_iff (h : Left id plan table share held gone lost result v) {s : Nat} :
    lost = some s ↔ ∃ found, result = .error (.corruptTag s found) := by
  rcases h.outcome with ⟨e, rfl, he⟩ | ⟨rfl, -, rfl⟩
  · cases he with
    | setup what => simp
    | outOfMemory size => simp
    | corruptTag slot found => simp
  · simp

theorem gone_subset (h : Left id plan table share held gone lost result v) : gone ⊆ share := by
  obtain ⟨rest, hshare, -⟩ := h.share_eq
  rw [hshare]
  exact List.subset_append_left gone rest

theorem shift (h : Left id plan table share held gone lost result v) {pool : PoolSlots}
    (hpool : (Interference.retagging share).Allows v.pool pool) :
    Left id plan table share held gone lost result ⟨pool, v.journal⟩ :=
  ⟨h.share_eq, h.lost_filled, h.filled, h.holds.shift hpool, h.thread, h.custody, h.outcome⟩

theorem noted (h : Left id plan table share held gone lost result v) {w : View} {notice : Notice}
    (hw : w.Holds share (without held (gone ++ lost.toList)))
    (hj : w.journal = v.journal.noted notice) :
    Left id plan table share held gone lost result w := by
  refine ⟨h.share_eq, h.lost_filled, h.filled, hw, ?_, ?_, h.outcome⟩
  · rw [hj]
    exact h.thread
  · rw [hj]
    exact h.custody.noted notice

/-- A worker that never had slots leaves all as it was. -/
theorem barren (hv : v.Holds share held) (hj : v.journal = { thread := .worker id }) :
    Left id plan table share held [] none (.error (.setup .liveSlots)) v := by
  refine ⟨⟨share, rfl, nofun⟩, nofun, nofun, ?_, congrArg Journal.thread hj, hj ▸ .start (.worker id),
    Or.inl ⟨_, rfl, .setup .liveSlots⟩⟩
  simpa using hv

end Left

section Contracts

variable {a : Allocator} {id capacity : Nat} {share : List Nat} {held : Nat → Option Block}
  (hnodup : share.Nodup)
  (hforeign : ∀ s ∈ share, ∀ b, held s = some b → b.id.thread ≠ .worker id)

include hnodup hforeign

/-- A drain frees some of the blocks ahead, or stops at a corrupt tag. Without a limit it leaves
none if all slots are filled. -/
theorem ensures_drain {w : Worker table} {v : View} {gone : List Nat}
    (hw : w.Standing id capacity share held gone none v) (limit : Option Nat) :
    (w.drain limit).Ensures a (.retagging share) v fun out v' => ∃ gone' lost,
      out.2.Standing id capacity share held gone' lost v'
        ∧ out.2.slots = w.slots ∧ out.2.sizes = w.sizes
        ∧ ((∃ e, out.1 = .error e ∧ Fault e lost)
          ∨ out.1 = .ok () ∧ lost = none
            ∧ (limit = none → (∀ s ∈ share, (held s).isSome) → out.2.ahead = [])) := by
  have hholds : v.Holds share (without held gone) := by simpa using hw.holds
  unfold drain
  cases hinbox : w.inbox with
  | none =>
      refine Routine.ensures_pure fun _ hpool =>
        ⟨gone, none, hw.shift hpool, rfl, rfl, Or.inr ⟨rfl, rfl, fun _ _ => ?_⟩⟩
      rw [ahead, hinbox]
      rfl
  | some inbox =>
      have hshare : share = gone ++ inbox.ahead := by
        have := hw.share_eq
        rwa [ahead, hinbox] at this
      have hahead : ∀ s ∈ inbox.ahead, s ∈ share := fun s hs =>
        hshare ▸ List.mem_append_right gone hs
      rw [hshare] at hnodup
      refine (Inbox.ensures_drain hholds (hshare ▸ hnodup) hahead).bind ?_
      rintro ⟨result, slots, worker, rest⟩ u ⟨gone', lost, hrest, hfilled, hu, hdrained⟩
      simp only at hrest hdrained
      rw [hrest, ← List.append_assoc] at hshare
      have hfilled' : ∀ s ∈ gone ++ gone', (held s).isSome := fun s hs =>
        (List.mem_append.mp hs).elim (hw.filled s) (hfilled s)
      have hother : ∀ b ∈ gone'.filterMap held, b.id.thread ≠ .worker id := fun b hb => by
        obtain ⟨s, hs, hsb⟩ := List.mem_filterMap.mp hb
        exact hforeign s (hshare ▸ List.mem_append_left _ (List.mem_append_right gone hs)) b hsb
      have hstock := hw.stock.drained hother
      rw [← List.filterMap_append] at hstock
      generalize hjournal : u.journal = j at hdrained
      cases hdrained with
      | stopped hstop =>
          refine Routine.ensures_pure fun _ hpool => ⟨gone ++ gone', none,
            ⟨hw.id_eq, hshare, ?_, hfilled', hu.shift hpool, ?_, fun _ => ?_⟩,
            rfl, rfl, Or.inr ⟨rfl, rfl, fun hlimit hall => ?_⟩⟩
          · rintro s ⟨⟩
          · rw [hjournal]
            exact hstock
          · rw [hw.foreignFrees rfl, Nat.zero_add, List.length_append, UInt64.ofNat_add]
          · rcases hstop with hnil | hsome | ⟨s, hhead, hnone⟩
            · exact hnil
            · rw [hlimit] at hsome
              cases hsome
            · have hs := hall s (hshare ▸ List.mem_append_right _ (List.mem_of_head? hhead))
              rw [hnone] at hs
              cases hs
      | corrupt hslot htag =>
          refine Routine.ensures_pure fun _ hpool => ⟨gone ++ gone', some _,
            ⟨hw.id_eq, hshare, ?_, hfilled', hu.shift hpool, ?_, ?_⟩,
            rfl, rfl, Or.inl ⟨_, rfl, .corruptTag _ _⟩⟩
          · rintro s ⟨⟩
            exact ⟨rfl, hslot⟩
          · rw [hjournal]
            exact hstock.noted _
          · rintro ⟨⟩

/-- An iteration drains and then makes the requests of one bucket. -/
theorem ensures_iterate {w : Worker table} {v : View} {gone : List Nat}
    (hw : w.Standing id capacity share held gone none v) :
    w.iterate.Ensures a (.retagging share) v fun out v' => ∃ gone' lost,
      out.2.Standing id capacity share held gone' lost v'
        ∧ ((∃ e, out.1 = .error e ∧ Fault e lost)
          ∨ out.1 = .ok () ∧ lost = none ∧ out.2.sizes = w.sizes.advance
            ∧ out.2.slots.outline = .requests capacity w.sizes.bucket.count w.slots.outline) := by
  unfold iterate
  refine (ensures_drain hnodup hforeign hw w.plan.foreignBurst).bind ?_
  rintro ⟨result, w'⟩ u ⟨gone', lost, hw', hslots, hsizes, hcase⟩
  rcases hcase with ⟨e, rfl, he⟩ | ⟨rfl, rfl, -⟩
  · exact Routine.ensures_pure fun _ hpool =>
      ⟨gone', lost, hw'.shift hpool, Or.inl ⟨e, rfl, he⟩⟩
  · refine (LiveSlots.ensures_allocateMany_outline hw'.holds hw'.stock _ _).bind ?_
    rintro ⟨result, slots⟩ x ⟨hx, hstock, hcase⟩
    refine Routine.ensures_pure fun _ hpool => ⟨gone', none, ⟨hw'.id_eq, hw'.share_eq,
      hw'.lost_ahead, hw'.filled, hx.shift hpool, hstock, hw'.foreignFrees⟩, ?_⟩
    rcases hcase with ⟨n, rfl⟩ | ⟨rfl, houtline⟩
    · exact Or.inl ⟨_, rfl, .outOfMemory n⟩
    · refine Or.inr ⟨rfl, rfl, ?_, ?_⟩
      · rw [← hsizes]
      · rw [← hslots, ← hsizes]
        exact houtline

theorem ensures_iterations : ∀ (n : Nat) {w : Worker table} {v : View} {gone : List Nat},
    w.Standing id capacity share held gone none v →
    (iterations n w).Ensures a (.retagging share) v fun out v' => ∃ gone' lost,
      out.2.Standing id capacity share held gone' lost v'
        ∧ ((∃ e, out.1 = .error e ∧ Fault e lost)
          ∨ out.1 = .ok () ∧ lost = none
            ∧ out.2.slots.outline = .requests capacity (w.sizes.demand n) w.slots.outline)
  | 0, w, v, gone, hw => Routine.ensures_pure fun _ hpool =>
      ⟨gone, none, hw.shift hpool, Or.inr ⟨rfl, rfl, rfl⟩⟩
  | n + 1, w, v, gone, hw => by
      unfold iterations
      refine (ensures_iterate hnodup hforeign hw).bind ?_
      rintro ⟨result, w'⟩ u ⟨gone', lost, hw', hcase⟩
      rcases hcase with ⟨e, rfl, he⟩ | ⟨rfl, rfl, hsizes, houtline⟩
      · exact Routine.ensures_pure fun _ hpool =>
          ⟨gone', lost, hw'.shift hpool, Or.inl ⟨e, rfl, he⟩⟩
      · refine (ensures_iterations n hw').mono ?_
        rintro out x ⟨gone'', lost', hout, hcase⟩
        refine ⟨gone'', lost', hout, hcase.imp_right ?_⟩
        rintro ⟨hok, hlost, ho⟩
        refine ⟨hok, hlost, ?_⟩
        rw [ho, houtline, hsizes, ← LiveSlots.Outline.requests_add]
        rfl

theorem ensures_workOff {w : Worker table} {v : View} {gone : List Nat}
    (hw : w.Standing id capacity share held gone none v) :
    w.workOff.Ensures a (.retagging share) v fun out v' => ∃ gone' lost,
      out.2.Standing id capacity share held gone' lost v'
        ∧ ((∃ e, out.1 = .error e ∧ Fault e lost)
          ∨ out.1 = .ok () ∧ lost = none ∧ ((∀ s ∈ share, (held s).isSome) → gone' = share)
            ∧ out.2.slots.outline
              = .requests capacity (w.sizes.demand w.plan.iterationsPerWorker) w.slots.outline) := by
  unfold workOff
  refine (ensures_iterations hnodup hforeign _ hw).bind ?_
  rintro ⟨result, w'⟩ u ⟨gone', lost, hw', hcase⟩
  rcases hcase with ⟨e, rfl, he⟩ | ⟨rfl, rfl, houtline⟩
  · exact Routine.ensures_pure fun _ hpool =>
      ⟨gone', lost, hw'.shift hpool, Or.inl ⟨e, rfl, he⟩⟩
  · refine (ensures_drain hnodup hforeign hw' none).mono ?_
    rintro ⟨result, w''⟩ x ⟨gone'', lost', hw'', hslots, -, hcase⟩
    refine ⟨gone'', lost', hw'', hcase.imp_right ?_⟩
    rintro ⟨hok, hlost, hall⟩
    refine ⟨hok, hlost, fun hfilled => ?_, ?_⟩
    · have hshare := hw''.share_eq
      rw [show w''.ahead = [] from hall rfl hfilled, List.append_nil] at hshare
      exact hshare.symm
    · rw [← houtline]
      exact congrArg LiveSlots.outline hslots

/-- The life of a worker, from its first iteration to its report. -/
theorem ensures_run {plan : Plan} {w : Worker table} {v : View}
    (hw : w.Standing id plan.heapSlotsPerWorker share held [] none v) (hplan : w.plan = plan)
    (hsizes : w.sizes = table.start)
    (houtline : w.slots.outline = .start plan.heapSlotsPerWorker) :
    w.run.Ensures a (.retagging share) v fun result v' =>
      ∃ gone lost, Left id plan table share held gone lost result v' := by
  unfold run
  refine (Routine.ensures_note hw.holds _).bind fun _ u ⟨hu, hj⟩ => ?_
  have hworker : w.Standing id plan.heapSlotsPerWorker share held [] none u := by
    refine ⟨hw.id_eq, hw.share_eq, hw.lost_ahead, hw.filled, hu, ?_, hw.foreignFrees⟩
    rw [hj]
    exact hw.stock.noted _
  refine (ensures_workOff hnodup hforeign hworker).bind ?_
  rintro ⟨result, w'⟩ x ⟨gone, lost, hw', hcase⟩
  refine (LiveSlots.ensures_releaseAll hw'.holds).bind ?_
  rintro ⟨_, slots⟩ y ⟨hy, hout, hj'⟩
  obtain ⟨-, rfl⟩ := Prod.mk.inj hout
  have hshare : ∃ rest, share = gone ++ rest ∧ ∀ s, lost = some s → rest.head? = some s :=
    ⟨w'.ahead, hw'.share_eq, fun s hs => (hw'.lost_ahead s hs).1⟩
  have hlost : ∀ s, lost = some s → (held s).isSome := fun s hs => (hw'.lost_ahead s hs).2
  have hthread : y.journal.thread = .worker id := by
    rw [hj']
    exact (Journal.thread_returned _ _).trans hw'.stock.thread
  have hcustody : Custody y.journal [] (gone.filterMap held) := by
    have := hw'.stock.custody
    rw [← List.append_nil w'.slots.blocks] at this
    rw [hj']
    exact this.returned.counted _
  rcases hcase with ⟨e, rfl, he⟩ | ⟨rfl, rfl, hall, ho⟩
  · exact Routine.ensures_pure fun _ hpool => ⟨gone, lost, hshare, hlost, hw'.filled,
      hy.shift hpool, hthread, hcustody, Or.inl ⟨e, rfl, he⟩⟩
  · refine (Routine.ensures_note hy _).bind fun _ z ⟨hz, hj''⟩ => ?_
    have hbalance := hw'.stock.regular.clear.balance
    rw [LiveSlots.live_eq_length, LiveSlots.blocks_clear] at hbalance
    rw [hplan, hsizes, houtline] at ho
    have hallocated : w'.slots.clear.allocated = _ := congrArg LiveSlots.Outline.allocated ho
    have hretires : w'.slots.clear.retires = _ := congrArg LiveSlots.Outline.retires ho
    refine Routine.ensures_pure fun _ hpool => ⟨gone, none, hshare, hlost, hw'.filled,
      hz.shift hpool, ?_, ?_, Or.inr ⟨rfl, hall, ?_⟩⟩
    · rw [hj'']
      exact hthread
    · rw [hj'']
      exact hcustody.noted _
    · have hfrees : w'.slots.clear.freed = w'.slots.clear.allocated := by simpa using hbalance.symm
      have hid : w'.id = id := hw'.id_eq
      have hforeignFrees : w'.foreignFrees = UInt64.ofNat gone.length := hw'.foreignFrees rfl
      simp only [report, Plan.report, hid, hfrees, hallocated, hretires, hforeignFrees]

theorem ensures_attempt {plan : Plan} {inbox : Option Inbox} {v : View}
    (hshare : share = inbox.elim [] Inbox.ahead) (hv : v.Holds share held)
    (hj : v.journal = { thread := .worker id }) :
    (attempt id plan table inbox).Ensures a (.retagging share) v fun result v' =>
      ∃ gone lost, Left id plan table share held gone lost result v' := by
  unfold attempt
  rcases create_cases id plan table inbox with hcreate | hcreate
  · rw [hcreate]
    refine (Routine.ensures_reserve hv _).bind ?_
    rintro reserved u ⟨hu, hsame⟩
    have hj' : u.journal = { thread := .worker id } := hsame.trans hj
    cases reserved with
    | true =>
        refine ensures_run hnodup hforeign ⟨rfl, hshare, nofun, nofun, ?_,
          ⟨congrArg Journal.thread hj', ?_, LiveSlots.regular_empty _⟩, fun _ => rfl⟩ rfl rfl rfl
        · simpa using hu
        · rw [LiveSlots.blocks_empty]
          exact hj' ▸ .start (.worker id)
    | false => exact Routine.ensures_pure fun _ hpool => ⟨[], none, .barren (hu.shift hpool) hj'⟩
  · rw [hcreate]
    exact Routine.ensures_pure fun _ hpool => ⟨[], none, .barren (hv.shift hpool) hj⟩

/-- The whole thread of a worker whose slots ahead are its share. -/
theorem ensures_thread {plan : Plan} {inbox : Option Inbox} {v : View}
    (hshare : share = inbox.elim [] Inbox.ahead) (hv : v.Holds share held)
    (hj : v.journal = { thread := .worker id }) :
    (thread id plan table inbox).Ensures a (.retagging share) v fun result v' =>
      ∃ gone lost, Left id plan table share held gone lost result v' := by
  unfold thread
  refine (ensures_attempt hnodup hforeign hshare hv hj).bind ?_
  rintro result w ⟨gone, lost, hleft⟩
  cases result with
  | error e =>
      refine (Routine.ensures_note hleft.holds _).bind fun _ u ⟨hu, hj'⟩ => ?_
      exact Routine.ensures_pure fun _ hpool => ⟨gone, lost, (hleft.noted hu hj').shift hpool⟩
  | ok r => exact Routine.ensures_pure fun _ hpool => ⟨gone, lost, hleft.shift hpool⟩

end Contracts

end Worker

end HeapChurn
