import HeapChurn.Proofs.Harness.Memory

/-!
# All of the pool or nothing

Each slot of the pool is filled by the call of its number, so the allocator decides by the numbers of
its calls alone how far the filling gets. Where no slot is barred the pool is full. Where one is, the
filling stops in front of the first such slot, and what was obtained until then goes back in slot order
(`run_populate_barred`). A run that ends there has never started a worker.
-/

namespace HeapChurn

namespace Layout

/-- What is asked for to fill a slot with a block of so many bytes. -/
def foreign (blockSize : Nat) : Layout := ⟨max blockSize 8, blockAlign⟩

theorem eq_foreign {blockSize : Nat} {layout : Layout} (h : forForeign? blockSize = some layout) :
    layout = foreign blockSize := by
  simp only [forForeign?, ofSize?] at h
  split at h
  · exact (Option.some.inj h).symm
  · cases h

end Layout

/-- Nothing is outstanding where everything that was granted was handed back. -/
theorem Trace.leaked_eq_nil {events : List Event}
    (h : ∀ b, .granted b ∈ events → .released b ∈ events) : leaked events = [] := by
  refine List.eq_nil_iff_forall_not_mem.mpr fun id hid => ?_
  obtain ⟨⟨b, hb, rfl⟩, hkept⟩ := mem_leaked.mp hid
  exact hkept b (h b hb) rfl

namespace Pool

/-- The slot cannot be filled: a block of this size has no layout, or the call of that number is
refused. -/
def Barred (a : Allocator) (blockSize slot : Nat) : Prop :=
  Layout.forForeign? blockSize = none ∨ a.refuses .main slot (Layout.foreign blockSize).size = true

instance (a : Allocator) (blockSize slot : Nat) : Decidable (Barred a blockSize slot) :=
  inferInstanceAs (Decidable (_ ∨ _))

theorem refuses_of_not_barred {a : Allocator} {blockSize slot : Nat}
    (h : ¬Barred a blockSize slot) :
    a.refuses .main slot (Layout.foreign blockSize).size = false := by
  rw [Bool.eq_false_iff]
  intro hrefused
  exact h (Or.inr hrefused)

/-- The first `k` slots hold their blocks, and the request for the next one was refused. -/
structure Halted (layout : Layout) (k : Nat) (v : View) : Prop extends Stored layout k v where
  events : v.journal.events.toList = ((List.range k).map fun s => .granted (blockOf layout s))
    ++ [.refused (blockOf layout k)]

/-- What an allocator sees of a pool that is filled up to slot `k` and given back. -/
def rolledBack (blockSize k : Nat) : List Event :=
  ((List.range k).map fun s => .granted (blockOf (.foreign blockSize) s))
    ++ (if Layout.forForeign? blockSize = none then []
      else [.refused (blockOf (.foreign blockSize) k)])
    ++ (List.range k).map fun s => .released (blockOf (.foreign blockSize) s)

variable {a : Allocator} {layout : Layout} {blockSize : Nat} {p : Plan}

/-! ## The filling -/

section Fill

variable (hlayout : Layout.forForeign? blockSize = some layout)

include hlayout

theorem run_fill_granted (count : Nat) {slot : Nat} {v : View} (h : Filled a layout slot v)
    (hanswer : a.refuses .main slot layout.size = false) :
    ∃ w, Filled a layout (slot + 1) w
      ∧ (fill blockSize (count + 1) slot).run a v = (fill blockSize count (slot + 1)).run a w := by
  refine ⟨_, h.push .foreignAlloc, ?_⟩
  rw [fill, hlayout, Routine.run_bind]
  simp only [Routine.requestIf, Routine.request, Routine.perform, Routine.run, Action.perform,
    h.thread, h.calls, hanswer, Bool.false_eq_true, if_false]
  rfl

theorem run_fill_refused (count : Nat) {slot : Nat} {v : View} (h : Filled a layout slot v)
    (hanswer : a.refuses .main slot layout.size = true) :
    ((fill blockSize (count + 1) slot).run a v).1 = count + 1
      ∧ Halted layout slot ((fill blockSize (count + 1) slot).run a v).2 := by
  rw [fill, hlayout, Routine.run_bind]
  simp only [Routine.requestIf, Routine.request, Routine.perform, Routine.run, Action.perform,
    h.thread, h.calls, hanswer, if_true]
  refine ⟨rfl, h.refused _, ?_⟩
  rw [h.nextBlock]
  refine Array.toList_push.trans ?_
  rw [h.events]

/-- As long as nothing is refused the filling goes on. -/
theorem run_fill_all : ∀ (count : Nat) {slot : Nat} {v : View}, Filled a layout slot v →
    (∀ s, slot ≤ s → s < slot + count → a.refuses .main s layout.size = false) →
    ((fill blockSize count slot).run a v).1 = 0
      ∧ Filled a layout (slot + count) ((fill blockSize count slot).run a v).2
  | 0, _, _, h, _ => ⟨rfl, h⟩
  | count + 1, slot, v, h, hall => by
      obtain ⟨w, hw, hrun⟩ := run_fill_granted hlayout count h
        (hall slot (Nat.le_refl slot) (by omega))
      rw [hrun, show slot + (count + 1) = slot + 1 + count by omega]
      exact run_fill_all count hw fun s hle hlt => hall s (by omega) (by omega)

/-- It ends in front of the first slot for which a request is refused. -/
theorem run_fill_until {k : Nat} (hk : a.refuses .main k layout.size = true) :
    ∀ (count : Nat) {slot : Nat} {v : View}, Filled a layout slot v → slot ≤ k → k < slot + count →
    (∀ s, slot ≤ s → s < k → a.refuses .main s layout.size = false) →
    ((fill blockSize count slot).run a v).1 = slot + count - k
      ∧ Halted layout k ((fill blockSize count slot).run a v).2
  | 0, slot, _, _, hle, hlt, _ => absurd (Nat.lt_of_le_of_lt hle hlt) (Nat.lt_irrefl slot)
  | count + 1, slot, v, h, hle, hlt, hall => by
      rcases Nat.eq_or_lt_of_le hle with rfl | hlater
      · obtain ⟨hmissing, hhalted⟩ := run_fill_refused hlayout count h hk
        refine ⟨hmissing.trans ?_, hhalted⟩
        omega
      · obtain ⟨w, hw, hrun⟩ := run_fill_granted hlayout count h
          (hall slot (Nat.le_refl slot) hlater)
        rw [hrun, show slot + (count + 1) = slot + 1 + count by omega]
        exact run_fill_until hk count hw hlater (by omega) fun s hle' hlt' => hall s (by omega) hlt'

end Fill

/-! ## The pool -/

theorem run_populate_reserved {v : View} (hreservable : reservable p.foreignTotal = true)
    (hgranted : p.foreignTotal = 0 ∨ a.denies v.journal.thread p.foreignTotal = false) :
    (populate p blockSize).run a v = (fillUp p blockSize).run a v := by
  have hreserved : (Routine.reserve p.foreignTotal).run a v = (true, v) := by
    simp only [Routine.reserve, Routine.perform, Routine.run, Action.perform, Prod.mk.injEq, and_true]
    rcases hgranted with hzero | hgranted
    · simp [hzero]
    · simp [hgranted]
  unfold populate
  rw [if_pos hreservable, Routine.run_bind, hreserved]
  rfl

/-- The stored blocks go back in slot order. -/
theorem run_reclaim_stored {n : Nat} {v : View} (h : Stored layout n v) :
    ((reclaim n 0 0).run a v).2.journal.events.toList
      = v.journal.events.toList ++ (List.range n).map fun s => .released (blockOf layout s) := by
  have hjournal := (ensures_reclaim_all (a := a) n v).alone.run_self
  rw [hjournal, h.filterMap_blockAt, Journal.events_returned, List.map_map]
  rfl

theorem run_fillUp_halted {v : View} {k : Nat} (hk : k < p.foreignTotal)
    (hfill : ((fill blockSize p.foreignTotal 0).run a v).1 = p.foreignTotal - k)
    (hhalted : Halted layout k ((fill blockSize p.foreignTotal 0).run a v).2) :
    ((fillUp p blockSize).run a v).1 = .error (.outOfMemory blockSize)
      ∧ ((fillUp p blockSize).run a v).2.journal.events.toList
        = ((List.range k).map fun s => .granted (blockOf layout s))
          ++ [.refused (blockOf layout k)]
          ++ (List.range k).map fun s => .released (blockOf layout s) := by
  obtain ⟨m, hm⟩ : ∃ m, p.foreignTotal - k = m + 1 := ⟨p.foreignTotal - k - 1, by omega⟩
  unfold fillUp
  rw [Routine.run_bind]
  generalize (fill blockSize p.foreignTotal 0).run a v = out at hfill hhalted
  obtain ⟨missing, w⟩ := out
  obtain rfl : missing = m + 1 := hfill.trans hm
  -- what was not filled is the rest of the slots, so the first `k` of them go back
  have hback := run_reclaim_stored (a := a) hhalted.toStored
  rw [hhalted.events] at hback
  simp only [Routine.run_bind, show p.foreignTotal - (m + 1) = k by omega]
  exact ⟨rfl, hback⟩

section Populate

variable {v : View} (hv : Filled a (.foreign blockSize) 0 v)
  (hreservable : reservable p.foreignTotal = true)
  (hgranted : p.foreignTotal = 0 ∨ a.denies v.journal.thread p.foreignTotal = false)

include hv hreservable hgranted

/-- Where no slot is barred the pool is filled. -/
theorem run_populate_all (hall : ∀ s < p.foreignTotal, ¬Barred a blockSize s) :
    ((populate p blockSize).run a v).1 = .ok ()
      ∧ Filled a (.foreign blockSize) p.foreignTotal ((populate p blockSize).run a v).2 := by
  have hfill : ((fill blockSize p.foreignTotal 0).run a v).1 = 0
      ∧ Filled a (.foreign blockSize) p.foreignTotal
        ((fill blockSize p.foreignTotal 0).run a v).2 := by
    cases htotal : p.foreignTotal with
    | zero => exact ⟨rfl, hv⟩
    | succ count =>
        have hfirst := hall 0 (by omega)
        obtain ⟨layout, hlayout⟩ := Option.ne_none_iff_exists'.mp fun hnone => hfirst (Or.inl hnone)
        have hforeign := Layout.eq_foreign hlayout
        subst hforeign
        have hrun := run_fill_all hlayout (count + 1) hv fun s _ hs =>
          refuses_of_not_barred (hall s (by omega))
        rw [Nat.zero_add] at hrun
        exact hrun
  rw [run_populate_reserved hreservable hgranted]
  unfold fillUp
  rw [Routine.run_bind]
  generalize (fill blockSize p.foreignTotal 0).run a v = out at hfill
  obtain ⟨missing, w⟩ := out
  obtain ⟨rfl, hw⟩ := hfill
  exact ⟨rfl, hw.noted _⟩

/-- Where a slot is barred the blocks in front of it are obtained and go back again. -/
theorem run_populate_barred {k : Nat} (hk : k < p.foreignTotal) (hbarred : Barred a blockSize k)
    (hall : ∀ s < k, ¬Barred a blockSize s) :
    ((populate p blockSize).run a v).1 = .error (.outOfMemory blockSize)
      ∧ ((populate p blockSize).run a v).2.journal.events.toList = rolledBack blockSize k := by
  unfold rolledBack
  cases hlayout : Layout.forForeign? blockSize with
  | none =>
      -- without a layout even the first slot is barred
      obtain rfl : k = 0 := Nat.eq_zero_of_not_pos fun hpos => hall 0 hpos (Or.inl hlayout)
      have htotal : p.foreignTotal ≠ 0 := Nat.ne_zero_of_lt hk
      rw [run_populate_of_no_layout hreservable htotal (hgranted.resolve_left htotal) hlayout]
      exact ⟨rfl, hv.events⟩
  | some layout =>
      obtain rfl := Layout.eq_foreign hlayout
      have hrefused : a.refuses .main k (Layout.foreign blockSize).size = true := by
        refine hbarred.resolve_left fun hnone => ?_
        rw [hlayout] at hnone
        cases hnone
      obtain ⟨hfill, hhalted⟩ := run_fill_until hlayout hrefused p.foreignTotal hv
        (Nat.zero_le k) (by omega) fun s _ hs => refuses_of_not_barred (hall s hs)
      rw [Nat.zero_add] at hfill
      rw [run_populate_reserved hreservable hgranted, if_neg nofun]
      exact run_fillUp_halted hk hfill hhalted

end Populate

theorem leaked_rolledBack (blockSize k : Nat) : Trace.leaked (rolledBack blockSize k) = [] := by
  refine Trace.leaked_eq_nil fun b hb => ?_
  rcases List.mem_append.mp hb with hb | hb
  · rcases List.mem_append.mp hb with hb | hb
    · obtain ⟨s, hs, heq⟩ := List.mem_map.mp hb
      exact List.mem_append_right _ (List.mem_map.mpr ⟨s, hs, by rw [Event.granted.inj heq]⟩)
    · split at hb <;> simp at hb
  · simp at hb

end Pool

namespace Harness

variable {a : Allocator} {p : Plan} {config : Config} {h : Histogram}

/-- Before it fills the pool the main thread tells the log what it is about to do. -/
theorem run_prepare_populate (hplan : config.plan = .ok p) (htotal : p.foreignTotal ≠ 0) :
    ∃ v, (∀ layout, Pool.Filled a layout 0 v)
      ∧ (prepare config h).run a start
        = (((Pool.populate p h.firstSize).run a v).1.map fun _ => p,
          ((Pool.populate p h.firstSize).run a v).2) := by
  have hnotes : (config.planNotices.forM Routine.note).Ensures a .nobody start _ :=
    ensures_notes_filled _ (Pool.filled_start a)
  have htold : ∀ layout, Pool.Filled a layout 0
      ((config.planNotices.forM Routine.note).run a start).2 := hnotes.run_self
  unfold prepare
  rw [Routine.run_bind, hplan]
  generalize (config.planNotices.forM Routine.note).run a start = told at htold ⊢
  obtain ⟨_, w⟩ := told
  refine ⟨_, fun layout => (htold layout).noted (.workloadStarting p.workers
    p.heapSlotsPerWorker p.iterationsPerWorker p.foreignTotal), ?_⟩
  simp only [if_neg htotal]
  rw [Routine.run_bind, Routine.run_bind]
  simp only [show ∀ n, (Routine.note n).run a w = ((), ⟨w.pool, w.journal.noted n⟩) from
    fun _ => rfl]
  generalize (Pool.populate p h.firstSize).run a _ = out
  obtain ⟨result, u⟩ := out
  cases result with
  | error e => rfl
  | ok _ => rfl

/-- A run whose pool cannot be filled ends with that, and no worker was started. -/
theorem run_barred (hplan : config.plan = .ok p) (hreservable : reservable p.foreignTotal = true)
    (hgranted : p.foreignTotal = 0 ∨ a.denies .main p.foreignTotal = false) {k : Nat}
    (hk : k < p.foreignTotal) (hbarred : Pool.Barred a h.firstSize k)
    (hall : ∀ s < k, ¬Pool.Barred a h.firstSize s) (schedule : List Turn) :
    let r := run a config h schedule
    r.result = .error (.outOfMemory h.firstSize) ∧ r.workers = []
      ∧ r.closing.events.toList = Pool.rolledBack h.firstSize k := by
  obtain ⟨v, hv, hrun⟩ := run_prepare_populate (a := a) (h := h) hplan (Nat.ne_zero_of_lt hk)
  have hthread : v.journal.thread = .main := (hv ⟨0, 0⟩).thread
  obtain ⟨hresult, hevents⟩ := Pool.run_populate_barred (hv _) hreservable
    (by rwa [hthread]) hk hbarred hall
  have herror : ((prepare config h).run a start).1 = .error (.outOfMemory h.firstSize) := by
    rw [hrun, hresult]
    rfl
  rw [run_eq_of_error herror schedule, hrun]
  exact ⟨rfl, rfl, hevents⟩

end Harness

namespace Pool

theorem Filled.slot {n s : Nat} {v : View} (h : Filled a layout n v) (hs : s < n) :
    ∃ tag, v.pool[s]? = some (some ⟨blockOf layout s, tag⟩)
      ∧ ((∀ call, a.overwrites .main call = []) → tag = s) := by
  obtain ⟨⟨block, tag⟩, hslot, hblock⟩ := Option.map_eq_some_iff.mp (h.block s hs)
  have hslot' : v.pool[s]? = some (some ⟨block, tag⟩) := Option.join_eq_some_iff.mp hslot
  obtain rfl : block = blockOf layout s := hblock
  exact ⟨tag, hslot', fun hquiet => h.honest hquiet s _ hslot'⟩

/-- A pool is made whole or not at all. Where no slot is barred it is full, and slot after slot holds
the block of its number, under its tag if nothing is overwritten meanwhile. Where a slot is barred,
the blocks before the first such slot come and go again, and no worker is ever started. -/
theorem made_whole_or_not {a : Allocator} {p : Plan} (blockSize : Nat)
    (hreservable : reservable p.foreignTotal = true)
    (hgranted : p.foreignTotal = 0 ∨ a.denies .main p.foreignTotal = false) :
    let result := (made a p blockSize).1
    let pool := (made a p blockSize).2.pool
    let events := (made a p blockSize).2.journal.events.toList
    ((∀ s < p.foreignTotal, ¬Barred a blockSize s) →
        result = .ok () ∧ pool.size = p.foreignTotal ∧ pool.pending = p.foreignTotal
          ∧ events = (List.range p.foreignTotal).map
            (fun s => .granted (blockOf (.foreign blockSize) s))
          ∧ ∀ s < p.foreignTotal, ∃ tag,
            pool[s]? = some (some ⟨blockOf (.foreign blockSize) s, tag⟩)
              ∧ ((∀ call, a.overwrites .main call = []) → tag = s))
      ∧ ∀ k < p.foreignTotal, Barred a blockSize k → (∀ s < k, ¬Barred a blockSize s) →
        result = .error (.outOfMemory blockSize) ∧ events = rolledBack blockSize k
          ∧ Trace.leaked events = []
          ∧ ∀ (config : Config) (h : Histogram) (schedule : List Turn), config.plan = .ok p →
            h.firstSize = blockSize →
            let r := Harness.run a config h schedule
            r.result = .error (.outOfMemory blockSize) ∧ r.workers = []
              ∧ r.closing.events.toList = events := by
  intro result pool events
  have hstart := filled_start a (.foreign blockSize)
  refine ⟨fun hall => ?_, fun k hk hbarred hall => ?_⟩
  · obtain ⟨hok, hfilled⟩ := run_populate_all hstart hreservable hgranted hall
    have hpending := (Usage.Kept.start hfilled.toStored).pending
    rw [List.length_nil, Nat.zero_add] at hpending
    exact ⟨hok, hfilled.size, (Nat.zero_add _).symm.trans hpending, hfilled.events,
      fun s hs => hfilled.slot hs⟩
  · obtain ⟨hresult, hevents⟩ := run_populate_barred hstart hreservable hgranted hk hbarred hall
    refine ⟨hresult, hevents, ?_, fun config h schedule hplan hsize => ?_⟩
    · exact (congrArg Trace.leaked hevents).trans (leaked_rolledBack blockSize k)
    · subst hsize
      obtain ⟨hrun, hworkers, hclosing⟩ :=
        Harness.run_barred hplan hreservable hgranted hk hbarred hall schedule
      exact ⟨hrun, hworkers, hclosing.trans hevents.symm⟩

/-- The third of eight blocks is refused: two blocks come and go. -/
theorem made_whole_or_not_third_refused :
    let a : Allocator := {
      refuses := fun thread call _ => thread = .main && call = 2
      overwrites := fun _ _ => [] }
    let p : Plan := ⟨2, 3, 3, 8, 4, 2, none⟩
    let h : Histogram := ⟨[⟨4, 1⟩], by decide, by decide⟩
    (made a p 4).2.journal.events.toList = [.granted ⟨⟨.main, 0⟩, ⟨8, 8⟩⟩,
        .granted ⟨⟨.main, 1⟩, ⟨8, 8⟩⟩, .refused ⟨⟨.main, 2⟩, ⟨8, 8⟩⟩,
        .released ⟨⟨.main, 0⟩, ⟨8, 8⟩⟩, .released ⟨⟨.main, 1⟩, ⟨8, 8⟩⟩]
      ∧ (made a p 4).1 = .error (.outOfMemory 4)
      ∧ (Harness.run a ⟨6, 6, 2, 9, none⟩ h []).workers = [] := by
  intro a p h
  obtain ⟨hresult, hevents, -, hrun⟩ := (made_whole_or_not (a := a) (p := p) 4 (by decide)
    (Or.inr rfl)).2 2 (by decide) (by decide +kernel) (by decide +kernel)
  obtain ⟨-, hworkers, -⟩ := hrun ⟨6, 6, 2, 9, none⟩ h [] (by decide +kernel) rfl
  exact ⟨hevents.trans (by decide +kernel), hresult, hworkers⟩

end Pool

end HeapChurn
