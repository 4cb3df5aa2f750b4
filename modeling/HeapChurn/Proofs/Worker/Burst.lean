import HeapChurn.Proofs.Inbox.Partition
import HeapChurn.Proofs.Pool.Population
import HeapChurn.Proofs.Worker.Stream

/-!
# The burst does not matter

Workers that differ in their burst alone have the same result and deal with the same live blocks in
the same order. The burst says when the foreign blocks are freed, and nothing else: they are freed
in the order of the inbox, so many in each iteration, and all of them by the end of a run that
succeeds.

The events of a worker part in two. Those about blocks of its own calls since the start are the
events of the live slots; a foreign block was obtained before.
-/

namespace HeapChurn

namespace Trace

variable {live new : List Event} {blocks : List Block} {p : Event → Bool}

theorem Woven.filter_live (h : Woven [live, blocks.map .released] new)
    (hlive : ∀ e ∈ live, p e = true) (hblocks : ∀ b ∈ blocks, p (.released b) = false) :
    new.filter p = live ∧ (new.filter fun e => !p e) = blocks.map .released := by
  constructor
  · rw [h.filter_eq (i := 0) rfl, List.filter_eq_self.mpr hlive]
    intro j k hj hk
    rcases j with _ | _ | j
    · exact absurd rfl hj
    · obtain rfl := Option.some.inj hk
      simpa using hblocks
    · cases hk
  · rw [h.filter_eq (i := 1) rfl, List.filter_eq_self.mpr]
    · simpa using hblocks
    · intro j k hj hk
      rcases j with _ | _ | j
      · obtain rfl := Option.some.inj hk
        simpa using hlive
      · exact absurd rfl hj
      · cases hk

end Trace

namespace Worker

variable {table : Histogram} {a : Allocator}

/-- A worker up to the end of the drain of its iteration `i`, counted from 0. -/
def throughDrain (w : Worker table) (i : Nat) : Routine (Except Error Unit × Worker table) := do
  Routine.note (.workerStarted w.id w.slots.capacity w.plan.iterationsPerWorker w.remaining)
  match ← iterations i w with
  | (.error e, w) => return (.error e, w)
  | (.ok _, w) => w.drain w.plan.foreignBurst

theorem iterations_add : ∀ (m n : Nat) (w : Worker table), iterations (m + n) w = do
    match ← iterations m w with
    | (.error e, w) => return (.error e, w)
    | (.ok _, w) => iterations n w
  | 0, n, w => by
      rw [Nat.zero_add]
      rfl
  | m + 1, n, w => by
      rw [Nat.add_right_comm, iterations, iterations, bind_assoc]
      refine bind_congr fun out => ?_
      obtain ⟨result, w'⟩ := out
      cases result with
      | error e => rfl
      | ok _ => exact iterations_add m n w'

/-- What is done at the end of a drain stands at the front of what the run does. -/
theorem events_throughDrain_prefix (w : Worker table) (v : View) {i : Nat}
    (hi : i < w.plan.iterationsPerWorker) :
    ((w.throughDrain i).run a v).2.journal.events.toList
      <+: (w.run.run a v).2.journal.events.toList := by
  obtain ⟨n, hn⟩ := Nat.exists_eq_add_of_lt hi
  have hdrain : ((w.throughDrain i).run a v).2.journal.events.toList
      <+: ((iterations w.plan.iterationsPerWorker w).run a
        (w.started v)).2.journal.events.toList := by
    rw [hn, Nat.add_assoc, iterations_add, Routine.run_bind]
    show ((iterations i w >>= _).run a (w.started v)).2.journal.events.toList <+: _
    rw [Routine.run_bind]
    obtain ⟨⟨result, w'⟩, v'⟩ := (iterations i w).run a (w.started v)
    cases result with
    | error e => exact List.prefix_refl _
    | ok _ => exact (Routine.events_bind_prefix _ _ v').trans (Routine.events_bind_prefix _ _ v')
  refine hdrain.trans (List.IsPrefix.trans ?_
    (Routine.events_bind_prefix w.workOff _ (w.started v)))
  exact Routine.events_bind_prefix _ _ _

namespace Along

variable {w₀ w : Worker table} {v₀ v : View} {sizes gone : List Nat} {result : Except Error Unit}

/-- The events of a worker part in those of the reference and the frees of foreign blocks. -/
theorem split (h : Along a w₀ v₀ sizes gone result w v)
    (hold : ∀ s ∈ w₀.ahead, ∀ b, v₀.pool.blockAt s = some b → v₀.journal.precedes b = false) :
    ∃ live new,
      (LiveSlots.alone a w₀.plan.heapSlotsPerWorker v₀.journal sizes).2.journal.events.toList
          = v₀.journal.events.toList ++ live
        ∧ v.journal.events.toList = v₀.journal.events.toList ++ new
        ∧ new.filter (fun e => v₀.journal.precedes e.block) = live
        ∧ (new.filter fun e => !v₀.journal.precedes e.block)
          = (gone.filterMap v₀.pool.blockAt).map .released := by
  obtain ⟨live, new, hlive, hnew, hwoven⟩ := h.woven
  obtain ⟨obtained, live', htrail⟩ :=
    LiveSlots.alone_trail a w₀.plan.heapSlotsPerWorker v₀.journal sizes
  obtain rfl : live = live' := List.append_cancel_left (hlive.symm.trans htrail.events_eq)
  have hfilter := hwoven.filter_live (p := fun e => v₀.journal.precedes e.block)
    htrail.precedes_new fun b hb => by
      obtain ⟨s, hs, hsb⟩ := List.mem_filterMap.mp hb
      exact hold s (h.share_eq ▸ List.mem_append_left _ hs) b hsb
  exact ⟨live, new, hlive, hnew, hfilter⟩

theorem blocks_eq_take (h : Along a w₀ v₀ sizes gone result w v)
    (hfilled : ∀ s ∈ w₀.ahead, (v₀.pool.blockAt s).isSome) :
    gone.filterMap v₀.pool.blockAt
      = (w₀.ahead.filterMap v₀.pool.blockAt).take gone.length := by
  have hlength : (gone.filterMap v₀.pool.blockAt).length = gone.length :=
    List.filterMap_length_eq_length.mpr fun s hs =>
      hfilled s (h.share_eq ▸ List.mem_append_left _ hs)
  rw [h.share_eq, List.filterMap_append, List.take_left' hlength]

end Along

/-- An inbox on a pool that was filled before: its slots are distinct and hold blocks that name them
and that were obtained earlier. -/
structure Loaded (a : Allocator) (inbox : Inbox) (v : View) : Prop where
  quiet : ∀ call, a.overwrites v.journal.thread call = []
  distinct : inbox.ahead.Nodup
  filled : ∀ s ∈ inbox.ahead, ∃ b, v.pool[s]? = some (some ⟨b, s⟩) ∧ v.journal.precedes b = false

namespace Loaded

variable {inbox : Inbox} {v : View}

theorem blockAt (h : Loaded a inbox v) {s : Nat} (hs : s ∈ inbox.ahead) :
    ∃ b, v.pool.blockAt s = some b ∧ v.journal.precedes b = false := by
  obtain ⟨b, hb, hold⟩ := h.filled s hs
  refine ⟨b, ?_, hold⟩
  rw [PoolSlots.blockAt, hb]
  rfl

theorem isSome (h : Loaded a inbox v) : ∀ s ∈ inbox.ahead, (v.pool.blockAt s).isSome := by
  intro s hs
  obtain ⟨b, hb, -⟩ := h.blockAt hs
  rw [hb]
  rfl

theorem old (h : Loaded a inbox v) : ∀ s ∈ inbox.ahead, ∀ b, v.pool.blockAt s = some b →
    v.journal.precedes b = false := by
  intro s hs b hb
  obtain ⟨c, hc, hold⟩ := h.blockAt hs
  rw [hc, Option.some.injEq] at hb
  rw [← hb]
  exact hold

theorem tidy (h : Loaded a inbox v) {w : Worker table} (hw : w.inbox = some inbox) :
    w.Tidy a v := by
  have hahead : w.ahead = inbox.ahead := by
    rw [ahead, hw]
    rfl
  refine ⟨h.quiet, hahead ▸ h.distinct, fun s hs c hc => ?_⟩
  obtain ⟨b, hb, -⟩ := h.filled s (hahead ▸ hs)
  rw [hb] at hc
  cases hc
  rfl

end Loaded

/-- The inboxes of a pool that was filled for them are loaded when the workers start. -/
theorem loaded_of_filled {layout : Layout} {p : Plan} {v : View}
    (hfilled : Pool.Filled a layout p.foreignTotal v)
    (hquiet : ∀ thread call, a.overwrites thread call = []) {k : Nat} (hk : k < p.workers)
    {inbox : Inbox} (hinbox : p.inboxes[k]? = some inbox) :
    Loaded a inbox ⟨v.pool, { thread := .worker k }⟩ := by
  rw [Plan.getElem?_inboxes hk] at hinbox
  cases hinbox
  refine ⟨hquiet _, p.nodup_share k, fun s hs => ?_⟩
  have hblock := hfilled.block s (Plan.mem_share.mp hs).2.1
  obtain ⟨⟨b, tag⟩, htagged, hb⟩ := Option.map_eq_some_iff.mp hblock
  have hslot := Option.join_eq_some_iff.mp htagged
  obtain rfl : tag = s := hfilled.honest (hquiet _) s _ hslot
  refine ⟨b, hslot, ?_⟩
  rw [show b = Pool.blockOf layout tag from hb]
  rfl

theorem along_throughDrain {w : Worker table} {v : View} (htidy : w.Tidy a v)
    (hslots : w.slots = .empty w.plan.heapSlotsPerWorker) (hsizes : w.sizes = table.start)
    (hforeignFrees : w.foreignFrees = 0)
    (hfilled : ∀ s ∈ w.ahead, (v.pool.blockAt s).isSome) {i : Nat}
    (hok : ((w.throughDrain i).run a v).1.1 = .ok ()) :
    ∃ w' gone, Along a w v (table.stream i) gone (.ok ()) w' ((w.throughDrain i).run a v).2
      ∧ gone.length = burstBy w.plan.foreignBurst w.ahead.length 0 (i + 1) := by
  have hstart : Along a w v [] [] (.ok ()) w (w.started v) := .start hslots hforeignFrees _
  obtain ⟨result, w', v', gone, hrun, hend, hcount⟩ := Along.iterations htidy i hstart
  have hthrough : (w.throughDrain i).run a v = (iterations i w >>= fun out =>
      match out with
      | (.error e, w) => pure (.error e, w)
      | (.ok _, w) => w.drain w.plan.foreignBurst).run a (w.started v) := rfl
  rw [hsizes, List.nil_append, Histogram.stream_start] at hend
  rw [Routine.run_bind, hrun] at hthrough
  cases result with
  | error e =>
      rw [hthrough] at hok
      cases hok
  | ok _ =>
      obtain ⟨w'', v'', hdrain, hend', -⟩ := hend.drain htidy w'.plan.foreignBurst
      rw [hthrough.trans hdrain]
      refine ⟨w'', _, hend', ?_⟩
      rw [hend.length_drained hfilled, hcount rfl hfilled, hend.plan_eq, burstBy_add]
      rfl

/-- The report of worker `id` over this buffer, after so many foreign frees. -/
def reportOf (id : Nat) (s : LiveSlots) (foreignFrees : Nat) : WorkerReport where
  worker := id
  allocations := s.allocated
  frees := s.freed
  retires := s.retires
  foreignFrees := UInt64.ofNat foreignFrees

/-- A whole run in terms of the reference and of the slots whose blocks it freed. -/
theorem run_split {w : Worker table} {v : View} (htidy : w.Tidy a v)
    (hslots : w.slots = .empty w.plan.heapSlotsPerWorker) (hsizes : w.sizes = table.start)
    (hforeignFrees : w.foreignFrees = 0)
    (hfilled : ∀ s ∈ w.ahead, (v.pool.blockAt s).isSome)
    (hold : ∀ s ∈ w.ahead, ∀ b, v.pool.blockAt s = some b → v.journal.precedes b = false) :
    let alone := LiveSlots.alone a w.plan.heapSlotsPerWorker v.journal
      (table.stream w.plan.iterationsPerWorker)
    ∃ live new k, alone.2.journal.events.toList = v.journal.events.toList ++ live
      ∧ (w.run.run a v).2.journal.events.toList = v.journal.events.toList ++ new
      ∧ new.filter (fun e => v.journal.precedes e.block)
        = live ++ alone.1.2.blocks.map .released
      ∧ (new.filter fun e => !v.journal.precedes e.block)
        = ((w.ahead.filterMap v.pool.blockAt).take k).map .released
      ∧ (w.run.run a v).1
        = alone.1.1.map (fun _ => reportOf w.id alone.1.2.clear w.ahead.length)
      ∧ (alone.1.1 = .ok () → k = w.ahead.length) := by
  intro alone
  obtain ⟨result, w', v', gone, halong, hresult, hevents, hgone⟩ :=
    run_along htidy hslots hsizes hforeignFrees
  obtain ⟨live, new, hlive, hnew, hfilter, hfilter'⟩ := halong.split hold
  obtain ⟨obtained, live', htrail⟩ := LiveSlots.alone_trail a w.plan.heapSlotsPerWorker v.journal
    (table.stream w.plan.iterationsPerWorker)
  have hserved : alone.1 = (result, w'.slots) := halong.served
  have hlate : ∀ b ∈ w'.slots.blocks, v.journal.precedes b = true := by
    intro b hb
    refine htrail.precedes_blocks b ?_
    rw [show (LiveSlots.alone _ _ _ _).1 = _ from hserved]
    exact hb
  rw [hserved]
  refine ⟨live, new ++ w'.slots.blocks.map .released, gone.length, hlive, ?_, ?_, ?_, ?_, ?_⟩
  · rw [hevents, hnew, List.append_assoc]
  · rw [List.filter_append, hfilter, List.filter_eq_self.mpr]
    simpa using hlate
  · rw [List.filter_append, hfilter', ← halong.blocks_eq_take hfilled, List.append_right_eq_self]
    simpa using hlate
  · rw [hresult]
    cases result with
    | error e => rfl
    | ok _ =>
        have hid : w'.id = w.id := halong.id_eq
        have hfreed : w'.foreignFrees = UInt64.ofNat w.ahead.length := by
          rw [halong.foreignFrees, hgone rfl hfilled]
        simp only [Except.map, report, reportOf, hid, hfreed]
  · intro hok
    rw [hgone hok hfilled]

/-- Runs that differ in the burst alone have one result and one sequence of live events. What they
have freed of the `blocks` of the inbox is a first part, all of it if they succeed; and when a drain
is over it is as much as the bursts up to then allow. -/
theorem run_independent_of_burst {inbox : Inbox} {v : View} (h : Loaded a inbox v)
    (table : Histogram) (plan : Plan) (id : Nat) :
    let blocks := inbox.ahead.filterMap v.pool.blockAt
    ∃ (result : Except Error WorkerReport) (live : List Event),
      ∀ (burst : Option Nat) (w : Worker table),
        create id { plan with foreignBurst := burst } table (some inbox) = .ok w →
        (w.run.run a v).1 = result
          ∧ ∃ new, (w.run.run a v).2.journal.events.toList = v.journal.events.toList ++ new
            ∧ new.filter (fun e => v.journal.precedes e.block) = live
            ∧ (∃ k, (new.filter fun e => !v.journal.precedes e.block)
                = (blocks.take k).map .released
              ∧ ∀ report, result = .ok report → k = blocks.length)
            ∧ ∀ i < plan.iterationsPerWorker, ((w.throughDrain i).run a v).1.1 = .ok () →
              ∃ early, ((w.throughDrain i).run a v).2.journal.events.toList
                  = v.journal.events.toList ++ early
                ∧ early <+: new
                ∧ (early.filter fun e => !v.journal.precedes e.block)
                  = (blocks.take (burst.elim blocks.length fun b =>
                    min blocks.length ((i + 1) * b))).map .released := by
  intro blocks
  have hlength : blocks.length = inbox.ahead.length :=
    List.filterMap_length_eq_length.mpr h.isSome
  let fresh (burst : Option Nat) : Worker table :=
    { id, plan := { plan with foreignBurst := burst }, inbox := some inbox,
      slots := .empty plan.heapSlotsPerWorker, sizes := table.start }
  -- the reference is the same for every burst
  let alone := LiveSlots.alone a plan.heapSlotsPerWorker v.journal
    (table.stream plan.iterationsPerWorker)
  obtain ⟨live, -, -, hlive, -⟩ :=
    run_split (h.tidy (w := fresh none) rfl) rfl rfl rfl h.isSome h.old
  refine ⟨alone.1.1.map fun _ => reportOf id alone.1.2.clear inbox.ahead.length,
    live ++ alone.1.2.blocks.map .released, fun burst w hcreate => ?_⟩
  obtain rfl := create_eq_ok hcreate
  obtain ⟨live', new, k, hlive', hnew, hfilter, hforeign, hresult, hk⟩ :=
    run_split (h.tidy (w := fresh burst) rfl) rfl rfl rfl h.isSome h.old
  obtain rfl : live = live' := List.append_cancel_left (hlive.symm.trans hlive')
  refine ⟨hresult, new, hnew, hfilter, ⟨k, hforeign, fun report hreport => ?_⟩,
    fun i hi hok => ?_⟩
  · rw [hlength]
    refine hk ?_
    show alone.1.1 = _
    cases hend : alone.1.1 with
    | ok _ => rfl
    | error e =>
        rw [hend] at hreport
        cases hreport
  · obtain ⟨w', gone, halong, hgone⟩ := along_throughDrain (h.tidy (w := fresh burst) rfl) rfl rfl
      rfl h.isSome hok
    obtain ⟨-, early, -, hearly, -, hfreed⟩ := halong.split h.old
    have hprefix := events_throughDrain_prefix (a := a) (fresh burst) v hi
    rw [hnew, hearly, List.prefix_append_right_inj] at hprefix
    refine ⟨early, hearly, hprefix, ?_⟩
    have hcount : gone.length
        = burst.elim inbox.ahead.length fun b => min inbox.ahead.length ((i + 1) * b) := by
      refine hgone.trans ?_
      show burstBy burst inbox.ahead.length 0 (i + 1) = _
      simp only [burstBy, Nat.zero_add]
    rw [hfreed, halong.blocks_eq_take h.isSome, hcount, hlength]
    rfl

/-- The third request is on the retire schedule and the fifth fails, whatever the burst. -/
theorem run_independent_of_burst_refused :
    let a : Allocator := { refuses := fun _ call _ => call = 3, overwrites := fun _ _ => [] }
    let table : Histogram := ⟨[⟨16, 2⟩, ⟨8, 0⟩, ⟨24, 3⟩], by decide, by decide⟩
    let plan : Plan := ⟨1, 2, 4, 3, 3, 3, none⟩
    let inbox : Inbox := ⟨0, [0, 1, 2], [0, 1, 2]⟩
    let block (s : Nat) : Block := ⟨⟨.main, s⟩, ⟨16, 8⟩⟩
    let v : View := ⟨#[some ⟨block 0, 0⟩, some ⟨block 1, 1⟩, some ⟨block 2, 2⟩],
      { thread := .worker 0 }⟩
    Loaded a inbox v ∧ ∀ (burst : Option Nat) (w : Worker table),
      create 0 { plan with foreignBurst := burst } table (some inbox) = .ok w →
      (w.run.run a v).1 = .error (.outOfMemory 24) := by
  intro a table plan inbox block v
  have hmade : ((Pool.populate plan 16).run a ⟨#[], { thread := .main }⟩).1 = .ok () := by
    decide +kernel
  obtain ⟨layout, hfilled⟩ := Pool.filled_of_ok hmade
  have hpool : ((Pool.populate plan 16).run a ⟨#[], { thread := .main }⟩).2.pool = v.pool := by
    decide +kernel
  have hinbox : plan.inboxes[0]? = some inbox := by decide +kernel
  have hloaded := loaded_of_filled hfilled (fun _ _ => rfl) (by decide) hinbox
  rw [hpool] at hloaded
  obtain ⟨result, live, hall⟩ := run_independent_of_burst hloaded table plan 0
  have hresult : result = .error (.outOfMemory 24) :=
    (hall none _ rfl).1.symm.trans (by decide +kernel)
  exact ⟨hloaded, fun burst w hcreate => hresult ▸ (hall burst w hcreate).1⟩

end Worker

end HeapChurn
