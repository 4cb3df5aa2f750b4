import HeapChurn.Proofs.Harness.Course

/-!
# The lives of blocks in a run

What each thread of a run sees of a block, and so what any trace of the run shows of it. A block of a
worker is that worker's own affair. A foreign block is granted to the main thread, and then it is
handed back by the worker that owns its slot, or by the main thread in the end, or by nobody if the
worker lost it (`Course.life_of_slot`). A trace weaves the events of the workers in any order, and
since no two of them deal with one block the order is of no account.
-/

namespace HeapChurn

/-- A trace of the run: the main thread before the workers start, the workers in any order that keeps
the order of each, and the main thread after them. -/
def Run.Traced (r : Run) (t : List Event) : Prop :=
  ∃ mid, Trace.Woven (r.workers.map (·.journal.events.toList)) mid
    ∧ t = r.opening.events.toList ++ mid
      ++ r.closing.events.toList.drop r.opening.events.toList.length

/-- The trace in which the workers come one after the other. -/
def Run.oneByOne (r : Run) : List Event :=
  r.opening.events.toList ++ (r.workers.map (·.journal.events.toList)).flatten
    ++ r.closing.events.toList.drop r.opening.events.toList.length

theorem Run.traced_oneByOne (r : Run) : r.Traced r.oneByOne :=
  ⟨_, Trace.woven_flatten _, rfl⟩

namespace Harness

theorem filter_eq_of_nodup {l : List Nat} (h : l.Nodup) (s : Nat) :
    l.filter (· = s) = if s ∈ l then [s] else [] := by
  rw [List.filter_eq, h.count]
  split <;> rfl

/-- Of the blocks of some slots, those that are the block of slot `s`. -/
theorem about_blockOf {event : Block → Event} (hevent : ∀ b, (event b).block = b)
    (layout : Layout) {slots : List Nat} (h : slots.Nodup) (s : Nat) :
    Trace.about ⟨.main, s⟩ (slots.map fun s => event (Pool.blockOf layout s))
      = if s ∈ slots then [event (Pool.blockOf layout s)] else [] := by
  have hsame : ((fun e : Event => decide (e.block.id = ⟨.main, s⟩))
      ∘ fun s => event (Pool.blockOf layout s)) = (· = s) := by
    funext t
    simp [hevent, Pool.blockOf]
  rw [Trace.about, List.filter_map, hsame, filter_eq_of_nodup h]
  split <;> rfl

/-- No block of a worker is the block of a slot. -/
theorem about_blockOf_of_worker {event : Block → Event} (hevent : ∀ b, (event b).block = b)
    (layout : Layout) (slots : List Nat) {id : BlockId} {k : Nat} (hid : id.thread = .worker k) :
    Trace.about id (slots.map fun s => event (Pool.blockOf layout s)) = [] := by
  refine Trace.about_eq_nil fun e he heq => ?_
  obtain ⟨s, -, rfl⟩ := List.mem_map.mp he
  rw [hevent] at heq
  rw [← heq] at hid
  cases hid

theorem filterMap_eq_map_filter {β : Type} {f : Nat → Option β} {g : Nat → β} : ∀ {l : List Nat},
    (∀ s ∈ l, f s = none ∨ f s = some (g s)) →
      l.filterMap f = (l.filter fun s => (f s).isSome).map g
  | [], _ => rfl
  | s :: l, h => by
      have ih := filterMap_eq_map_filter fun t ht => h t (List.mem_cons_of_mem s ht)
      rcases h s List.mem_cons_self with hs | hs
      · simp [hs, ih]
      · simp [hs, ih]

namespace Course

variable {a : Allocator} {config : Config} {h : Histogram} {r : Run} {plan : Plan}
  {layout : Layout} {opened closed : PoolSlots}

section Stages

variable (hc : Course a config h r plan layout opened closed)

include hc

/-- The worker that owns a slot. -/
theorem owner {s : Nat} (hs : s < plan.foreignTotal) :
    s ∈ plan.share (s / plan.foreignChunk % plan.workers)
      ∧ ∃ f, r.workers[s / plan.foreignChunk % plan.workers]? = some f := by
  have hchunk := Config.chunk_ne_zero hc.plan_eq hc.reservable (by omega)
  have hlt := Nat.mod_lt (s / plan.foreignChunk) (Config.workers_pos hc.plan_eq)
  rw [← hc.length_workers] at hlt
  exact ⟨Plan.mem_share.mpr ⟨hchunk, hs, rfl⟩,
    _, List.getElem?_eq_getElem (by rwa [hc.length_workers] at hlt ⊢)⟩

theorem freed_eq {id : Nat} {gone : List Nat} {lost : Option Nat} {f : Crew.Finished}
    (hleft : Worker.Left id plan h (plan.share id) opened.blockAt gone lost
      (Worker.ending f.result) ⟨closed, f.journal⟩) :
    gone.filterMap opened.blockAt = gone.map (Pool.blockOf layout) := by
  rw [List.filterMap_eq_map_iff_forall_eq_some]
  exact fun t ht => blockAt_of_mem_share hc.filled (hleft.gone_subset ht)

/-- A worker hands back the foreign blocks that it has freed, once each, and does nothing else with
them. -/
theorem about_worker {id : Nat} {gone : List Nat} {lost : Option Nat} {f : Crew.Finished}
    (hleft : Worker.Left id plan h (plan.share id) opened.blockAt gone lost
      (Worker.ending f.result) ⟨closed, f.journal⟩) (s : Nat) :
    Trace.about ⟨.main, s⟩ f.journal.events.toList
      = if s ∈ gone then [.released (Pool.blockOf layout s)] else [] := by
  have hother : (⟨.main, s⟩ : BlockId).thread ≠ f.journal.thread := by
    rw [show f.journal.thread = .worker id from hleft.thread]
    exact nofun
  have hnodup : gone.Nodup := by
    obtain ⟨rest, hshare, -⟩ := hleft.share_eq
    exact (List.nodup_append.mp (hshare ▸ plan.nodup_share id)).1
  rw [hleft.custody.about_other hother, hc.freed_eq hleft, List.map_map]
  exact about_blockOf (fun _ => rfl) layout hnodup s

/-- A worker never deals with a block of another worker. -/
theorem about_other_worker {id k : Nat} {gone : List Nat} {lost : Option Nat} {f : Crew.Finished}
    (hleft : Worker.Left id plan h (plan.share id) opened.blockAt gone lost
      (Worker.ending f.result) ⟨closed, f.journal⟩) {b : BlockId} (hb : b.thread = .worker k)
    (hk : k ≠ id) :
    Trace.about b f.journal.events.toList = [] := by
  have hother : b.thread ≠ f.journal.thread := by
    rw [show f.journal.thread = .worker id from hleft.thread, hb]
    exact fun heq => hk (Thread.worker.inj heq)
  rw [hleft.custody.about_other hother, hc.freed_eq hleft, List.map_map]
  exact about_blockOf_of_worker (fun _ => rfl) layout gone hb

theorem about_opening (s : Nat) : Trace.about ⟨.main, s⟩ r.opening.events.toList
    = if s < plan.foreignTotal then [.granted (Pool.blockOf layout s)] else [] := by
  have hevents := hc.filled.events
  simp only at hevents
  rw [hevents, about_blockOf (fun _ => rfl) layout List.nodup_range]
  simp only [List.mem_range]

/-- What is left of a share when the workers are gone. -/
theorem closed_blockAt {id s : Nat} (hs : s ∈ plan.share id) {gone : List Nat}
    {lost : Option Nat} {f : Crew.Finished}
    (hleft : Worker.Left id plan h (plan.share id) opened.blockAt gone lost
      (Worker.ending f.result) ⟨closed, f.journal⟩) :
    closed.blockAt s
      = if s ∈ gone ∨ lost = some s then none else some (Pool.blockOf layout s) := by
  have hholds : closed.blockAt s = without opened.blockAt (gone ++ lost.toList) s :=
    hleft.holds s hs
  have hblock : opened.blockAt s = some (Pool.blockOf layout s) :=
    blockAt_of_mem_share hc.filled hs
  rw [hholds, without, hblock]
  simp only [List.mem_append, Option.mem_toList]

/-- The main thread hands back the blocks that are left. -/
theorem leftover_eq : (List.range plan.foreignTotal).filterMap closed.blockAt
    = ((List.range plan.foreignTotal).filter fun s => (closed.blockAt s).isSome).map
      (Pool.blockOf layout) := by
  refine filterMap_eq_map_filter fun s hs => ?_
  obtain ⟨hshare, f, hf⟩ := hc.owner (List.mem_range.mp hs)
  obtain ⟨gone, lost, hleft⟩ := hc.left hf
  rw [hc.closed_blockAt hshare hleft]
  split
  · exact Or.inl rfl
  · exact Or.inr rfl

theorem about_leftover (s : Nat) : Trace.about ⟨.main, s⟩
      (((List.range plan.foreignTotal).filterMap closed.blockAt).map .released)
    = if s < plan.foreignTotal ∧ (closed.blockAt s).isSome
      then [.released (Pool.blockOf layout s)] else [] := by
  rw [hc.leftover_eq, List.map_map]
  refine (about_blockOf (fun _ => rfl) layout (List.nodup_range.filter _) s).trans ?_
  simp only [List.mem_filter, List.mem_range]

end Stages

/-! ## Whole traces -/

section Traces

variable (hc : Course a config h r plan layout opened closed) {t : List Event} (ht : r.Traced t)

include hc ht

/-- A trace, read for one block. -/
theorem about_trace (id : BlockId) : ∃ mid,
    Trace.Woven (r.workers.map (·.journal.events.toList)) mid
      ∧ Trace.about id t = Trace.about id r.opening.events.toList ++ Trace.about id mid
        ++ Trace.about id
          (((List.range plan.foreignTotal).filterMap closed.blockAt).map .released) := by
  obtain ⟨mid, hmid, rfl⟩ := ht
  refine ⟨mid, hmid, ?_⟩
  rw [Trace.about_append, Trace.about_append, hc.closing, List.drop_left]

/-- Blocks that workers obtained are settled by them. -/
theorem settled_of_worker {id : BlockId} {k : Nat} (hid : id.thread = .worker k) :
    Trace.Settled (Trace.about id t) := by
  obtain ⟨mid, hmid, habout⟩ := hc.about_trace ht id
  have hopening : Trace.about id r.opening.events.toList = [] := by
    have hevents := hc.filled.events
    simp only at hevents
    rw [hevents]
    exact about_blockOf_of_worker (fun _ => rfl) layout _ hid
  have hleftover : Trace.about id
      (((List.range plan.foreignTotal).filterMap closed.blockAt).map .released) = [] := by
    rw [hc.leftover_eq, List.map_map]
    exact about_blockOf_of_worker (fun _ => rfl) layout _ hid
  rw [habout, hopening, hleftover, List.nil_append, List.append_nil]
  have hothers : ∀ j l, j ≠ k → (r.workers.map (·.journal.events.toList))[j]? = some l →
      Trace.about id l = [] := by
    intro j l hj hl
    rw [List.getElem?_map] at hl
    obtain ⟨f, hf, rfl⟩ := Option.map_eq_some_iff.mp hl
    obtain ⟨gone, lost, hleft⟩ := hc.left hf
    exact hc.about_other_worker hleft hid (Ne.symm hj)
  cases hk : r.workers[k]? with
  | none =>
      have hnil : Trace.about id mid = [] := by
        refine hmid.filter_eq_nil fun l hl => ?_
        obtain ⟨j, hj⟩ := List.mem_iff_getElem?.mp hl
        refine hothers j l (fun heq => ?_) hj
        rw [heq, List.getElem?_map, hk] at hj
        cases hj
      rw [hnil]
      exact .unknown
  | some f =>
      have hown : Trace.about id mid = Trace.about id f.journal.events.toList :=
        hmid.filter_eq (by rw [List.getElem?_map, hk]; rfl) hothers
      obtain ⟨gone, lost, hleft⟩ := hc.left hk
      rw [hown]
      exact hleft.custody.settled_of_own (hid.trans hleft.thread.symm)

/-- The life of a foreign block: the main thread obtains it, and it is handed back unless the worker
that owns its slot lost it. -/
theorem life_of_slot {s : Nat} (hs : s < plan.foreignTotal) : ∃ f gone lost,
    r.workers[s / plan.foreignChunk % plan.workers]? = some f
      ∧ Worker.Left (s / plan.foreignChunk % plan.workers) plan h
        (plan.share (s / plan.foreignChunk % plan.workers)) opened.blockAt gone lost
        (Worker.ending f.result) ⟨closed, f.journal⟩
      ∧ Trace.about ⟨.main, s⟩ t = .granted (Pool.blockOf layout s)
        :: if lost = some s then [] else [.released (Pool.blockOf layout s)] := by
  obtain ⟨mid, hmid, habout⟩ := hc.about_trace ht ⟨.main, s⟩
  obtain ⟨hshare, f, hf⟩ := hc.owner hs
  obtain ⟨gone, lost, hleft⟩ := hc.left hf
  refine ⟨f, gone, lost, hf, hleft, ?_⟩
  have hworkers : Trace.about ⟨.main, s⟩ mid
      = if s ∈ gone then [.released (Pool.blockOf layout s)] else [] := by
    rw [← hc.about_worker hleft s]
    refine hmid.filter_eq (by rw [List.getElem?_map, hf]; rfl) fun j l hj hl => ?_
    rw [List.getElem?_map] at hl
    obtain ⟨f', hf', rfl⟩ := Option.map_eq_some_iff.mp hl
    obtain ⟨gone', lost', hleft'⟩ := hc.left hf'
    refine (hc.about_worker hleft' s).trans (if_neg fun hmem => hj ?_)
    exact Plan.share_disjoint (hleft'.gone_subset hmem) hshare
  have hlost : lost = some s → s ∉ gone := by
    intro hlost hmem
    obtain ⟨rest, hsplit, hnext⟩ := hleft.share_eq
    have hrest := List.mem_of_head? (hnext s hlost)
    have hnodup := plan.nodup_share (s / plan.foreignChunk % plan.workers)
    rw [hsplit] at hnodup
    exact (List.nodup_append.mp hnodup).2.2 s hmem s hrest rfl
  rw [habout, hc.about_opening, hworkers, hc.about_leftover, hc.closed_blockAt hshare hleft,
    if_pos hs]
  by_cases hgone : s ∈ gone
  · have hkept : lost ≠ some s := fun heq => hlost heq hgone
    simp [hgone, hkept]
  · by_cases heq : lost = some s
    · simp [hgone, heq]
    · simp [hgone, heq, hs]

/-- Nothing is ever heard of a block of the main thread that is not in the pool. -/
theorem about_beyond {s : Nat} (hs : plan.foreignTotal ≤ s) : Trace.about ⟨.main, s⟩ t = [] := by
  obtain ⟨mid, hmid, habout⟩ := hc.about_trace ht ⟨.main, s⟩
  have hworkers : Trace.about ⟨.main, s⟩ mid = [] := by
    refine hmid.filter_eq_nil fun l hl => ?_
    obtain ⟨f, hf, rfl⟩ := List.mem_map.mp hl
    obtain ⟨j, hj⟩ := List.mem_iff_getElem?.mp hf
    obtain ⟨gone, lost, hleft⟩ := hc.left hj
    refine (hc.about_worker hleft s).trans (if_neg fun hmem => ?_)
    have := (Plan.mem_share.mp (hleft.gone_subset hmem)).2.1
    omega
  rw [habout, hc.about_opening, hworkers, hc.about_leftover, if_neg (by omega),
    if_neg (by omega)]
  rfl

end Traces

end Course

end Harness

end HeapChurn
