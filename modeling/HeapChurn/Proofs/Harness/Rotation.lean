import HeapChurn.Proofs.Harness.Course
import HeapChurn.Proofs.Routine.Run

/-!
# The rotation over the segments

A pool that is cut into one segment for each worker and each segment into one chunk for each worker. The
chunks are dealt in turn, and nobody computes where they go; but then a worker frees one chunk of
each segment, segment after segment. `slotAt` is the place of its `j`-th block in closed form, and
`share_eq_map` says that the dealing comes to that.

So it takes a fair share of every producer, and not at the end alone: at any moment of any run it has
freed a first part of its slots (`exists_freed_eq_take`), and `rotates` counts how many of them lie in
each segment.
-/

namespace HeapChurn

namespace Plan

/-- The pool has one segment for each worker, each with one chunk for each worker. -/
structure Square (p : Plan) : Prop where
  workers_pos : 1 ≤ p.workers
  chunk_pos : 1 ≤ p.foreignChunk
  quota_eq : p.foreignQuota = p.foreignChunk * p.workers
  total_eq : p.foreignTotal = p.foreignChunk * p.workers * p.workers

/-- The slot whose block worker `k` frees after `j` others: a chunk of one segment is freed before the
worker moves to the same chunk of the next. -/
def slotAt (p : Plan) (k j : Nat) : Nat :=
  j / p.foreignChunk * p.foreignQuota + k * p.foreignChunk + j % p.foreignChunk

/-- The producer segment in which a slot lies. -/
def segmentOf (p : Plan) (slot : Nat) : Nat := slot / p.foreignQuota

variable {p : Plan} {k : Nat}

/-! ## Dealing in closed form -/

/-- Who takes every card of some place in a round takes one of each round. -/
theorem filter_rounds {hands : Nat} (hk : k < hands) : ∀ rounds,
    (List.range (rounds * hands)).filter (· % hands = k)
      = (List.range rounds).map (· * hands + k)
  | 0 => by simp
  | rounds + 1 => by
      have hround : (List.range hands).filter ((· % hands = k) ∘ (rounds * hands + ·)) = [k] := by
        have hsame : (List.range hands).filter ((· % hands = k) ∘ (rounds * hands + ·))
            = (List.range hands).filter (· = k) := by
          refine List.filter_congr fun i hi => ?_
          have hi' : i < hands := List.mem_range.mp hi
          simp [Nat.add_mod, Nat.mod_eq_of_lt hi']
        have hcount : (List.range hands).count k = 1 :=
          List.count_eq_one_of_mem List.nodup_range (List.mem_range.mpr hk)
        rw [hsame, List.filter_eq, hcount]
        rfl
      rw [Nat.succ_mul, List.range_add, List.filter_append, filter_rounds hk rounds,
        List.filter_map, hround, List.range_succ, List.map_append]
      rfl

/-- Numbers row by row: `j` is the `j % c`-th of row `j / c`. -/
theorem map_range_rows {α : Type} {c : Nat} (hc : 0 < c) (f : Nat → Nat → α) : ∀ rows,
    (List.range (rows * c)).map (fun j => f (j / c) (j % c))
      = (List.range rows).flatMap fun row => (List.range c).map (f row)
  | 0 => by simp
  | rows + 1 => by
      rw [Nat.succ_mul, List.range_add, List.map_append, map_range_rows hc f rows,
        List.range_succ, List.flatMap_append, List.flatMap_singleton, List.map_map]
      congr 1
      refine List.map_congr_left fun i hi => ?_
      have hi' : i < c := List.mem_range.mp hi
      have hdiv : (rows * c + i) / c = rows := by
        rw [Nat.mul_comm, Nat.mul_add_div hc, Nat.div_eq_of_lt hi', Nat.add_zero]
      have hmod : (rows * c + i) % c = i := by
        rw [Nat.mul_comm, Nat.mul_add_mod, Nat.mod_eq_of_lt hi']
      simp [hdiv, hmod]

/-- Of the first `j` numbers, row by row, so many lie in row `row`. -/
theorem countP_row {c : Nat} (hc : 0 < c) (row : Nat) : ∀ j,
    (List.range j).countP (· / c = row) = min c (j - row * c)
  | 0 => by simp
  | j + 1 => by
      have hrow : j / c = row ↔ row * c ≤ j ∧ j ≤ row * c + c - 1 := Nat.div_eq_iff hc
      rw [List.range_succ, List.countP_append, countP_row hc row j, List.countP_singleton]
      by_cases hj : j / c = row
      · have := hrow.mp hj
        simp only [hj, decide_true, if_true]
        omega
      · have := hrow.not.mp hj
        simp only [hj, decide_false, Bool.false_eq_true, if_false]
        omega

namespace Square

variable (h : p.Square)

include h

theorem chunk_eq (hk : k < p.workers) {segment : Nat} (hsegment : segment < p.workers) :
    p.chunk (segment * p.workers + k) = (List.range p.foreignChunk).map fun i =>
      segment * p.foreignQuota + k * p.foreignChunk + i := by
  have hplace : (segment * p.workers + k) * p.foreignChunk
      = segment * p.foreignQuota + k * p.foreignChunk := by
    rw [h.quota_eq, Nat.add_mul, Nat.mul_assoc, Nat.mul_comm p.workers]
  -- the chunk is not cut short: it is one of `workers * workers` whole ones
  have hlast : segment * p.workers + k + 1 ≤ p.workers * p.workers := by
    have hrow : (segment + 1) * p.workers ≤ p.workers * p.workers :=
      Nat.mul_le_mul_right p.workers hsegment
    rw [Nat.succ_mul] at hrow
    omega
  have hwhole : (segment * p.workers + k) * p.foreignChunk + p.foreignChunk ≤ p.foreignTotal := by
    rw [h.total_eq, Nat.mul_assoc, Nat.mul_comm p.foreignChunk, ← Nat.succ_mul]
    exact Nat.mul_le_mul_right p.foreignChunk hlast
  have hsize : min p.foreignChunk (p.foreignTotal - (segment * p.workers + k) * p.foreignChunk)
      = p.foreignChunk := by omega
  rw [chunk, hsize, List.range'_eq_map_range, hplace]

/-- What the dealing comes to. -/
theorem share_eq_map (hk : k < p.workers) :
    p.share k = (List.range p.foreignQuota).map (p.slotAt k) := by
  have hchunk : p.foreignChunk ≠ 0 := Nat.pos_iff_ne_zero.mp h.chunk_pos
  have hrounds : p.foreignTotal ≤ p.workers * p.workers * p.foreignChunk := by
    rw [h.total_eq, Nat.mul_assoc, Nat.mul_comm]
  calc p.share k
      = ((List.range (p.workers * p.workers)).filter (· % p.workers = k)).flatMap p.chunk :=
        share_eq_flatMap hchunk hrounds k
    _ = (List.range p.workers).flatMap fun segment => p.chunk (segment * p.workers + k) := by
        rw [filter_rounds hk, List.flatMap_map]
    _ = (List.range p.workers).flatMap fun segment => (List.range p.foreignChunk).map fun i =>
          segment * p.foreignQuota + k * p.foreignChunk + i := by
        refine List.flatMap_congr fun segment hsegment => ?_
        exact h.chunk_eq hk (List.mem_range.mp hsegment)
    _ = (List.range (p.workers * p.foreignChunk)).map (p.slotAt k) :=
        (map_range_rows h.chunk_pos
          (fun segment i => segment * p.foreignQuota + k * p.foreignChunk + i) p.workers).symm
    _ = (List.range p.foreignQuota).map (p.slotAt k) := by rw [h.quota_eq, Nat.mul_comm]

/-- A worker stays in a segment for one chunk. -/
theorem segmentOf_slotAt (hk : k < p.workers) (j : Nat) :
    p.segmentOf (p.slotAt k j) = j / p.foreignChunk := by
  have hmod : j % p.foreignChunk < p.foreignChunk := Nat.mod_lt _ h.chunk_pos
  have hinside : k * p.foreignChunk + j % p.foreignChunk < p.foreignQuota := by
    have hlast : (k + 1) * p.foreignChunk ≤ p.workers * p.foreignChunk :=
      Nat.mul_le_mul_right p.foreignChunk hk
    rw [Nat.succ_mul] at hlast
    rw [h.quota_eq, Nat.mul_comm p.foreignChunk]
    omega
  have hquota : 0 < p.foreignQuota := by omega
  rw [segmentOf, slotAt, Nat.add_assoc, Nat.mul_comm, Nat.mul_add_div hquota,
    Nat.div_eq_of_lt hinside, Nat.add_zero]

/-- Among the first `j` slots of a share so many are of one segment. -/
theorem countP_take_share (hk : k < p.workers) {j : Nat} (hj : j ≤ p.foreignQuota)
    (segment : Nat) : ((p.share k).take j).countP (p.segmentOf · = segment)
      = min p.foreignChunk (j - segment * p.foreignChunk) := by
  rw [h.share_eq_map hk, ← List.map_take, List.take_range, Nat.min_eq_left hj, List.countP_map,
    ← countP_row h.chunk_pos]
  refine List.countP_congr fun i _ => ?_
  simp [h.segmentOf_slotAt hk]

end Square

/-! ## At any moment of a run -/

/-- At every moment of a run a worker has freed the blocks of a first part of its share, in order,
whatever the others do and whatever is written over the tags. -/
theorem exists_freed_eq_take {a : Allocator} {layout : Layout} {v : View}
    (hfilled : Pool.Filled a layout p.foreignTotal v) (table : Histogram) (schedule : List Turn)
    {m : Member} (hm : ((p.crew a table v.pool).follow a schedule).members[k]? = some m) :
    ∃ n ≤ (p.share k).length, Trace.foreign (.worker k) m.journal.events.toList
      = ((p.share k).take n).map fun s => .released (Pool.blockOf layout s) := by
  have hfit := (Harness.sound_left hfilled table).follow tolerated_retagging
    (weathered_retagging schedule) k m hm
  -- left to itself the worker would end with a first part of its share freed
  obtain ⟨gone, lost, hleft⟩ := Harness.exists_left hfit.ensures.run_self
  obtain ⟨rest, hshare, -⟩ := hleft.share_eq
  have hblocks : gone.filterMap v.pool.blockAt = gone.map (Pool.blockOf layout) := by
    refine List.filterMap_eq_map_iff_forall_eq_some.mpr fun s hs => ?_
    exact Harness.blockAt_of_mem_share hfilled (hleft.gone_subset hs)
  have hend := hleft.custody.foreign
  rw [hleft.thread, hblocks, List.map_map] at hend
  -- and what it has done by now stands at the front of that
  have hprefix := (m.routine.events_run_prefix (a := a)
    ⟨((p.crew a table v.pool).follow a schedule).pool, m.journal⟩).filter
      (·.block.id.thread ≠ .worker k)
  have hnow := List.prefix_iff_eq_take.mp hprefix
  rw [← Trace.foreign, ← Trace.foreign, hend, ← List.map_take] at hnow
  generalize (Trace.foreign (.worker k) m.journal.events.toList).length = n at hnow
  refine ⟨min n gone.length, ?_, ?_⟩
  · rw [hshare, List.length_append]
    omega
  · rw [hnow, hshare, List.take_append_of_le_length (Nat.min_le_right _ _), ← List.take_take,
      List.take_length]
    rfl

/-- A worker of such a plan takes a fair share of every producer segment. Its drain order goes through
the segments chunk by chunk; so the first `j` slots of it are the first of the chunks of the segments,
and the whole order has one chunk of each. At any moment of any run it has freed the blocks of the
first slots in this order, and as many of them are of a segment. (The block of a slot is named after
it: each call of the main thread fills the next slot.) -/
theorem rotates (h : p.Square) (hk : k < p.workers) :
    ∃ b, p.inboxes[k]? = some b ∧ b.worker = k ∧ b.slots.length = p.foreignQuota
      ∧ (∀ j < p.foreignQuota, b.slots[j]? = some
        (j / p.foreignChunk * p.foreignQuota + k * p.foreignChunk + j % p.foreignChunk))
      ∧ (∀ j ≤ p.foreignQuota, ∀ segment, (b.slots.take j).countP (p.segmentOf · = segment)
        = min p.foreignChunk (j - segment * p.foreignChunk))
      ∧ (∀ segment < p.workers, b.slots.countP (p.segmentOf · = segment) = p.foreignChunk)
      ∧ ∀ (a : Allocator) (blockSize : Nat), (Pool.made a p blockSize).1 = .ok () →
        let pool := (Pool.made a p blockSize).2.pool
        ∀ (table : Histogram) (schedule : List Turn) (m : Member),
          ((p.crew a table pool).follow a schedule).members[k]? = some m →
          let freed := Trace.foreign (.worker k) m.journal.events.toList
          freed.length ≤ p.foreignQuota
            ∧ freed = ((b.slots.take freed.length).filterMap pool.blockAt).map .released
            ∧ ∀ segment, freed.countP (fun e => p.segmentOf e.block.id.call = segment)
              = min p.foreignChunk (freed.length - segment * p.foreignChunk) := by
  have hlength : (p.share k).length = p.foreignQuota := by
    rw [h.share_eq_map hk, List.length_map, List.length_range]
  refine ⟨_, getElem?_inboxes hk, rfl, hlength, fun j hj => ?_, fun j hj segment => ?_,
    fun segment hsegment => ?_, fun a blockSize hok => ?_⟩
  · rw [h.share_eq_map hk, List.getElem?_map, List.getElem?_range hj]
    rfl
  · exact h.countP_take_share hk hj segment
  · have hall := h.countP_take_share hk (Nat.le_refl p.foreignQuota) segment
    rw [List.take_of_length_le (Nat.le_of_eq hlength)] at hall
    have hroom : (segment + 1) * p.foreignChunk ≤ p.workers * p.foreignChunk :=
      Nat.mul_le_mul_right p.foreignChunk hsegment
    rw [Nat.succ_mul, Nat.mul_comm p.workers, ← h.quota_eq] at hroom
    rw [hall]
    omega
  · intro pool table schedule m hm freed
    obtain ⟨layout, hfilled⟩ := Pool.filled_of_ok hok
    obtain ⟨n, hn, hfreed⟩ := exists_freed_eq_take hfilled table schedule hm
    have hcount : freed.length = n := by
      rw [show freed = _ from hfreed, List.length_map, List.length_take, Nat.min_eq_left hn]
    have hblocks : ((p.share k).take n).filterMap pool.blockAt
        = ((p.share k).take n).map (Pool.blockOf layout) := by
      refine List.filterMap_eq_map_iff_forall_eq_some.mpr fun s hs => ?_
      exact Harness.blockAt_of_mem_share hfilled (List.mem_of_mem_take hs)
    refine ⟨hcount ▸ hlength ▸ hn, ?_, fun segment => ?_⟩
    · rw [hcount, hblocks, List.map_map]
      exact hfreed
    · rw [hcount, ← h.countP_take_share hk (hlength ▸ hn), show freed = _ from hfreed,
        List.countP_map]
      rfl

/-- Three workers with chunks of three slots. After seventeen actions the second has freed five
blocks: the chunk of the first segment and two blocks of the next. -/
theorem rotates_three_workers :
    let p : Plan := ⟨3, 1, 1, 27, 9, 3, none⟩
    let table : Histogram := ⟨[⟨8, 1⟩], by decide, by decide⟩
    let crew := (p.crew .faultless table (Pool.made .faultless p 16).2.pool).follow .faultless
      (List.replicate 17 (.act 1))
    p.Square ∧ 1 < p.workers ∧ (Pool.made .faultless p 16).1 = .ok ()
      ∧ ∃ m, crew.members[1]? = some m
        ∧ let freed := Trace.foreign (.worker 1) m.journal.events.toList
          freed.length = 5 ∧ freed.countP (fun e => p.segmentOf e.block.id.call = 0) = 3
            ∧ freed.countP (fun e => p.segmentOf e.block.id.call = 1) = 2 := by
  intro p table crew
  have hsquare : p.Square := ⟨by decide, by decide, rfl, rfl⟩
  have hok : (Pool.made .faultless p 16).1 = .ok () := by decide +kernel
  have hfive : crew.members[1]?.map
      (fun m => (Trace.foreign (.worker 1) m.journal.events.toList).length) = some 5 := by
    decide +kernel
  obtain ⟨m, hm, hlength⟩ := Option.map_eq_some_iff.mp hfive
  obtain ⟨b, -, -, -, -, -, -, hrun⟩ := rotates hsquare (k := 1) (by decide)
  obtain ⟨-, -, hcount⟩ := hrun .faultless 16 hok table _ m hm
  rw [hlength] at hcount
  exact ⟨hsquare, by decide, hok, m, hm, hlength, hcount 0, hcount 1⟩

end Plan

end HeapChurn
