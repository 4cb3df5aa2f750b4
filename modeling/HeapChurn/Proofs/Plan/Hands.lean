import HeapChurn.Proofs.Inbox.Hand
import HeapChurn.Proofs.Inbox.Partition
import HeapChurn.Proofs.Pool.Population
import Mathlib.Algebra.BigOperators.Group.List.Basic

/-!
# The hands of a plan

The pool is cut into chunks, which are dealt to the workers in turn. Each worker's hand lists the
slots of its inbox (`inbox_hands`), so a slot lies in one hand only, and the hands fit before their
first drain (`hand_of_mem`). The plan may be any: the last chunk may be short, and a worker may have
no chunk or one more than the others.
-/

namespace HeapChurn

namespace Plan

/-- The chunks of the pool. Only the last may be short. -/
def pieces (p : Plan) : List Piece :=
  (List.range ((p.foreignTotal + p.foreignChunk - 1) / p.foreignChunk)).map fun i =>
    ⟨i * p.foreignChunk, min p.foreignChunk (p.foreignTotal - i * p.foreignChunk)⟩

/-- A hand for each worker, to which the chunks are dealt in turn. -/
def hands (p : Plan) : Array Hand :=
  let empty := (Array.range p.workers).map fun worker => { worker : Hand }
  if p.foreignChunk = 0 ∨ p.workers = 0 then empty
  else p.pieces.zipIdx.foldl
    (fun hands (c, i) => hands.modify (i % p.workers) (·.receive c)) empty

variable {p : Plan}

def piece (p : Plan) (i : Nat) : Piece :=
  ⟨i * p.foreignChunk, min p.foreignChunk (p.foreignTotal - i * p.foreignChunk)⟩

/-- The chunks of worker `k`. -/
def dealt (p : Plan) (k : Nat) : List Piece :=
  if p.foreignChunk = 0 then []
  else ((p.pieces.zipIdx.filter (·.2 % p.workers = k)).map (·.1))

theorem dealt_eq (hchunk : p.foreignChunk ≠ 0) (k : Nat) : p.dealt k
    = ((List.range ((p.foreignTotal + p.foreignChunk - 1) / p.foreignChunk)).filter
      (· % p.workers = k)).map p.piece := by
  have hpieces : p.pieces.zipIdx
      = (List.range ((p.foreignTotal + p.foreignChunk - 1) / p.foreignChunk)).map
        fun i => (p.piece i, i) := zipIdx_map_range p.piece _
  rw [dealt, if_neg hchunk, hpieces, List.filter_map, List.map_map]
  rfl

theorem size_pos_of_mem_dealt {k : Nat} {c : Piece} (hc : c ∈ p.dealt k) : 0 < c.size := by
  by_cases hchunk : p.foreignChunk = 0
  · rw [dealt, if_pos hchunk] at hc
    cases hc
  · rw [dealt_eq hchunk] at hc
    obtain ⟨i, hi, rfl⟩ := List.mem_map.mp hc
    have hlt := List.mem_range.mp (List.mem_filter.mp hi).1
    have hle := (Nat.le_div_iff_mul_le (Nat.pos_of_ne_zero hchunk)).mp hlt
    rw [Nat.succ_mul] at hle
    show 0 < min p.foreignChunk (p.foreignTotal - i * p.foreignChunk)
    omega

theorem slots_dealt (p : Plan) (k : Nat) : (p.dealt k).flatMap Piece.slots = p.share k := by
  by_cases hchunk : p.foreignChunk = 0
  · simp [dealt, share, hchunk]
  · rw [dealt_eq hchunk, share_eq_flatMap hchunk (foreignTotal_le_chunks hchunk), List.flatMap_map]
    rfl

theorem sum_size_dealt (p : Plan) (k : Nat) :
    ((p.dealt k).map (·.size)).sum = (p.share k).length := by
  rw [← slots_dealt, List.length_flatMap]
  simp [Piece.slots]

/-- The hand of worker `k` before its first drain. -/
def hand (p : Plan) (k : Nat) : Hand where
  worker := k
  pieces := (p.dealt k).toArray
  remaining := ((p.dealt k).map (·.size)).sum

theorem toList_hands (p : Plan) : p.hands.toList = (List.range p.workers).map p.hand := by
  refine List.ext_getElem? fun k => ?_
  rw [Array.getElem?_toList, List.getElem?_map]
  rcases Nat.lt_or_ge k p.workers with hk | hk
  · rw [List.getElem?_range hk, Option.map_some]
    unfold hands hand dealt
    by_cases hchunk : p.foreignChunk = 0
    · simp [hchunk, hk]
    · have hworkers : ¬(p.foreignChunk = 0 ∨ p.workers = 0) := by omega
      rw [if_neg hworkers, if_neg hchunk, getElem?_foldl_modify Hand.receive]
      simp [hk, Hand.foldl_receive]
  · have hsize : p.hands.size = p.workers := by
      unfold hands
      split
      · simp
      · rw [size_foldl_modify Hand.receive]
        simp
    rw [Array.getElem?_eq_none (hsize ▸ hk), List.getElem?_eq_none (List.length_range ▸ hk)]
    rfl

/-- The hands of a plan are its inboxes. -/
theorem inbox_hands (p : Plan) : p.hands.toList.map Hand.inbox = p.inboxes := by
  refine List.ext_getElem? fun k => ?_
  rw [toList_hands, List.map_map, List.getElem?_map]
  rcases Nat.lt_or_ge k p.workers with hk | hk
  · rw [getElem?_inboxes hk, List.getElem?_range hk, ← slots_dealt]
    rfl
  · simp [hk, length_inboxes]

theorem sum_indicator (m : Nat) : ∀ n,
    ((List.range n).map fun k => if m = k then 1 else 0).sum = if m < n then 1 else 0
  | 0 => by simp
  | n + 1 => by
      rw [List.range_succ, List.map_append, List.sum_append, sum_indicator m n]
      simp only [List.map_cons, List.map_nil, List.sum_singleton]
      split <;> split <;> split <;> omega

/-- The lists that a function picks from a list part it. -/
theorem sum_length_filter {f : Nat → Nat} {n : Nat} : ∀ l : List Nat, (∀ s ∈ l, f s < n) →
    ((List.range n).map fun k => (l.filter (f · = k)).length).sum = l.length
  | [], _ => by simp
  | s :: l, h => by
      have ih := sum_length_filter l fun t ht => h t (List.mem_cons_of_mem s ht)
      have hcons : ∀ k, ((s :: l).filter (f · = k)).length
          = (if f s = k then 1 else 0) + (l.filter (f · = k)).length := by
        intro k
        by_cases hk : f s = k
        · simp [hk, Nat.add_comm]
        · simp [hk]
      simp only [hcons, List.sum_map_add, ih, sum_indicator, h s List.mem_cons_self, if_true,
        List.length_cons, Nat.add_comm]

theorem sum_remaining_hands (hchunk : p.foreignChunk ≠ 0) (hworkers : p.workers ≠ 0) :
    (p.hands.toList.map (·.remaining)).sum = p.foreignTotal := by
  have hremaining : p.hands.toList.map (·.remaining)
      = (List.range p.workers).map fun k => (p.share k).length := by
    rw [toList_hands, List.map_map]
    exact List.map_congr_left fun k _ => p.sum_size_dealt k
  have hsum := sum_length_filter (f := (· / p.foreignChunk % p.workers)) (n := p.workers)
    (List.range p.foreignTotal) fun s _ => Nat.mod_lt _ (Nat.pos_of_ne_zero hworkers)
  rw [List.length_range] at hsum
  simpa [hremaining, share, hchunk] using hsum

theorem hand_of_mem {h : Hand} (hh : h ∈ p.hands) :
    h.worker < p.workers ∧ h.slots = p.share h.worker
      ∧ h.remaining = (p.share h.worker).length ∧ h.Fit := by
  rw [← Array.mem_toList_iff, toList_hands] at hh
  obtain ⟨k, hk, rfl⟩ := List.mem_map.mp hh
  exact ⟨List.mem_range.mp hk, p.slots_dealt k, p.sum_size_dealt k,
    Hand.fit_start fun c => size_pos_of_mem_dealt⟩

/-- The pool is parted among the hands of a plan, and no hand ever leaves its part. The hands are
the inboxes of the plan and drain as these do, and no drain meets an index out of bounds. A plan
without chunks or workers has nothing to drain. -/
theorem hands_partition (p : Plan) :
    p.hands.toList.map (·.worker) = List.range p.workers
    ∧ p.hands.toList.map Hand.inbox = p.inboxes
    ∧ (∀ h ∈ p.hands, h.slots.Pairwise (· < ·)
      ∧ (∀ s, s ∈ h.slots ↔ p.foreignChunk ≠ 0 ∧ s < p.foreignTotal
        ∧ s / p.foreignChunk % p.workers = h.worker)
      ∧ h.remaining = h.slots.length
      ∧ ∀ limits, (h.drains limits).Confined (Hand.Draining h.slots) (fun _ _ => True) fun out =>
        ∃ h', out = some h' ∧ h'.remaining = h'.inbox.remaining ∧ ∀ limit,
          (fun out => (out.1, out.2.inbox)) <$> h'.drain limit
            = (fun out => (some out.1, out.2)) <$> h'.inbox.drain limit)
    ∧ (p.foreignChunk ≠ 0 → p.workers ≠ 0 →
      (p.hands.toList.map (·.remaining)).sum = p.foreignTotal)
    ∧ (p.foreignChunk = 0 ∨ p.workers = 0 → ∀ h ∈ p.hands, h.slots = [] ∧ h.remaining = 0
      ∧ ∀ limit, h.drain limit = pure (some (.ok 0), h))
    ∧ ∀ (a : Allocator) (blockSize : Nat),
      ((Pool.populate p blockSize).run a ⟨#[], { thread := .main }⟩).1 = .ok () →
      ((Pool.populate p blockSize).run a ⟨#[], { thread := .main }⟩).2.pool.size
        = p.foreignTotal := by
  refine ⟨?_, p.inbox_hands, fun h hh => ?_, sum_remaining_hands, fun hnone h hh => ?_,
    fun a blockSize hok => ?_⟩
  · rw [toList_hands, List.map_map]
    exact List.map_id _
  · obtain ⟨-, hslots, hremaining, hfit⟩ := hand_of_mem hh
    refine ⟨hslots ▸ p.pairwise_share _, fun s => hslots ▸ mem_share, hslots ▸ hremaining,
      fun limits => (Hand.confined_drains limits hfit).mono ?_⟩
    rintro _ ⟨h', rfl, hfit', -⟩
    exact ⟨h', rfl, hfit'.remaining_eq, Hand.inbox_drain hfit'⟩
  · obtain ⟨hworker, hslots, hremaining, -⟩ := hand_of_mem hh
    have hshare : p.share h.worker = [] := by
      refine List.eq_nil_iff_forall_not_mem.mpr fun s hs => ?_
      have hchunk := (mem_share.mp hs).1
      omega
    rw [hshare] at hslots hremaining
    exact ⟨hslots, hremaining, Hand.drain_of_remaining_eq_zero hremaining⟩
  · obtain ⟨layout, hfilled⟩ := Pool.filled_of_ok hok
    exact hfilled.size

/-- Seven blocks in chunks of two for three workers: the last chunk is short, and the first worker
has two chunks. -/
theorem hands_partition_seven :
    let p : Plan := ⟨3, 1, 1, 7, 2, 2, none⟩
    p.hands.toList.map Hand.slots = [[0, 1, 6], [2, 3], [4, 5]]
      ∧ (p.hands.toList.map (·.remaining)).sum = 7
      ∧ ∀ h ∈ p.hands, ∀ limits, (h.drains limits).Confined (Hand.Draining h.slots)
        (fun _ _ => True) fun out => out ≠ none := by
  intro p
  obtain ⟨-, -, hhands, hsum, -⟩ := hands_partition p
  refine ⟨by decide +kernel, hsum (by decide) (by decide), fun h hh limits => ?_⟩
  refine ((hhands h hh).2.2.2 limits).mono ?_
  rintro _ ⟨h', rfl, -⟩
  exact nofun

end Plan

end HeapChurn
