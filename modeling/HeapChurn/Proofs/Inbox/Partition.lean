import HeapChurn.Inbox
import Mathlib.Data.List.Nodup

/-!
# Shares of the pool

Which slots an inbox lists: those whose chunk number leaves the worker's number when divided by the
number of workers, in ascending order (`getElem?_inboxes`). Said in this way it is plain that no
slot lies in two shares, that every slot lies in one, and how long a share is when the pool is a
whole number of rounds (`length_share`).

The chunks are cut and dealt like cards, and the inbox strings its hand together. The proof follows
these three steps: what a hand is (`getElem?_deal`), that the chunks in a row are the pool
(`flatMap_chunk`), and that picking chunks is picking slots (`filter_flatMap_of_const`).
-/

namespace HeapChurn

section Deal

variable {α : Type}

variable {β : Type} (receive : β → α → β)

theorem getElem?_foldl_modify (hands k : Nat) : ∀ (cards : List (α × Nat)) (dealt : Array β),
    (cards.foldl (fun dealt (card, i) => dealt.modify (i % hands) (receive · card)) dealt)[k]?
      = dealt[k]?.map (((cards.filter (·.2 % hands = k)).map (·.1)).foldl receive)
  | [], dealt => by simp
  | (card, i) :: cards, dealt => by
      rw [List.foldl_cons, getElem?_foldl_modify hands k cards, Array.getElem?_modify]
      by_cases h : i % hands = k
      · rw [if_pos h, Option.map_map]
        congr 1
        funext hand
        simp [h]
      · rw [if_neg h]
        congr 2
        simp [h]

theorem size_foldl_modify (hands : Nat) : ∀ (cards : List (α × Nat)) (dealt : Array β),
    (cards.foldl (fun dealt (card, i) => dealt.modify (i % hands) (receive · card)) dealt).size
      = dealt.size
  | [], _ => rfl
  | _ :: cards, _ => by
      rw [List.foldl_cons, size_foldl_modify hands cards, Array.size_modify]

theorem size_deal (hands : Nat) (cards : List α) : (deal hands cards).size = hands := by
  rw [deal, size_foldl_modify Array.push, Array.size_replicate]

/-- A hand takes the cards whose places are its own, round after round. -/
theorem getElem?_deal {hands k : Nat} (hk : k < hands) (cards : List α) :
    (deal hands cards)[k]?
      = some ((cards.zipIdx.filter (·.2 % hands = k)).map (·.1)).toArray := by
  rw [deal, getElem?_foldl_modify Array.push, Array.getElem?_replicate, if_pos hk,
    Option.map_some]
  simp

theorem zipIdx_map_range (f : Nat → α) (n : Nat) :
    ((List.range n).map f).zipIdx = (List.range n).map fun i => (f i, i) := by
  rw [List.zipIdx_map]
  exact List.ext_getElem (by simp) fun i _ _ => by simp

end Deal

namespace Plan

variable {p : Plan}

/-- The slots of worker `k`. -/
def share (p : Plan) (k : Nat) : List Nat :=
  if p.foreignChunk = 0 then []
  else (List.range p.foreignTotal).filter fun s => s / p.foreignChunk % p.workers = k

/-- The slots of chunk `i`. -/
def chunk (p : Plan) (i : Nat) : List Nat :=
  List.range' (i * p.foreignChunk) (min p.foreignChunk (p.foreignTotal - i * p.foreignChunk))

theorem div_eq_of_mem_chunk {i s : Nat} (hs : s ∈ p.chunk i) : s / p.foreignChunk = i := by
  rw [chunk, List.mem_range'_1] at hs
  refine Nat.div_eq_of_lt_le hs.1 ?_
  rw [Nat.succ_mul]
  omega

/-- The first chunks in a row are the first slots. -/
theorem flatMap_chunk (p : Plan) : ∀ n,
    (List.range n).flatMap p.chunk = List.range (min p.foreignTotal (n * p.foreignChunk))
  | 0 => by simp
  | n + 1 => by
      rw [List.range_succ, List.flatMap_append, flatMap_chunk p n, List.flatMap_singleton, chunk,
        Nat.succ_mul]
      rcases Nat.le_total (n * p.foreignChunk) p.foreignTotal with h | h
      · rw [Nat.min_eq_right h, List.range_eq_range', List.range_eq_range']
        have happend := List.range'_append_1 (s := 0) (m := n * p.foreignChunk)
          (n := min p.foreignChunk (p.foreignTotal - n * p.foreignChunk))
        rw [Nat.zero_add] at happend
        rw [happend]
        congr 1
        omega
      · rw [Nat.sub_eq_zero_of_le h, Nat.min_zero, Nat.min_eq_left h,
          Nat.min_eq_left (Nat.le_add_right_of_le h)]
        simp

/-- Where a property of slots depends on their chunk alone, picking chunks is picking slots. -/
theorem filter_flatMap_of_const {f : Nat → List Nat} (onChunk onSlot : Nat → Bool) :
    ∀ l : List Nat, (∀ i ∈ l, ∀ s ∈ f i, onSlot s = onChunk i) →
      (l.filter onChunk).flatMap f = (l.flatMap f).filter onSlot
  | [], _ => rfl
  | i :: l, h => by
      have ih := filter_flatMap_of_const onChunk onSlot l fun j hj =>
        h j (List.mem_cons_of_mem i hj)
      have hi := h i List.mem_cons_self
      rw [List.filter_cons, List.flatMap_cons, List.filter_append, ← ih]
      cases hpick : onChunk i with
      | true =>
          rw [List.filter_eq_self.mpr fun s hs => (hi s hs).trans hpick]
          rfl
      | false =>
          have hnone : (f i).filter onSlot = [] :=
            List.filter_eq_nil_iff.mpr fun s hs => by simp [hi s hs, hpick]
          rw [hnone]
          rfl

theorem share_eq_flatMap {n : Nat} (hchunk : p.foreignChunk ≠ 0)
    (hn : p.foreignTotal ≤ n * p.foreignChunk) (k : Nat) :
    p.share k = ((List.range n).filter (· % p.workers = k)).flatMap p.chunk := by
  rw [share, if_neg hchunk, ← Nat.min_eq_left hn, ← flatMap_chunk]
  refine (filter_flatMap_of_const _ _ _ fun i _ s hs => ?_).symm
  rw [div_eq_of_mem_chunk hs]

theorem zipIdx_chunks (p : Plan) : p.chunks.zipIdx
    = (List.range ((p.foreignTotal + p.foreignChunk - 1) / p.foreignChunk)).map
      fun i => (p.chunk i, i) :=
  zipIdx_map_range p.chunk _

theorem foreignTotal_le_chunks (hchunk : p.foreignChunk ≠ 0) : p.foreignTotal
    ≤ (p.foreignTotal + p.foreignChunk - 1) / p.foreignChunk * p.foreignChunk := by
  have := Nat.lt_div_mul_add (a := p.foreignTotal + p.foreignChunk - 1) (Nat.pos_of_ne_zero hchunk)
  omega

theorem length_inboxes (p : Plan) : p.inboxes.length = p.workers := by
  simp [inboxes, size_deal]

/-- The inbox of each worker lists its share. -/
theorem getElem?_inboxes {k : Nat} (hk : k < p.workers) :
    p.inboxes[k]? = some { worker := k, slots := p.share k, ahead := p.share k } := by
  have hhand : ∀ cards : List (List Nat), ((deal p.workers cards).toList.zipIdx.map
      fun hand => Inbox.mk hand.2 hand.1.toList.flatten hand.1.toList.flatten)[k]?
      = some ⟨k, ((cards.zipIdx.filter (·.2 % p.workers = k)).map (·.1)).flatten,
        ((cards.zipIdx.filter (·.2 % p.workers = k)).map (·.1)).flatten⟩ := by
    intro cards
    rw [List.getElem?_map, List.getElem?_zipIdx, Array.getElem?_toList, getElem?_deal hk]
    simp
  refine (hhand _).trans ?_
  by_cases hchunk : p.foreignChunk = 0
  · simp [hchunk, share]
  · rw [if_neg hchunk, zipIdx_chunks, share_eq_flatMap hchunk (foreignTotal_le_chunks hchunk),
      List.filter_map, List.map_map, List.flatMap_def]
    rfl

/-! ## The shares part the pool -/

theorem mem_share {k s : Nat} : s ∈ p.share k
    ↔ p.foreignChunk ≠ 0 ∧ s < p.foreignTotal ∧ s / p.foreignChunk % p.workers = k := by
  unfold share
  split
  · simp_all
  · simp_all

theorem pairwise_share (p : Plan) (k : Nat) : (p.share k).Pairwise (· < ·) := by
  unfold share
  split
  · exact List.Pairwise.nil
  · exact List.pairwise_lt_range.filter _

theorem nodup_share (p : Plan) (k : Nat) : (p.share k).Nodup :=
  (p.pairwise_share k).imp Nat.ne_of_lt

theorem share_disjoint {j k s : Nat} (hj : s ∈ p.share j) (hk : s ∈ p.share k) : j = k :=
  (mem_share.mp hj).2.2.symm.trans (mem_share.mp hk).2.2

theorem countP_rounds {hands k : Nat} (hk : k < hands) : ∀ rounds,
    (List.range (rounds * hands)).countP (· % hands = k) = rounds
  | 0 => by simp
  | rounds + 1 => by
      have hround : (List.range hands).countP ((· % hands = k) ∘ (rounds * hands + ·)) = 1 := by
        have hsame : (List.range hands).countP ((· % hands = k) ∘ (rounds * hands + ·))
            = (List.range hands).count k := by
          refine List.countP_congr fun i hi => ?_
          have hi' : i < hands := List.mem_range.mp hi
          simp [Nat.add_mod, Nat.mod_eq_of_lt hi']
        rw [hsame]
        exact List.count_eq_one_of_mem List.nodup_range (List.mem_range.mpr hk)
      rw [Nat.succ_mul, List.range_add, List.countP_append, countP_rounds hk rounds,
        List.countP_map, hround]

/-- A pool of whole rounds falls to the workers in equal shares. -/
theorem length_share {rounds k : Nat} (hchunk : p.foreignChunk ≠ 0) (hk : k < p.workers)
    (htotal : p.foreignTotal = rounds * p.workers * p.foreignChunk) :
    (p.share k).length = rounds * p.foreignChunk := by
  have hlength : ∀ l : List Nat, (∀ i ∈ l, i < rounds * p.workers) →
      (l.flatMap p.chunk).length = l.length * p.foreignChunk := by
    intro l hl
    induction l with
    | nil => simp
    | cons i l ih =>
        have hi : i + 1 ≤ rounds * p.workers := hl i List.mem_cons_self
        have hle := Nat.mul_le_mul_right p.foreignChunk hi
        rw [Nat.succ_mul] at hle
        rw [List.flatMap_cons, List.length_append,
          ih fun j hj => hl j (List.mem_cons_of_mem i hj), chunk, List.length_range',
          List.length_cons, Nat.succ_mul, htotal]
        omega
  rw [share_eq_flatMap hchunk (Nat.le_of_eq htotal), hlength, ← List.countP_eq_length_filter,
    countP_rounds hk]
  intro i hi
  exact List.mem_range.mp (List.mem_filter.mp hi).1

end Plan

end HeapChurn
