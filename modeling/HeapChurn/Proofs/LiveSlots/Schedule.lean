import HeapChurn.Proofs.LiveSlots.Outline
import Mathlib.Data.List.Induction
import Mathlib.Order.Monotone.Basic

/-!
# The retire schedule

Which requests retire, as a schedule that is fixed by the capacity. The window of retire event `j`
is a fifth of the buffer, and the windows follow one another through the buffer round and round;
only the last of a round may be short. Between two retire events there is one request for each slot
outside the window (`retireAt`). Retire events are counted from 1, and event 0 stands for the start,
when the window is empty and at the end of the buffer.

`retires_iff` ties the schedule to the buffer: while no request fails, the buffer is full exactly
when the next request is on the schedule.
-/

namespace HeapChurn

namespace LiveSlots

/-- The windows in one round through the buffer. -/
def rotation (capacity : Nat) : Nat := (capacity + capacity / 5 - 1) / (capacity / 5)

/-- Where the window of retire event `j` starts. -/
def windowStartAt (capacity : Nat) : Nat → Nat
  | 0 => capacity
  | j + 1 => j % rotation capacity * (capacity / 5)

def windowEndAt (capacity : Nat) : Nat → Nat
  | 0 => capacity
  | j + 1 => min (windowStartAt capacity (j + 1) + capacity / 5) capacity

def windowSizeAt (capacity j : Nat) : Nat := windowEndAt capacity j - windowStartAt capacity j

/-- The request that makes retire event `j`, counted from 1. -/
def retireAt (capacity : Nat) : Nat → Nat
  | 0 => 0
  | j + 1 => retireAt capacity j + (capacity - windowSizeAt capacity j) + 1

/-- Is this request, counted from 1, on the retire schedule? -/
def Retires (capacity request : Nat) : Prop := ∃ j < request, retireAt capacity (j + 1) = request

instance (capacity request : Nat) : Decidable (Retires capacity request) :=
  inferInstanceAs (Decidable (∃ j < request, retireAt capacity (j + 1) = request))

/-- Requests for these sizes, less those on the retire schedule. -/
def kept (capacity : Nat) (sizes : List Nat) : List Nat :=
  ((sizes.zipIdx 1).filter fun x => ¬Retires capacity x.2).map (·.1)

/-! ## Windows -/

variable {capacity : Nat}

theorem lt_rotation {i : Nat} (hq : 0 < capacity / 5) (hi : i < rotation capacity) :
    i * (capacity / 5) < capacity := by
  have hle := (Nat.le_div_iff_mul_le hq).mp (Nat.succ_le_of_lt hi)
  rw [Nat.succ_mul] at hle
  omega

theorem le_rotation (hq : 0 < capacity / 5) : capacity ≤ rotation capacity * (capacity / 5) := by
  have := Nat.lt_div_mul_add (a := capacity + capacity / 5 - 1) hq
  unfold rotation
  omega

theorem rotation_pos (hq : 0 < capacity / 5) : 0 < rotation capacity := by
  have hle := le_rotation hq
  rcases Nat.eq_zero_or_pos (rotation capacity) with h | h
  · rw [h, Nat.zero_mul] at hle
    omega
  · exact h

theorem windowStartAt_le (capacity j : Nat) : windowStartAt capacity j ≤ capacity := by
  cases j with
  | zero => exact Nat.le_refl _
  | succ j =>
      rcases Nat.eq_zero_or_pos (capacity / 5) with hq | hq
      · simp [windowStartAt, hq]
      · exact Nat.le_of_lt (lt_rotation hq (Nat.mod_lt j (rotation_pos hq)))

theorem windowStartAt_le_windowEndAt (capacity j : Nat) :
    windowStartAt capacity j ≤ windowEndAt capacity j := by
  cases j with
  | zero => exact Nat.le_refl _
  | succ j => exact Nat.le_min.mpr ⟨Nat.le_add_right _ _, windowStartAt_le capacity (j + 1)⟩

theorem windowEndAt_le (capacity j : Nat) : windowEndAt capacity j ≤ capacity := by
  cases j with
  | zero => exact Nat.le_refl _
  | succ j => exact Nat.min_le_right _ _

/-- Each window starts where the one before ended, or at the front if that is the end. -/
theorem windowStartAt_succ (capacity j : Nat) : windowStartAt capacity (j + 1)
    = if capacity ≤ windowEndAt capacity j then 0 else windowEndAt capacity j := by
  cases j with
  | zero => simp [windowStartAt, windowEndAt]
  | succ j =>
      rcases Nat.eq_zero_or_pos (capacity / 5) with hq | hq
      · simp [windowStartAt, windowEndAt, hq]
      · have hj := Nat.mod_lt j (rotation_pos hq)
        have hstart := lt_rotation hq hj
        have hnext : windowStartAt capacity (j + 2)
            = (j % rotation capacity + 1) % rotation capacity * (capacity / 5) := by
          rw [windowStartAt, Nat.mod_add_mod]
        have hend : windowEndAt capacity (j + 1)
            = min ((j % rotation capacity + 1) * (capacity / 5)) capacity := by
          rw [windowEndAt, windowStartAt, Nat.succ_mul]
        rw [hnext, hend]
        rcases Nat.lt_or_ge (j % rotation capacity + 1) (rotation capacity) with hlt | hge
        · have hmore := lt_rotation hq hlt
          rw [Nat.mod_eq_of_lt hlt, Nat.min_eq_left (Nat.le_of_lt hmore),
            if_neg (Nat.not_le.mpr hmore)]
        · -- the last window of a round ends with the buffer
          have hround : j % rotation capacity + 1 = rotation capacity := by omega
          have hle := le_rotation hq
          rw [hround, Nat.mod_self, Nat.min_eq_right hle, if_pos (Nat.le_refl _), Nat.zero_mul]

/-! ## The schedule -/

theorem retireAt_lt_succ (capacity j : Nat) : retireAt capacity j < retireAt capacity (j + 1) := by
  rw [retireAt]
  omega

theorem retireAt_strictMono (capacity : Nat) : StrictMono (retireAt capacity) :=
  strictMono_nat_of_lt_succ (retireAt_lt_succ capacity)

example : (List.range 8).map (retireAt 7) = [0, 8, 15, 22, 29, 36, 43, 50] := by decide

theorem lt_retireAt (capacity : Nat) : ∀ j, j < retireAt capacity (j + 1)
  | 0 => retireAt_lt_succ capacity 0
  | j + 1 => by
      have ih := lt_retireAt capacity j
      have hlt := retireAt_lt_succ capacity (j + 1)
      omega

theorem retires_retireAt (capacity j : Nat) : Retires capacity (retireAt capacity (j + 1)) :=
  ⟨j, lt_retireAt capacity j, rfl⟩

/-- Between one retire event and the next no request is on the schedule. -/
theorem retires_between {j n : Nat} (hlow : retireAt capacity j ≤ n)
    (hhigh : n < retireAt capacity (j + 1)) :
    Retires capacity (n + 1) ↔ n + 1 = retireAt capacity (j + 1) := by
  constructor
  · rintro ⟨i, -, hi⟩
    have hji : j < i + 1 := by
      rw [← (retireAt_strictMono capacity).lt_iff_lt, hi]
      omega
    have hle : retireAt capacity (j + 1) ≤ retireAt capacity (i + 1) :=
      (retireAt_strictMono capacity).monotone hji
    omega
  · intro h
    rw [h]
    exact retires_retireAt capacity j

/-- The outline of a buffer that has stored `m` blocks since retire event `j`, and whose cursor, if it
has come to the window, may have been moved past it already. -/
structure Outline.Near (capacity j m : Nat) (o : Outline) : Prop where
  windowStart_eq : o.windowStart = windowStartAt capacity j
  windowEnd_eq : o.windowEnd = windowEndAt capacity j
  place_eq : o.place = if m < windowStartAt capacity j then m else m + windowSizeAt capacity j
  stored_le : m ≤ capacity - windowSizeAt capacity j

/-- The outline of a buffer that has stored `m` blocks since retire event `j`. -/
structure Outline.At (capacity j m : Nat) (o : Outline) : Prop where
  windowStart_eq : o.windowStart = windowStartAt capacity j
  windowEnd_eq : o.windowEnd = windowEndAt capacity j
  cursor_eq : o.cursor
    = if m ≤ windowStartAt capacity j then m else m + windowSizeAt capacity j
  stored_le : m ≤ capacity - windowSizeAt capacity j

namespace Outline

variable {j m : Nat} {o : Outline}

theorem At.start (capacity : Nat) : (Outline.start capacity).At capacity 0 0 :=
  ⟨rfl, rfl, by simp [Outline.start], Nat.zero_le _⟩

theorem At.near (h : o.At capacity j m) : o.Near capacity j m := by
  refine ⟨h.windowStart_eq, h.windowEnd_eq, ?_, h.stored_le⟩
  have hle := windowStartAt_le_windowEndAt capacity j
  unfold Outline.place
  rw [h.windowStart_eq, h.windowEnd_eq, h.cursor_eq]
  unfold windowSizeAt
  split <;> split <;> split <;> omega

theorem Near.capacity_le_place (h : o.Near capacity j m) :
    capacity ≤ o.place ↔ m = capacity - windowSizeAt capacity j := by
  have hle := windowStartAt_le_windowEndAt capacity j
  have hend := windowEndAt_le capacity j
  have hstored := h.stored_le
  rw [h.place_eq]
  unfold windowSizeAt at hstored ⊢
  split <;> omega

theorem Near.request_retires (h : o.Near capacity j m) (hfull : capacity ≤ o.place) :
    (o.request capacity).At capacity (j + 1) 0 := by
  rw [Outline.request, if_pos hfull, h.windowEnd_eq, ← windowStartAt_succ]
  exact ⟨rfl, rfl, by simp, Nat.zero_le _⟩

theorem Near.request_stores (h : o.Near capacity j m) (hroom : ¬capacity ≤ o.place) :
    (o.request capacity).At capacity j (m + 1) := by
  have hplace := h.place_eq
  have hstored := h.stored_le
  rw [h.capacity_le_place] at hroom
  rw [Outline.request, if_neg (h.capacity_le_place.not.mpr hroom)]
  refine ⟨h.windowStart_eq, h.windowEnd_eq, ?_, by omega⟩
  show o.place + 1 = _
  rw [hplace]
  split <;> split <;> omega

end Outline

theorem at_requests (capacity : Nat) : ∀ n, ∃ j m, n = retireAt capacity j + m
    ∧ (Outline.requests capacity n (.start capacity)).At capacity j m
  | 0 => ⟨0, 0, rfl, .start capacity⟩
  | n + 1 => by
      obtain ⟨j, m, hn, h⟩ := at_requests capacity n
      by_cases hfull : capacity ≤ (Outline.requests capacity n (.start capacity)).place
      · refine ⟨j + 1, 0, ?_, h.near.request_retires hfull⟩
        rw [h.near.capacity_le_place] at hfull
        rw [retireAt, hn, hfull]
      · exact ⟨j, m + 1, by omega, h.near.request_stores hfull⟩

/-- After so many requests that did not fail, the buffer is full if the schedule says so. -/
theorem retires_iff (capacity n : Nat) : Retires capacity (n + 1)
    ↔ capacity ≤ (Outline.requests capacity n (.start capacity)).place := by
  obtain ⟨j, m, hn, h⟩ := at_requests capacity n
  have hstored := h.stored_le
  have hlow : retireAt capacity j ≤ n := by omega
  have hhigh : n < retireAt capacity (j + 1) := by
    rw [retireAt]
    omega
  rw [retires_between hlow hhigh, h.near.capacity_le_place, retireAt]
  omega

/-! ## The requests that are kept -/

theorem kept_concat (capacity : Nat) (sizes : List Nat) (size : Nat) :
    kept capacity (sizes ++ [size])
      = if Retires capacity (sizes.length + 1) then kept capacity sizes
        else kept capacity sizes ++ [size] := by
  unfold kept
  rw [List.zipIdx_append, List.filter_append, List.map_append, Nat.add_comm 1]
  by_cases h : Retires capacity (sizes.length + 1) <;> simp [h]

theorem length_kept_le (capacity : Nat) (sizes : List Nat) :
    (kept capacity sizes).length ≤ sizes.length := by
  unfold kept
  rw [List.length_map]
  exact (List.length_filter_le _ _).trans (Nat.le_of_eq List.length_zipIdx)

/-- The counts of a buffer are the numbers of requests kept and not kept. -/
theorem counts_requests (capacity : Nat) (sizes : List Nat) :
    let o := Outline.requests capacity sizes.length (.start capacity)
    o.allocated = UInt64.ofNat (kept capacity sizes).length
      ∧ o.retires = UInt64.ofNat (sizes.length - (kept capacity sizes).length) := by
  induction sizes using List.reverseRecOn with
  | nil => exact ⟨rfl, rfl⟩
  | append_singleton sizes size ih =>
      have hle := length_kept_le capacity sizes
      obtain ⟨hallocated, hretires⟩ := ih
      rw [List.length_append, List.length_singleton, Outline.requests, Outline.request, kept_concat]
      by_cases h : Retires capacity (sizes.length + 1)
      · rw [if_pos h, if_pos ((retires_iff _ _).mp h)]
        refine ⟨hallocated, ?_⟩
        show _ + 1 = _
        rw [hretires, Nat.sub_add_comm hle, UInt64.ofNat_add]
        rfl
      · rw [if_neg h, if_neg ((retires_iff _ _).not.mp h)]
        refine ⟨?_, ?_⟩
        · show _ + 1 = _
          rw [hallocated, List.length_append, UInt64.ofNat_add]
          rfl
        · show Outline.retires _ = _
          rw [hretires, List.length_append, List.length_singleton, Nat.add_sub_add_right]

end LiveSlots

end HeapChurn
