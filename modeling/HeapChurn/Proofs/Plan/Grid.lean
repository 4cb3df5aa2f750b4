import HeapChurn.Plan
import Mathlib.Algebra.Ring.Nat

/-!
# The grid of a plan

A plan whose pool can be reserved deals it in whole rounds: one chunk for each pair of workers. The
product of the worker count with itself stops at the largest word, and then the pool would not be a
whole number of rounds; but such a pool is too large for any array, unless it is empty.

Without the array there is one exception, and `gridded_iff` says which: the largest word of foreign
blocks for so many workers that the grid stops. Their plan has a pool and no chunk to deal.
-/

namespace HeapChurn

namespace Config

variable {c : Config} {p : Plan}

theorem effectiveWorkers_pos (c : Config) : 0 < c.effectiveWorkers := by
  unfold effectiveWorkers
  split <;> omega

theorem plan_eq (h : c.plan = .ok p) : p.workers = c.effectiveWorkers
    ∧ p.foreignTotal = c.foreignTotal
    ∧ p.foreignQuota = p.foreignTotal / p.workers
    ∧ p.foreignChunk = p.foreignQuota / p.workers := by
  simp only [plan] at h
  split at h
  · cases h
  · cases h
    exact ⟨rfl, rfl, rfl, rfl⟩

theorem workers_pos (h : c.plan = .ok p) : 0 < p.workers :=
  (plan_eq h).1 ▸ c.effectiveWorkers_pos

/-- A grid that stops at the largest word leaves no pool that could be reserved. -/
theorem grid_eq_of_reservable (hreservable : reservable c.foreignTotal = true)
    (hpos : c.foreignTotal ≠ 0) : c.grid = c.effectiveWorkers * c.effectiveWorkers := by
  have hsmall : c.foreignTotal * slotBytes ≤ Word.largestObject := by
    simpa [reservable] using hreservable
  have hgrid : c.grid ≤ c.foreignTotal := by
    unfold foreignTotal at hpos ⊢
    exact Nat.le_mul_of_pos_left _ (Nat.pos_of_ne_zero fun h => hpos (by rw [h, Nat.zero_mul]))
  have hlt : c.grid < Word.largest := by
    simp only [slotBytes, Word.largestObject, Word.largest, Word.modulus, UInt64.size] at hsmall ⊢
    omega
  unfold grid Word.saturatingMul at hlt ⊢
  omega

/-- A pool of so many whole rounds gives each worker a chunk of every round. -/
theorem shares_of_rounds (h : c.plan = .ok p) {chunk : Nat}
    (hrounds : p.foreignTotal = p.workers * (p.workers * chunk)) :
    p.foreignQuota = p.workers * chunk ∧ p.foreignChunk = chunk := by
  obtain ⟨-, -, hquota, hchunk⟩ := plan_eq h
  have hpos := workers_pos h
  rw [hrounds, Nat.mul_div_cancel_left _ hpos] at hquota
  rw [hquota, Nat.mul_div_cancel_left _ hpos] at hchunk
  exact ⟨hquota, hchunk⟩

/-- Where the grid does not stop, the pool is a whole number of rounds. -/
theorem rounds_of_grid (h : c.plan = .ok p)
    (hgrid : c.grid = c.effectiveWorkers * c.effectiveWorkers) :
    p.foreignTotal = p.workers * (p.workers * (c.foreignAllocs / c.grid)) := by
  obtain ⟨hworkers, htotal, -, -⟩ := plan_eq h
  rw [htotal, foreignTotal, hworkers, ← Nat.mul_assoc, ← hgrid, Nat.mul_comm]

/-- A pool that can be reserved is as many rounds as there are workers, and a quota is one chunk of
each. -/
theorem plan_grid (h : c.plan = .ok p) (hreservable : reservable p.foreignTotal = true) :
    p.foreignTotal = p.workers * p.workers * p.foreignChunk
      ∧ p.foreignQuota = p.workers * p.foreignChunk := by
  obtain ⟨chunk, hrounds⟩ : ∃ chunk, p.foreignTotal = p.workers * (p.workers * chunk) := by
    by_cases hzero : p.foreignTotal = 0
    · exact ⟨0, hzero⟩
    · have htotal := (plan_eq h).2.1
      rw [htotal] at hreservable hzero
      exact ⟨_, rounds_of_grid h (grid_eq_of_reservable hreservable hzero)⟩
  obtain ⟨hquota, hchunk⟩ := shares_of_rounds h hrounds
  rw [hrounds, hquota, hchunk, Nat.mul_assoc]
  exact ⟨rfl, rfl⟩

theorem chunk_ne_zero (h : c.plan = .ok p) (hreservable : reservable p.foreignTotal = true)
    (hpos : p.foreignTotal ≠ 0) : p.foreignChunk ≠ 0 := by
  intro hzero
  rw [(plan_grid h hreservable).1, hzero, Nat.mul_zero] at hpos
  exact hpos rfl

/-! ## Plans without an array -/

/-- A plan deals as many foreign blocks as fill whole rounds, and deals all of them. -/
structure Gridded (c : Config) (p : Plan) : Prop where
  whole : p.workers * p.workers ∣ p.foreignTotal
  enough : p.foreignTotal ≤ c.foreignAllocs
  largest : ∀ n, p.workers * p.workers ∣ n → n ≤ c.foreignAllocs → n ≤ p.foreignTotal
  quota : p.foreignQuota * p.workers = p.foreignTotal
  chunk : p.foreignChunk * p.workers * p.workers = p.foreignTotal
  owned : 0 < p.foreignTotal → 1 ≤ p.foreignChunk

theorem gridded_of_rounds (h : c.plan = .ok p) {chunk : Nat}
    (hrounds : p.foreignTotal = p.workers * (p.workers * chunk))
    (henough : p.foreignTotal ≤ c.foreignAllocs)
    (hlargest : ∀ n, p.workers * p.workers ∣ n → n ≤ c.foreignAllocs → n ≤ p.foreignTotal) :
    Gridded c p := by
  obtain ⟨hquota, hchunk⟩ := shares_of_rounds h hrounds
  refine ⟨⟨chunk, ?_⟩, henough, hlargest, ?_, ?_, fun hpos => ?_⟩
  · rw [hrounds, Nat.mul_assoc]
  · rw [hquota, hrounds, Nat.mul_comm]
  · rw [hchunk, hrounds, Nat.mul_assoc, Nat.mul_comm, Nat.mul_assoc]
  · rw [hchunk, Nat.one_le_iff_ne_zero]
    rintro rfl
    rw [hrounds] at hpos
    simp at hpos

theorem gridded_of_grid (h : c.plan = .ok p)
    (hgrid : c.grid = c.effectiveWorkers * c.effectiveWorkers) : Gridded c p := by
  obtain ⟨hworkers, htotal, -, -⟩ := plan_eq h
  have hpos : 0 < c.grid := by
    rw [hgrid]
    exact Nat.mul_pos c.effectiveWorkers_pos c.effectiveWorkers_pos
  refine gridded_of_rounds h (rounds_of_grid h hgrid) ?_ ?_
  · rw [htotal]
    exact Nat.div_mul_le_self _ _
  · rintro n ⟨k, rfl⟩ hn
    rw [hworkers, ← hgrid, Nat.mul_comm] at hn ⊢
    rw [htotal]
    exact Nat.mul_le_mul_right _ ((Nat.le_div_iff_mul_le hpos).mpr hn)

theorem grid_eq_of_few (hfew : c.effectiveWorkers < 2 ^ 32) :
    c.grid = c.effectiveWorkers * c.effectiveWorkers := by
  have hsquare : c.effectiveWorkers * c.effectiveWorkers ≤ (2 ^ 32 - 1) * (2 ^ 32 - 1) :=
    Nat.mul_le_mul (by omega) (by omega)
  unfold grid Word.saturatingMul
  simp only [Word.largest, Word.modulus, UInt64.size]
  omega

theorem grid_eq_of_many (hmany : 2 ^ 32 ≤ c.effectiveWorkers) :
    c.grid = Word.largest
      ∧ Word.largest < c.effectiveWorkers * c.effectiveWorkers := by
  have hsquare : 2 ^ 32 * 2 ^ 32 ≤ c.effectiveWorkers * c.effectiveWorkers :=
    Nat.mul_le_mul hmany hmany
  unfold grid Word.saturatingMul
  simp only [Word.largest, Word.modulus, UInt64.size]
  omega

/-- Every plan deals its pool in whole rounds but one: where the grid stops and the largest word of
blocks is asked for. There the pool is that word, and nobody owns a chunk of it. -/
theorem gridded_iff (h : c.plan = .ok p) (hword : c.foreignAllocs ≤ Word.largest) :
    (Gridded c p ↔ ¬(2 ^ 32 ≤ p.workers ∧ c.foreignAllocs = Word.largest))
      ∧ (2 ^ 32 ≤ p.workers → c.foreignAllocs = Word.largest →
        p.foreignTotal = Word.largest ∧ p.foreignChunk = 0) := by
  obtain ⟨hworkers, htotal, hquota, hchunk⟩ := plan_eq h
  rcases Nat.lt_or_ge p.workers (2 ^ 32) with hfew | hmany
  · have hgridded := gridded_of_grid h (grid_eq_of_few (hworkers ▸ hfew))
    exact ⟨iff_of_true hgridded fun hmany => by omega, fun hmany => by omega⟩
  · obtain ⟨hgrid, hsquare⟩ := grid_eq_of_many (hworkers ▸ hmany)
    rw [← hworkers] at hsquare
    rw [foreignTotal, hgrid] at htotal
    by_cases hall : c.foreignAllocs = Word.largest
    · rw [hall, Nat.div_self (by decide), Nat.one_mul] at htotal
      refine ⟨iff_of_false (fun hgridded => ?_) (fun hnot => hnot ⟨hmany, hall⟩), fun _ _ => ?_⟩
      · have hle := Nat.le_of_dvd (htotal ▸ by decide) hgridded.whole
        omega
      · refine ⟨htotal, ?_⟩
        rw [hchunk, hquota, htotal, Nat.div_div_eq_div_mul]
        exact Nat.div_eq_of_lt hsquare
    · rw [Nat.div_eq_of_lt (by omega), Nat.zero_mul] at htotal
      refine ⟨iff_of_true ?_ fun hboth => hall hboth.2, fun _ heq => absurd heq hall⟩
      have hrounds : p.foreignTotal = p.workers * (p.workers * 0) := by simpa using htotal
      refine gridded_of_rounds h hrounds (by omega) ?_
      rintro n ⟨k, rfl⟩ hn
      rcases Nat.eq_zero_or_pos k with rfl | hk
      · simp
      · have := Nat.le_mul_of_pos_right (p.workers * p.workers) hk
        omega

/-- One worker less than those of the exception, and the largest word of blocks. -/
theorem gridded_iff_largest :
    Config.plan ⟨2 ^ 32, 0, 2 ^ 32 - 1, Word.largest, none⟩
        = .ok ⟨2 ^ 32 - 1, 1, 0, 18446744065119617025, 4294967295, 1, none⟩
      ∧ Gridded ⟨2 ^ 32, 0, 2 ^ 32 - 1, Word.largest, none⟩
        ⟨2 ^ 32 - 1, 1, 0, 18446744065119617025, 4294967295, 1, none⟩ := by
  have hplan : Config.plan ⟨2 ^ 32, 0, 2 ^ 32 - 1, Word.largest, none⟩
      = .ok ⟨2 ^ 32 - 1, 1, 0, 18446744065119617025, 4294967295, 1, none⟩ := rfl
  exact ⟨hplan, (gridded_iff hplan (Nat.le_refl _)).1.mpr (by decide)⟩

/-- Not every plan is dealt in whole rounds, even if all its figures are words: here a pool of the
largest word is left without an owner. -/
theorem not_gridded_of_stopped_grid : ¬∀ (c : Config) (p : Plan), c.heapSlots ≤ Word.largest →
    c.iterations ≤ Word.largest → c.workers ≤ Word.largest → c.foreignAllocs ≤ Word.largest →
    c.plan = .ok p → Gridded c p := by
  intro hall
  have hplan : Config.plan ⟨2 ^ 32, 0, 2 ^ 32, Word.largest, none⟩
      = .ok ⟨2 ^ 32, 1, 0, Word.largest, 4294967295, 0, none⟩ := rfl
  have howned := (hall _ _ (by decide) (by decide) (by decide) (by decide) hplan).owned (by decide)
  exact absurd howned (by decide)

end Config

end HeapChurn
