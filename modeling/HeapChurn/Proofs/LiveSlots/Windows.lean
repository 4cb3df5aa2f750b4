import HeapChurn.Proofs.LiveSlots.Answers
import HeapChurn.Proofs.LiveSlots.Retirement
import HeapChurn.Proofs.LiveSlots.Schedule
import Mathlib.Algebra.Order.Floor.Div

/-!
# Windows on the schedule

A buffer keeps to the retire schedule over its whole history. A request that fails only moves the
cursor past the window, so it does not count; a release of everything starts the schedule anew.
`Scheduled` is the invariant: after the requests that count, the buffer has retired at the scheduled
ones, and its window is the one of the last retire event. `Ledger.scheduled` shows it by induction on
the history.

The windows themselves go round and round: of as many windows in a row as make a round, each slot
lies in exactly one (`existsUnique_protects`), and two windows in a row have no slot in common.
-/

namespace HeapChurn

namespace LiveSlots

/-! ## The windows of a round -/

/-- Does the window of retire event `j` keep this slot? -/
def Protects (capacity j i : Nat) : Prop :=
  windowStartAt capacity j ≤ i ∧ i < windowEndAt capacity j

variable {capacity : Nat}

theorem rotation_eq_ceilDiv (capacity : Nat) : rotation capacity = capacity ⌈/⌉ (capacity / 5) :=
  (Nat.ceilDiv_eq_add_pred_div _ _).symm

/-- A round takes more than one window. -/
theorem one_lt_rotation (hq : 0 < capacity / 5) : 1 < rotation capacity := by
  have hle := le_rotation hq
  rcases Nat.lt_or_ge 1 (rotation capacity) with h | h
  · exact h
  · have := Nat.mul_le_mul_right (capacity / 5) h
    omega

/-- A slot is kept by the windows that have its place in the round. -/
theorem protects_succ_iff (hq : 0 < capacity / 5) {j i : Nat} :
    Protects capacity (j + 1) i ↔ i < capacity ∧ j % rotation capacity = i / (capacity / 5) := by
  unfold Protects
  rw [windowEndAt, windowStartAt, ← Nat.succ_mul, Nat.lt_min, ← Nat.le_div_iff_mul_le hq,
    ← Nat.div_lt_iff_lt_mul hq]
  omega

theorem lt_of_protects {j i : Nat} (h : Protects capacity j i) : i < capacity :=
  Nat.lt_of_lt_of_le h.2 (windowEndAt_le capacity j)

theorem eq_of_mod_eq {p j k : Nat} (h : j % p = k % p) (hjk : j < k + p) (hkj : k < j + p) :
    j = k := by
  have hj := Nat.sub_mod_eq_zero_of_mod_eq h
  have hk := Nat.sub_mod_eq_zero_of_mod_eq h.symm
  rw [Nat.mod_eq_of_lt (by omega)] at hj hk
  omega

/-- Among `p` numbers in a row each remainder comes once. -/
theorem existsUnique_mod_eq {p r : Nat} (hr : r < p) (first : Nat) :
    ∃! j, first ≤ j ∧ j < first + p ∧ j % p = r := by
  have hpos : 0 < p := Nat.lt_of_le_of_lt (Nat.zero_le r) hr
  have hfirst := Nat.mod_lt first hpos
  have hshift := Nat.mod_lt (r + p - first % p) hpos
  have hmod : (first + (r + p - first % p) % p) % p = r := by
    have hsum : first % p + (r + p - first % p) = r + p := by omega
    rw [Nat.add_mod_mod, ← Nat.mod_add_mod, hsum, Nat.add_mod_right, Nat.mod_eq_of_lt hr]
  refine ⟨first + (r + p - first % p) % p, ⟨Nat.le_add_right _ _, by omega, hmod⟩, ?_⟩
  rintro j ⟨hlow, hhigh, hj⟩
  exact eq_of_mod_eq (hj.trans hmod.symm) (by omega) (by omega)

/-- Of as many windows in a row as make a round, one keeps a slot. -/
theorem existsUnique_protects (hq : 0 < capacity / 5) {i : Nat} (hi : i < capacity) {first : Nat}
    (hfirst : 1 ≤ first) :
    ∃! j, first ≤ j ∧ j < first + rotation capacity ∧ Protects capacity j i := by
  have hplace : i / (capacity / 5) < rotation capacity :=
    (Nat.div_lt_iff_lt_mul hq).mpr (Nat.lt_of_lt_of_le hi (le_rotation hq))
  obtain ⟨first, rfl⟩ := Nat.exists_eq_add_of_le' hfirst
  obtain ⟨j, ⟨hlow, hhigh, hj⟩, hunique⟩ := existsUnique_mod_eq hplace first
  refine ⟨j + 1, ⟨by omega, by omega, (protects_succ_iff hq).mpr ⟨hi, hj⟩⟩, ?_⟩
  rintro k ⟨hklow, hkhigh, hk⟩
  obtain ⟨k, rfl⟩ := Nat.exists_eq_add_of_le' (Nat.le_trans hfirst hklow)
  exact congrArg (· + 1) (hunique k ⟨by omega, by omega, ((protects_succ_iff hq).mp hk).2⟩)

/-- Two windows in a row keep no slot in common. -/
theorem not_protects_succ (hq : 0 < capacity / 5) {j i : Nat} (hj : 1 ≤ j)
    (h : Protects capacity j i) : ¬Protects capacity (j + 1) i := by
  obtain ⟨j, rfl⟩ := Nat.exists_eq_add_of_le' hj
  intro hnext
  have hsame := ((protects_succ_iff hq).mp h).2.trans ((protects_succ_iff hq).mp hnext).2.symm
  have := one_lt_rotation hq
  have := eq_of_mod_eq hsame (by omega) (by omega)
  omega

/-- Thirteen slots make six windows of two and one of one. -/
example : (List.range 8).map (fun j => (windowStartAt 13 (j + 1), windowEndAt 13 (j + 1)))
    = [(0, 2), (2, 4), (4, 6), (6, 8), (8, 10), (10, 12), (12, 13), (0, 2)] := by decide

/-! ## Histories -/

/-- What a deed adds to the requests that count. -/
def Deed.follow (steps : List Step) : Deed → List Step
  | .request _ (.ok step) => steps ++ [step]
  | .clear => []
  | _ => steps

/-- What the requests came to that did not fail, since the buffer was last empty. -/
def Ledger.steps (deeds : List Deed) : List Step := deeds.foldl Deed.follow []

theorem Ledger.steps_concat (deeds : List Deed) (deed : Deed) :
    Ledger.steps (deeds ++ [deed]) = deed.follow (Ledger.steps deeds) :=
  List.foldl_concat ..

/-- The requests that retired the buffer, counted from 1. -/
def retiredAt (steps : List Step) : List Nat :=
  ((steps.zipIdx 1).filter fun x => x.1 = .retired).map (·.2)

theorem retiredAt_concat (steps : List Step) (step : Step) :
    retiredAt (steps ++ [step])
      = retiredAt steps ++ if step = .retired then [steps.length + 1] else [] := by
  unfold retiredAt
  rw [List.zipIdx_append, List.filter_append, List.map_append, Nat.add_comm 1]
  cases step <;> rfl

/-- A cursor is not moved past the window twice. -/
@[simp] theorem skipWindow_skipWindow (s : LiveSlots) : s.skipWindow.skipWindow = s.skipWindow := by
  by_cases h : s.cursor = s.windowStart
  · have hskip : s.skipWindow = { s with cursor := s.windowEnd } := if_pos h
    rw [hskip, skipWindow]
    split <;> rfl
  · have hskip : s.skipWindow = s := if_neg h
    rw [hskip, hskip]

/-- A buffer that has kept to the schedule since it was last empty. -/
structure Scheduled (capacity : Nat) (steps : List Step) (s : LiveSlots) : Prop where
  capacity_eq : s.capacity = capacity
  near : ∃ m, steps.length = retireAt capacity (steps.count .retired) + m
    ∧ s.outline.Near capacity (steps.count .retired) m
  retiredAt_eq : retiredAt steps
    = (List.range (steps.count .retired)).map fun j => retireAt capacity (j + 1)

namespace Scheduled

variable {steps : List Step} {s : LiveSlots}

theorem empty (capacity : Nat) : Scheduled capacity [] (.empty capacity) :=
  ⟨capacity_empty capacity, ⟨0, rfl, (Outline.At.start capacity).near⟩, rfl⟩

theorem clear (h : s.capacity = capacity) : Scheduled capacity [] s.clear := by
  subst h
  have hempty := Scheduled.empty s.capacity
  obtain ⟨m, hm, hnear⟩ := hempty.near
  exact ⟨hempty.capacity_eq, ⟨m, hm, hnear.windowStart_eq, hnear.windowEnd_eq, hnear.place_eq,
    hnear.stored_le⟩, hempty.retiredAt_eq⟩

/-- A cursor that moves past the window does not change what comes next. -/
theorem skipWindow (h : Scheduled capacity steps s) : Scheduled capacity steps s.skipWindow := by
  obtain ⟨m, hm, hnear⟩ := h.near
  have hplace : s.skipWindow.outline.place = s.outline.place := by
    rw [← cursor_skipWindow, ← cursor_skipWindow, skipWindow_skipWindow]
  exact ⟨(capacity_skipWindow s).trans h.capacity_eq, ⟨m, hm,
    (windowStart_skipWindow s).trans hnear.windowStart_eq,
    (windowEnd_skipWindow s).trans hnear.windowEnd_eq, hplace.trans hnear.place_eq,
    hnear.stored_le⟩, h.retiredAt_eq⟩

/-- A request that retires the buffer is the next one on the schedule. -/
theorem retire (h : Scheduled capacity steps s) {t : LiveSlots} (hend : s.capacity ≤ s.outline.place)
    (hcapacity : t.capacity = s.capacity) (houtline : t.outline = s.outline.request s.capacity) :
    Scheduled capacity (steps ++ [.retired]) t := by
  obtain ⟨m, hm, hnear⟩ := h.near
  rw [h.capacity_eq] at hend hcapacity houtline
  have hfull : m = capacity - windowSizeAt capacity (steps.count .retired) :=
    hnear.capacity_le_place.mp hend
  have hcount : (steps ++ [Step.retired]).count .retired = steps.count .retired + 1 := by
    rw [List.count_append]
    rfl
  have hlength : steps.length + 1 = retireAt capacity (steps.count .retired + 1) := by
    rw [hm, hfull, retireAt]
  refine ⟨hcapacity, ⟨0, ?_, ?_⟩, ?_⟩
  · rw [List.length_append, hcount]
    exact hlength
  · rw [hcount, houtline]
    exact (hnear.request_retires hend).near
  · rw [retiredAt_concat, if_pos rfl, hcount, List.range_succ, List.map_append, h.retiredAt_eq,
      hlength]
    rfl

/-- A request that stores a block comes before the next one on the schedule. -/
theorem store (h : Scheduled capacity steps s) {t : LiveSlots} (hroom : ¬s.capacity ≤ s.outline.place)
    (hcapacity : t.capacity = s.capacity) (houtline : t.outline = s.outline.request s.capacity) :
    Scheduled capacity (steps ++ [.allocated]) t := by
  obtain ⟨m, hm, hnear⟩ := h.near
  rw [h.capacity_eq] at hroom hcapacity houtline
  have hcount : (steps ++ [Step.allocated]).count .retired = steps.count .retired := by
    rw [List.count_append]
    rfl
  refine ⟨hcapacity, ⟨m + 1, ?_, ?_⟩, ?_⟩
  · rw [List.length_append, hcount, hm]
    rfl
  · rw [hcount, houtline]
    exact (hnear.request_stores hroom).near
  · rw [retiredAt_concat, if_neg nofun, hcount, List.append_nil]
    exact h.retiredAt_eq

end Scheduled

theorem Served.scheduled {a : Allocator} {steps : List Step} {s s' : LiveSlots} {size : Nat}
    {j j' : Journal} {answer : Except Error Step} (h : Scheduled capacity steps s)
    (hserved : Served a s size j (answer, s') j') :
    Scheduled capacity (Deed.follow steps (.request size answer)) s' := by
  generalize hout : (answer, s') = out at hserved
  cases hserved with
  | retired hend =>
      obtain ⟨rfl, rfl⟩ := Prod.mk.inj hout
      have hretired : Served a s size j (.ok .retired, s.skipWindow.retire) _ := .retired hend
      rw [cursor_skipWindow] at hend
      exact h.retire hend (by simp) hretired.outline_eq
  | noLayout _ _ =>
      obtain ⟨rfl, rfl⟩ := Prod.mk.inj hout
      exact h.skipWindow
  | refused _ _ _ =>
      obtain ⟨rfl, rfl⟩ := Prod.mk.inj hout
      exact h.skipWindow
  | stored hroom hsize hanswer =>
      obtain ⟨rfl, rfl⟩ := Prod.mk.inj hout
      have hstored := Served.stored hroom hsize hanswer
      rw [cursor_skipWindow] at hroom
      exact h.store (Nat.not_le.mpr hroom) (by simp) hstored.outline_eq

/-- A buffer keeps to the schedule, whatever its history. -/
theorem Ledger.scheduled {a : Allocator} {start : Journal} {deeds : List Deed} {s : LiveSlots}
    {j : Journal} (h : Ledger a capacity start deeds s j) :
    Scheduled capacity (Ledger.steps deeds) s := by
  induction h with
  | opened => exact .empty capacity
  | request _ hserved ih =>
      rw [Ledger.steps_concat]
      exact hserved.scheduled ih
  | cleared _ ih =>
      rw [Ledger.steps_concat]
      exact .clear ih.capacity_eq
  | drained _ _ ih =>
      rw [Ledger.steps_concat]
      exact ih
  | noted _ _ ih => exact ih

/-- The last retire event is the last one that the requests so far have come to on the schedule. -/
theorem Scheduled.between {steps : List Step} {s : LiveSlots} (h : Scheduled capacity steps s) :
    retireAt capacity (steps.count .retired) ≤ steps.length
      ∧ steps.length < retireAt capacity (steps.count .retired + 1) := by
  obtain ⟨m, hm, hnear⟩ := h.near
  have hstored := hnear.stored_le
  rw [retireAt]
  omega

/-! ## The schedule of a capacity -/

/-- How retire events and windows follow one another in a buffer of so many slots. -/
structure Rotating (capacity : Nat) : Prop where
  first : retireAt capacity 1 = capacity + 1
  next : ∀ j, 1 ≤ j → retireAt capacity (j + 1)
    = retireAt capacity j + capacity - windowSizeAt capacity j + 1
  narrow : capacity / 5 = 0 → ∀ j, 1 ≤ j →
    windowStartAt capacity j = 0 ∧ windowEndAt capacity j = 0
  wide : 1 ≤ capacity / 5 → ∀ j, 1 ≤ j →
    let start := (j - 1) % (capacity ⌈/⌉ (capacity / 5)) * (capacity / 5)
    windowStartAt capacity j = start
      ∧ windowEndAt capacity j = min (start + capacity / 5) capacity
  /-- Each slot is kept once in a round, wherever the round starts. -/
  once : 1 ≤ capacity / 5 → ∀ i < capacity, ∀ first, 1 ≤ first →
    ∃! j, first ≤ j ∧ j < first + capacity ⌈/⌉ (capacity / 5) ∧ Protects capacity j i
  inside : ∀ j i, Protects capacity j i → i < capacity
  apart : 1 ≤ capacity / 5 → ∀ j, 1 ≤ j → ∀ i, Protects capacity j i → ¬Protects capacity (j + 1) i

theorem rotating (capacity : Nat) : Rotating capacity where
  first := by
    rw [retireAt, retireAt, windowSizeAt, windowEndAt, windowStartAt]
    omega
  next j _ := by
    have := windowEndAt_le capacity j
    rw [retireAt, windowSizeAt]
    omega
  narrow hq j hj := by
    obtain ⟨j, rfl⟩ := Nat.exists_eq_add_of_le' hj
    simp [windowStartAt, windowEndAt, hq]
  wide _ j hj := by
    obtain ⟨j, rfl⟩ := Nat.exists_eq_add_of_le' hj
    rw [← rotation_eq_ceilDiv]
    exact ⟨rfl, rfl⟩
  once hq i hi first hfirst := by
    rw [← rotation_eq_ceilDiv]
    exact existsUnique_protects hq hi hfirst
  inside _ _ h := lt_of_protects h
  apart hq _ hj _ h := not_protects_succ hq hj h

/-- Whatever is asked for, refused and released: since the buffer was last empty, retire event `j`
was the request `retireAt capacity j` of those that did not fail, and set window `j`. -/
theorem retires_on_schedule {s : LiveSlots} (h : ofCapacity capacity = .ok s) (a : Allocator)
    (calls : List Call) (v : View) :
    let served := (attend calls s).run a v
    let steps := Ledger.steps served.1.1
    let events := steps.count .retired
    retiredAt steps = (List.range events).map (fun j => retireAt capacity (j + 1))
      ∧ retireAt capacity events ≤ steps.length ∧ steps.length < retireAt capacity (events + 1)
      ∧ served.1.2.windowStart = windowStartAt capacity events
      ∧ served.1.2.windowEnd = windowEndAt capacity events
      ∧ Rotating capacity := by
  obtain ⟨-, rfl⟩ := ofCapacity_eq_ok h
  have hholds : v.Holds [] fun _ => none := nofun
  have hopened : Ledger a capacity v.journal [] (empty capacity) v.journal := .opened
  have hscheduled := (enter_attend calls hholds hopened).run_self.1.scheduled
  rw [List.nil_append] at hscheduled
  obtain ⟨m, -, hnear⟩ := hscheduled.near
  exact ⟨hscheduled.retiredAt_eq, hscheduled.between.1, hscheduled.between.2,
    hnear.windowStart_eq, hnear.windowEnd_eq, rotating capacity⟩

/-- Five slots with windows of one: three requests, a release of everything, and twelve requests of
which the fourth is refused. -/
theorem retires_on_schedule_five :
    let a : Allocator := { refuses := fun _ call _ => call = 6, overwrites := fun _ _ => [] }
    let calls : List Call :=
      List.replicate 3 (.allocate 8) ++ .releaseAll :: List.replicate 12 (.allocate 8)
    let served := (attend calls (empty 5)).run a ⟨#[], { thread := .worker 0 }⟩
    ofCapacity 5 = .ok (empty 5)
      ∧ retiredAt (Ledger.steps served.1.1) = [6, 11]
      ∧ (served.1.2.windowStart, served.1.2.windowEnd) = (1, 2)
      ∧ Rotating 5 := by
  intro a calls served
  have hopen : ofCapacity 5 = .ok (empty 5) := rfl
  obtain ⟨hretired, -, -, hstart, hend, hrotating⟩ :=
    retires_on_schedule hopen a calls ⟨#[], { thread := .worker 0 }⟩
  exact ⟨hopen, hretired, Prod.ext hstart hend, hrotating⟩

end LiveSlots

end HeapChurn
