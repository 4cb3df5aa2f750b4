import HeapChurn.Proofs.Routine.Contract
import Mathlib.Logic.Function.Basic

/-!
# Contracts of single actions

What each action does, seen by a thread that has some slots of the foreign pool to itself. The
others may ask the allocator for blocks, and that may overwrite any tag, so what a thread can rely
on is which block lies in each of its slots, and not what is written in it
(`Interference.retagging`). `View.Holds` is that knowledge; every action keeps it but `take`, which
empties one slot.
-/

namespace HeapChurn

namespace PoolSlots

/-- The block in a slot, whatever its tag. -/
def blockAt (pool : PoolSlots) (slot : Nat) : Option Block := pool[slot]?.join.map (·.block)

@[simp] theorem blockAt_overwrite (pool : PoolSlots) (o : Overwrite) (s : Nat) :
    (pool.overwrite o).blockAt s = pool.blockAt s := by
  simp only [blockAt, overwrite, Array.getElem?_map]
  cases pool[s]? with
  | none => rfl
  | some slot =>
      cases slot with
      | none => rfl
      | some b =>
          by_cases h : b.block.id = o.block <;> simp [h]

@[simp] theorem blockAt_overwriteAll (pool : PoolSlots) (os : List Overwrite) (s : Nat) :
    (pool.overwriteAll os).blockAt s = pool.blockAt s := by
  unfold overwriteAll
  induction os generalizing pool with
  | nil => rfl
  | cons o os ih => rw [List.foldl_cons, ih, blockAt_overwrite]

@[simp] theorem blockAt_emptied_self (pool : PoolSlots) (s : Nat) :
    PoolSlots.blockAt (pool.setIfInBounds s none) s = none := by
  by_cases h : s < pool.size <;> simp [blockAt, h]

theorem blockAt_emptied_of_ne (pool : PoolSlots) {s t : Nat} (h : s ≠ t) :
    PoolSlots.blockAt (pool.setIfInBounds s none) t = pool.blockAt t := by
  simp [blockAt, h]

theorem blockAt_push (pool : PoolSlots) (b : TaggedBlock) (s : Nat) :
    PoolSlots.blockAt (pool.push (some b)) s
      = if s = pool.size then some b.block else pool.blockAt s := by
  simp only [blockAt, Array.getElem?_push]
  split <;> rfl

@[simp] theorem size_overwriteAll (pool : PoolSlots) (os : List Overwrite) :
    (pool.overwriteAll os).size = pool.size := by
  unfold overwriteAll
  induction os generalizing pool with
  | nil => rfl
  | cons o os ih => rw [List.foldl_cons, ih, overwrite, Array.size_map]

/-- Every block names the slot in which it lies. -/
def Honest (pool : PoolSlots) : Prop :=
  ∀ (s : Nat) (b : TaggedBlock), pool[s]? = some (some b) → b.tag = s

theorem Honest.emptied {pool : PoolSlots} (h : pool.Honest) (t : Nat) :
    PoolSlots.Honest (pool.setIfInBounds t none) := by
  intro s b hb
  by_cases hst : t = s
  · subst hst
    rw [Array.getElem?_setIfInBounds_self] at hb
    split at hb <;> cases hb
  · rw [Array.getElem?_setIfInBounds_ne hst] at hb
    exact h s b hb

theorem Honest.push {pool : PoolSlots} (h : pool.Honest) {b : TaggedBlock}
    (hb : b.tag = pool.size) : PoolSlots.Honest (pool.push (some b)) := by
  intro s c hc
  rw [Array.getElem?_push] at hc
  split at hc
  · cases hc
    subst s
    exact hb
  · exact h s c hc

end PoolSlots

/-- The others may write over the tags in some slots, but they leave the blocks where they are. -/
def Interference.retagging (slots : List Nat) : Interference := .sparing PoolSlots.blockAt slots

/-- The slots hold the blocks that `held` says. -/
def View.Holds (v : View) (slots : List Nat) (held : Nat → Option Block) : Prop :=
  ∀ s ∈ slots, v.pool.blockAt s = held s

theorem View.Holds.shift {v : View} {slots : List Nat} {held : Nat → Option Block}
    (h : v.Holds slots held) {pool : PoolSlots} {j : Journal}
    (hpool : (Interference.retagging slots).Allows v.pool pool) :
    View.Holds ⟨pool, j⟩ slots held :=
  fun s hs => (hpool s hs).trans (h s hs)

/-- What the slots hold when some of them were emptied. -/
def without (held : Nat → Option Block) (gone : List Nat) : Nat → Option Block :=
  fun s => if s ∈ gone then none else held s

@[simp] theorem without_nil (held : Nat → Option Block) : without held [] = held := by
  funext s
  simp [without]

theorem without_of_notMem {held : Nat → Option Block} {gone : List Nat} {s : Nat}
    (h : s ∉ gone) : without held gone s = held s :=
  if_neg h

theorem update_without (held : Nat → Option Block) (gone : List Nat) (s : Nat) :
    Function.update (without held gone) s none = without held (gone ++ [s]) := by
  funext t
  by_cases h : t = s
  · subst h
    simp [without]
  · simp [without, h]

namespace Journal

/-- The journal after blocks were handed back. -/
def returned (j : Journal) (blocks : List Block) : Journal :=
  blocks.foldl (fun j b => j.recordEvent (.released b)) j

/-- The journal after the counters grew. -/
def counted (j : Journal) (growth : Counters) : Journal :=
  { j with counters := j.counters + growth }

/-- The journal after the log was told. -/
def noted (j : Journal) (notice : Notice) : Journal :=
  { j with notices := j.notices.push notice }

/-- The journal after foreign blocks were drained. -/
def drained (j : Journal) (blocks : List Block) : Journal :=
  blocks.foldl (fun j b => (j.recordEvent (.released b)).counted .foreignFree) j

@[simp] theorem thread_returned (j : Journal) (blocks : List Block) :
    (j.returned blocks).thread = j.thread := by
  unfold returned
  induction blocks generalizing j with
  | nil => rfl
  | cons b rest ih =>
      rw [List.foldl_cons, ih]
      rfl

@[simp] theorem thread_drained (j : Journal) (blocks : List Block) :
    (j.drained blocks).thread = j.thread := by
  unfold drained
  induction blocks generalizing j with
  | nil => rfl
  | cons b rest ih =>
      rw [List.foldl_cons, ih]
      rfl

@[simp] theorem calls_returned (j : Journal) (blocks : List Block) :
    (j.returned blocks).calls = j.calls := by
  unfold returned
  induction blocks generalizing j with
  | nil => rfl
  | cons b rest ih =>
      rw [List.foldl_cons, ih]
      rfl

@[simp] theorem calls_drained (j : Journal) (blocks : List Block) :
    (j.drained blocks).calls = j.calls := by
  unfold drained
  induction blocks generalizing j with
  | nil => rfl
  | cons b rest ih =>
      rw [List.foldl_cons, ih]
      rfl

theorem events_returned (j : Journal) (blocks : List Block) :
    (j.returned blocks).events.toList = j.events.toList ++ blocks.map .released := by
  unfold returned
  induction blocks generalizing j with
  | nil => simp
  | cons b rest ih =>
      rw [List.foldl_cons, ih]
      simp [recordEvent]

theorem events_drained (j : Journal) (blocks : List Block) :
    (j.drained blocks).events.toList = j.events.toList ++ blocks.map .released := by
  unfold drained
  induction blocks generalizing j with
  | nil => simp
  | cons b rest ih =>
      rw [List.foldl_cons, ih]
      simp [recordEvent, counted]

end Journal

namespace Routine

variable {a : Allocator} {slots : List Nat} {held : Nat → Option Block} {v : View}

theorem ensures_reserve (hv : v.Holds slots held) (size : Nat) :
    (reserve size).Ensures a (.retagging slots) v fun _ w =>
      w.Holds slots held ∧ w.journal = v.journal :=
  ensures_perform fun _ hpool _ hpool' => ⟨(hv.shift hpool).shift hpool', rfl⟩

theorem ensures_release (hv : v.Holds slots held) (b : Block) :
    (release b).Ensures a (.retagging slots) v fun _ w =>
      w.Holds slots held ∧ w.journal = v.journal.recordEvent (.released b) :=
  ensures_perform fun _ hpool _ hpool' => ⟨(hv.shift hpool).shift hpool', rfl⟩

theorem ensures_count (hv : v.Holds slots held) (growth : Counters) :
    (count growth).Ensures a (.retagging slots) v fun _ w =>
      w.Holds slots held ∧ w.journal = v.journal.counted growth :=
  ensures_perform fun _ hpool _ hpool' => ⟨(hv.shift hpool).shift hpool', rfl⟩

theorem ensures_note (hv : v.Holds slots held) (notice : Notice) :
    (note notice).Ensures a (.retagging slots) v fun _ w =>
      w.Holds slots held ∧ w.journal = v.journal.noted notice :=
  ensures_perform fun _ hpool _ hpool' => ⟨(hv.shift hpool).shift hpool', rfl⟩

/-- A taken slot is empty afterwards. What comes out is the block that lay there, under any tag. -/
theorem ensures_take (hv : v.Holds slots held) {slot : Nat} (hslot : slot ∈ slots) :
    (take slot).Ensures a (.retagging slots) v fun taken w =>
      taken.map (·.block) = held slot ∧ w.Holds slots (Function.update held slot none)
        ∧ w.journal = v.journal := by
  refine ensures_perform fun pool hpool pool' hpool' => ⟨?_, fun s hs => ?_, rfl⟩
  · exact (hv.shift (j := v.journal) hpool) slot hslot
  · rw [show PoolSlots.blockAt _ s = _ from hpool' s hs]
    by_cases h : slot = s
    · subst h
      rw [Function.update_self]
      exact pool.blockAt_emptied_self slot
    · rw [Function.update_of_ne (Ne.symm h)]
      exact (pool.blockAt_emptied_of_ne h).trans (hv.shift (j := v.journal) hpool s hs)

/-- A request is refused or granted as the allocator answers that call. -/
theorem ensures_request (hv : v.Holds slots held) (layout : Layout) :
    (request layout).Ensures a (.retagging slots) v fun granted w => w.Holds slots held ∧
      ((a.refuses v.journal.thread v.journal.calls layout.size = true ∧ granted = none
          ∧ w.journal = v.journal.refused (v.journal.nextBlock layout))
        ∨ (a.refuses v.journal.thread v.journal.calls layout.size = false
          ∧ granted = some (v.journal.nextBlock layout)
          ∧ w.journal = v.journal.granted (v.journal.nextBlock layout))) := by
  refine ensures_perform fun pool hpool pool' hpool' => ?_
  simp only [Action.perform] at hpool' ⊢
  cases hr : a.refuses v.journal.thread v.journal.calls layout.size with
  | true =>
      simp only [hr, if_true] at hpool' ⊢
      exact ⟨fun s hs => ((hpool' s hs).trans (pool.blockAt_overwriteAll _ s)).trans
        (hv.shift (j := v.journal) hpool s hs), Or.inl ⟨trivial, trivial, trivial⟩⟩
  | false =>
      simp only [hr, Bool.false_eq_true, if_false] at hpool' ⊢
      exact ⟨fun s hs => ((hpool' s hs).trans (pool.blockAt_overwriteAll _ s)).trans
        (hv.shift (j := v.journal) hpool s hs), Or.inr ⟨trivial, trivial, trivial⟩⟩

theorem ensures_releaseAll : ∀ (blocks : List Block) {v : View}, v.Holds slots held →
    (releaseAll blocks).Ensures a (.retagging slots) v fun _ w =>
      w.Holds slots held ∧ w.journal = v.journal.returned blocks
  | [], _, hv => ensures_pure fun _ hpool => ⟨hv.shift hpool, rfl⟩
  | b :: rest, _, hv => (ensures_release hv b).bind fun _ _ ⟨hw, hj⟩ =>
      (ensures_releaseAll rest hw).mono fun _ _ ⟨hu, hj'⟩ => ⟨hu, by rw [hj', hj]; rfl⟩

end Routine

end HeapChurn
