import HeapChurn.Proofs.Inbox.Reach

/-!
# The outcome of a drain

A drain of distinct slots, under any limit and whatever the tags say, with nobody in between. It
empties the slots of a first part of those ahead, each of which holds a block that names it, and
hands these blocks back. What stops it is one of four things, looked for in this order: no slot is
left, the limit is reached, the next slot is empty, or its block names another slot. Only in the last
case does it empty one slot more, whose block it does not hand back.
-/

namespace HeapChurn

namespace PoolSlots

/-- The slot holds a block, and the block names the slot. -/
def Names (pool : PoolSlots) (s : Nat) : Prop := ∃ b, pool[s]? = some (some b) ∧ b.tag = s

theorem blockAt_of_getElem? {pool : PoolSlots} {s : Nat} {b : TaggedBlock}
    (h : pool[s]? = some (some b)) : pool.blockAt s = some b.block := by
  rw [blockAt, h]
  rfl

theorem Names.isSome {pool : PoolSlots} {s : Nat} (h : pool.Names s) :
    (pool.blockAt s).isSome = true := by
  obtain ⟨b, hb, -⟩ := h
  rw [blockAt_of_getElem? hb]
  rfl

/-- The pool when these slots are emptied. -/
def emptied (pool : PoolSlots) (slots : List Nat) : PoolSlots :=
  slots.foldl (fun pool s => pool.setIfInBounds s none) pool

theorem emptied_cons (pool : PoolSlots) (s : Nat) (slots : List Nat) :
    pool.emptied (s :: slots) = PoolSlots.emptied (pool.setIfInBounds s none) slots := rfl

@[simp] theorem size_emptied (pool : PoolSlots) (slots : List Nat) :
    (pool.emptied slots).size = pool.size := by
  induction slots generalizing pool with
  | nil => rfl
  | cons s slots ih => rw [emptied_cons, ih, Array.size_setIfInBounds]

theorem blockAt_emptied (slots : List Nat) (pool : PoolSlots) :
    (pool.emptied slots).blockAt = without pool.blockAt slots := by
  induction slots generalizing pool with
  | nil => rw [without_nil]; rfl
  | cons t slots ih =>
      funext s
      rw [emptied_cons, ih]
      by_cases hs : s ∈ slots
      · simp [without, hs]
      · rw [without_of_notMem hs]
        by_cases hst : t = s
        · subst hst
          rw [blockAt_emptied_self]
          simp [without]
        · rw [blockAt_emptied_of_ne pool hst, without_of_notMem]
          exact List.mem_cons.not.mpr (not_or.mpr ⟨Ne.symm hst, hs⟩)

/-- To empty a slot that is empty changes nothing. -/
theorem setIfInBounds_of_blockAt {pool : PoolSlots} {s : Nat} (h : pool.blockAt s = none) :
    pool.setIfInBounds s none = pool :=
  Array.ext_getElem? (Inbox.getElem?_emptied_of_blockAt h)

/-! ## Slots that still hold a block -/

theorem pending_setIfInBounds {pool : PoolSlots} {s : Nat} (h : (pool.blockAt s).isSome) :
    PoolSlots.pending (pool.setIfInBounds s none) + 1 = pool.pending := by
  obtain ⟨b, hb⟩ := Option.isSome_iff_exists.mp h
  rw [blockAt, Option.map_eq_some_iff] at hb
  obtain ⟨c, hc, -⟩ := hb
  obtain ⟨hs, hslot⟩ := Array.getElem?_eq_some_iff.mp (Option.join_eq_some_iff.mp hc)
  have hfilled : pool[s].isSome = true := by
    rw [hslot]
    rfl
  have hpos : 0 < pool.countP Option.isSome :=
    Array.countP_pos_iff.mpr ⟨_, Array.getElem_mem hs, hfilled⟩
  rw [pending, pending, Array.setIfInBounds_def, dif_pos hs, Array.countP_set, hfilled]
  simp only [if_true, Option.isSome_none, Bool.false_eq_true, if_false]
  omega

/-- Each slot that is emptied is one block less. -/
theorem pending_emptied : ∀ {slots : List Nat} {pool : PoolSlots}, slots.Nodup →
    (∀ s ∈ slots, (pool.blockAt s).isSome) →
    (pool.emptied slots).pending + slots.length = pool.pending
  | [], _, _, _ => rfl
  | s :: slots, pool, hnodup, hfilled => by
      obtain ⟨hs, hnodup'⟩ := List.nodup_cons.mp hnodup
      have hrest : ∀ t ∈ slots, (PoolSlots.blockAt (pool.setIfInBounds s none) t).isSome := by
        intro t ht
        have hst : s ≠ t := fun heq => hs (heq ▸ ht)
        rw [blockAt_emptied_of_ne pool hst]
        exact hfilled t (List.mem_cons_of_mem s ht)
      have hone := pending_setIfInBounds (hfilled s List.mem_cons_self)
      have hmany := pending_emptied hnodup' hrest
      rw [emptied_cons, List.length_cons]
      omega

@[simp] theorem pending_overwrite (pool : PoolSlots) (o : Overwrite) :
    (pool.overwrite o).pending = pool.pending := by
  rw [pending, overwrite, Array.countP_map]
  refine Array.countP_congr fun slot _ => ?_
  cases slot <;> rfl

end PoolSlots

namespace Inbox

/-- What a drain comes to that frees the blocks of the slots `gone`. -/
inductive Outcome (worker : Nat) (limit : Option Nat) (freed : Nat) (gone : List Nat) (v : View) :
    (Except Error Nat × List Nat) × View → Prop
  | stopped {rest : List Nat}
      (hstop : rest = [] ∨ limit = some (freed + gone.length)
        ∨ ∃ s, rest.head? = some s ∧ v.pool.blockAt s = none) :
      Outcome worker limit freed gone v ((.ok (freed + gone.length), rest),
        ⟨v.pool.emptied gone, v.journal.drained (gone.filterMap v.pool.blockAt)⟩)
  | mistagged {s : Nat} {b : TaggedBlock} {rest : List Nat}
      (hlimit : limit ≠ some (freed + gone.length)) (hb : v.pool[s]? = some (some b))
      (htag : b.tag ≠ s) :
      Outcome worker limit freed gone v ((.error (.corruptTag s b.tag), s :: rest),
        ⟨v.pool.emptied (gone ++ [s]),
          (v.journal.drained (gone.filterMap v.pool.blockAt)).noted
            (.tagMismatch worker s b.tag)⟩)

variable {a : Allocator} {worker : Nat} {limit : Option Nat} {freed : Nat}

/-- One slot more at the front. -/
theorem Outcome.cons {s : Nat} {b : TaggedBlock} {gone : List Nat} {v : View}
    {out : (Except Error Nat × List Nat) × View} (hs : v.pool[s]? = some (some b))
    (hnew : s ∉ gone)
    (h : Outcome worker limit (freed + 1) gone ⟨v.pool.setIfInBounds s none,
      (v.journal.recordEvent (.released b.block)).counted .foreignFree⟩ out)
    (hahead : ∀ t ∈ out.1.2, s ≠ t) : Outcome worker limit freed (s :: gone) v out := by
  have hcount : freed + 1 + gone.length = freed + (s :: gone).length := by
    rw [List.length_cons]
    omega
  have hblocks : gone.filterMap (PoolSlots.blockAt (v.pool.setIfInBounds s none))
      = gone.filterMap v.pool.blockAt :=
    List.filterMap_congr fun t ht => v.pool.blockAt_emptied_of_ne fun heq => hnew (heq ▸ ht)
  have hjournal : v.journal.drained ((s :: gone).filterMap v.pool.blockAt)
      = ((v.journal.recordEvent (.released b.block)).counted .foreignFree).drained
        (gone.filterMap v.pool.blockAt) := by
    rw [List.filterMap_cons_some (PoolSlots.blockAt_of_getElem? hs)]
    rfl
  cases h with
  | stopped hstop =>
      simp only [hblocks, hcount] at hstop ⊢
      rw [← hjournal, ← PoolSlots.emptied_cons]
      refine .stopped (hstop.imp_right (Or.imp_right ?_))
      rintro ⟨t, ht, hnone⟩
      refine ⟨t, ht, ?_⟩
      rwa [v.pool.blockAt_emptied_of_ne (hahead t (List.mem_of_head? ht))] at hnone
  | @mistagged t c rest hlimit hc htag =>
      simp only [hblocks]
      rw [← hjournal, ← PoolSlots.emptied_cons, ← List.cons_append]
      have hst : s ≠ t := hahead t List.mem_cons_self
      refine .mistagged (hcount ▸ hlimit) ?_ htag
      exact (Array.getElem?_setIfInBounds_ne hst).symm.trans hc

theorem outcome_drainFrom : ∀ {ahead : List Nat} {freed : Nat} {v : View}, ahead.Nodup →
    ∃ gone, ahead = gone ++ ((drainFrom worker ahead limit freed).run a v).1.2
      ∧ (∀ s ∈ gone, v.pool.Names s)
      ∧ (∀ l, limit = some l → freed ≤ l → freed + gone.length ≤ l)
      ∧ Outcome worker limit freed gone v ((drainFrom worker ahead limit freed).run a v)
  | [], freed, v, _ => ⟨[], rfl, nofun, fun _ _ hle => hle, .stopped (Or.inl rfl)⟩
  | s :: rest, freed, v, hnodup => by
      unfold drainFrom
      by_cases hlimit : limit = some freed
      · rw [if_pos hlimit]
        exact ⟨[], rfl, nofun, fun _ _ hle => hle, .stopped (Or.inr (Or.inl hlimit))⟩
      · rw [if_neg hlimit, Routine.run_bind, Routine.run_take]
        cases htaken : v.pool[s]?.join with
        | none =>
            have hnone : v.pool.blockAt s = none := by
              rw [PoolSlots.blockAt, htaken]
              rfl
            simp only [PoolSlots.setIfInBounds_of_blockAt hnone]
            exact ⟨[], rfl, nofun, fun _ _ hle => hle,
              .stopped (Or.inr (Or.inr ⟨s, rfl, hnone⟩))⟩
        | some b =>
            have hb : v.pool[s]? = some (some b) := Option.join_eq_some_iff.mp htaken
            by_cases htag : b.tag = s
            · simp only [if_pos htag]
              obtain ⟨hs, hnodup'⟩ := List.nodup_cons.mp hnodup
              obtain ⟨gone, hrest, hnames, hle, hout⟩ := @outcome_drainFrom rest (freed + 1)
                ⟨v.pool.setIfInBounds s none,
                  (v.journal.recordEvent (.released b.block)).counted .foreignFree⟩ hnodup'
              have hnew : ∀ t ∈ rest, s ≠ t := fun t ht heq => hs (heq ▸ ht)
              refine ⟨s :: gone, congrArg (s :: ·) hrest, ?_, ?_, hout.cons hb ?_ ?_⟩
              · intro t ht
                rcases List.mem_cons.mp ht with rfl | ht
                · exact ⟨b, hb, htag⟩
                · obtain ⟨c, hc, hct⟩ := hnames t ht
                  have hst := hnew t (hrest ▸ List.mem_append_left _ ht)
                  exact ⟨c, (Array.getElem?_setIfInBounds_ne hst).symm.trans hc, hct⟩
              · intro l hl hfreed
                have hlt : freed ≠ l := fun heq => hlimit (heq ▸ hl)
                have := hle l hl (by omega)
                rw [List.length_cons]
                omega
              · exact fun hmem => hs (hrest ▸ List.mem_append_left _ hmem)
              · exact fun t ht => hnew t (hrest ▸ List.mem_append_right gone ht)
            · simp only [if_neg htag]
              exact ⟨[], rfl, nofun, fun _ _ hle => hle, .mistagged hlimit hb htag⟩

end Inbox

end HeapChurn
