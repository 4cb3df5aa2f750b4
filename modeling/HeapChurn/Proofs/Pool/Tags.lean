import HeapChurn.Proofs.Pool.Sessions

/-!
# Who looks at the tags

Blocks leave a pool in three ways. A drain looks at the tag of a block before it hands it back. When
the tag is of another slot the block is reported and is not handed back any more, in no later session
and not at the end (`drain_checked`). The end of a pool and a population that fails look at no tag:
they hand back whatever there is, and they report no tag (`tearDown_unchecked`, `populate_unchecked`).
-/

namespace HeapChurn

/-- The log hears nothing of the action. -/
def Action.Silent : Action → Prop
  | .note _ => False
  | _ => True

theorem Action.Silent.notices_perform {x : Action} (hx : x.Silent) (a : Allocator) (v : View) :
    (x.perform a v).2.journal.notices = v.journal.notices := by
  cases x with
  | note notice => exact hx.elim
  | request layout =>
      simp only [perform]
      split <;> rfl
  | reserve slots => rfl
  | release b => rfl
  | take slot => rfl
  | store b => rfl
  | count growth => rfl

theorem Routine.Confined.notices_run {α : Type} {P : α → Prop} {r : Routine α}
    (hr : r.Confined Action.Silent (fun _ _ => True) P) (a : Allocator) (v : View) :
    (r.run a v).2.journal.notices = v.journal.notices := by
  induction r generalizing v with
  | done x => rfl
  | act action next ih =>
      exact (ih _ (hr.2 _ trivial) _).trans (hr.1.notices_perform a v)

namespace Pool

variable {a : Allocator}

/-! ## The ends of a pool -/

theorem silent_fill (blockSize : Nat) : ∀ count slot : Nat,
    (fill blockSize count slot).Confined Action.Silent (fun _ _ => True) fun _ => True
  | 0, _ => trivial
  | count + 1, slot => by
      unfold fill
      cases Layout.forForeign? blockSize with
      | none => trivial
      | some layout =>
          refine ⟨trivial, fun granted _ => ?_⟩
          cases granted with
          | none => trivial
          | some b =>
              exact ⟨trivial, fun _ _ => ⟨trivial, fun _ _ =>
                silent_fill blockSize count (slot + 1)⟩⟩

theorem silent_reclaim : ∀ count slot released : Nat,
    (reclaim count slot released).Confined Action.Silent (fun _ _ => True) fun _ => True
  | 0, _, _ => trivial
  | count + 1, slot, released => by
      unfold reclaim
      refine ⟨trivial, fun taken _ => ?_⟩
      cases taken with
      | none => exact silent_reclaim count (slot + 1) released
      | some b => exact ⟨trivial, fun _ _ => silent_reclaim count (slot + 1) (released + 1)⟩

/-- The log hears at the end of a pool how many blocks were left, and nothing of their tags. -/
theorem notices_tearDown (total : Nat) (v : View) :
    ∀ n ∈ ((tearDown total).run a v).2.journal.notices,
      n ∈ v.journal.notices ∨ ∃ count, n = .leftoverReleased count := by
  have hnotices := (silent_reclaim total 0 0).notices_run a v
  unfold tearDown
  rw [Routine.run_bind]
  generalize (reclaim total 0 0).run a v = out at hnotices
  obtain ⟨leftover, w⟩ := out
  rw [← hnotices]
  intro n hn
  by_cases hleft : 0 < leftover
  · rw [if_pos hleft] at hn
    rcases Array.mem_push.mp hn with hmem | rfl
    · exact Or.inl hmem
    · exact Or.inr ⟨leftover, rfl⟩
  · rw [if_neg hleft] at hn
    exact Or.inl hn

/-- A pool at its end hands back every block that it holds, under any tag. -/
theorem tearDown_unchecked {v : View} {s : Nat} {b : TaggedBlock}
    (hb : v.pool[s]? = some (some b)) :
    .released b.block ∈ ((tearDown v.pool.size).run a v).2.journal.events.toList := by
  have hblock := PoolSlots.blockAt_of_getElem? hb
  have hs : s ∈ occupied v.pool := by
    rw [mem_occupied, hblock]
    rfl
  rw [events_tearDown]
  refine List.mem_append_right _ (List.mem_map_of_mem ?_)
  exact List.mem_filterMap.mpr ⟨s, hs, hblock⟩

theorem notices_fillUp {p : Plan} {blockSize : Nat} {e : Error} {v : View}
    (herror : ((fillUp p blockSize).run a v).1 = .error e) :
    ((fillUp p blockSize).run a v).2.journal.notices = v.journal.notices := by
  have hfill := (silent_fill blockSize p.foreignTotal 0).notices_run a v
  unfold fillUp at herror ⊢
  rw [Routine.run_bind] at herror ⊢
  generalize (fill blockSize p.foreignTotal 0).run a v = out at herror hfill ⊢
  obtain ⟨missing, w⟩ := out
  cases missing with
  | zero => cases herror
  | succ missing =>
      simp only [Routine.run_bind]
      exact ((silent_reclaim _ 0 0).notices_run a w).trans hfill

/-- A population that fails hands back every block that it obtained, and the log hears nothing. -/
theorem populate_unchecked {p : Plan} {blockSize : Nat} {e : Error}
    (herror : ((populate p blockSize).run a ⟨#[], { thread := .main }⟩).1 = .error e) :
    let w := ((populate p blockSize).run a ⟨#[], { thread := .main }⟩).2
    (∀ b, .granted b ∈ w.journal.events.toList → .released b ∈ w.journal.events.toList)
      ∧ w.journal.notices = #[] := by
  intro w
  have hpopulated : (populate p blockSize).Ensures a .nobody _ _ :=
    ensures_populate (filled_start a)
  refine ⟨fun b hb => ?_, ?_⟩
  · rcases hpopulated.run_self with ⟨hok, -⟩ | ⟨_, -, -, hcustody⟩
    · rw [hok] at herror
      cases herror
    · exact hcustody.released_of_granted hb
  · show ((populate p blockSize).run a _).2.journal.notices = _
    unfold populate at herror ⊢
    by_cases hreservable : reservable p.foreignTotal = true
    · rw [if_pos hreservable] at herror ⊢
      rw [Routine.run_bind] at herror ⊢
      cases hreserved : ((Routine.reserve p.foreignTotal).run a ⟨#[], { thread := .main }⟩).1 with
      | true =>
          simp only [hreserved, if_true] at herror
          exact notices_fillUp herror
      | false => rfl
    · rw [if_neg hreservable]
      rfl

/-! ## Drains -/

namespace Usage

variable {p : Plan} {opened : View} {layout : Layout} {u : Usage} {freed : List Nat}

/-- What lies in a slot has lain there from the start. -/
theorem Kept.opened_blockAt (h : Kept p opened u freed) {s : Nat} {b : Block}
    (hb : u.view.pool.blockAt s = some b) :
    opened.pool.blockAt s = some b ∧ s ∉ freed ++ u.lost := by
  have hfresh : s ∉ freed ++ u.lost := h.fresh (by rw [hb]; rfl)
  rw [h.blockAt, without_of_notMem hfresh] at hb
  exact ⟨hb, hfresh⟩

/-- A block that a drain has lost is not handed back at the end either. -/
theorem Kept.not_released (hfilled : Filled a layout p.foreignTotal opened)
    (h : Kept p opened u freed) {s : Nat} (hs : s ∈ u.lost) :
    .released (blockOf layout s)
      ∉ ((tearDown p.foreignTotal).run a u.view).2.journal.events.toList := by
  have hended := events_tearDown a u.view
  rw [h.size, hfilled.size] at hended
  have hslot : ∀ t, opened.pool.blockAt t = some (blockOf layout s) → t = s := by
    intro t ht
    have hblock := hfilled.eq_blockOf ht
    exact (BlockId.mk.inj (Block.mk.inj hblock).1).2.symm
  intro hmem
  rw [hended, h.events, hfilled.events] at hmem
  rcases List.mem_append.mp hmem with hmem | hmem
  · rcases List.mem_append.mp hmem with hmem | hmem
    · obtain ⟨t, -, ht⟩ := List.mem_map.mp hmem
      cases ht
    · obtain ⟨c, hc, heq⟩ := List.mem_map.mp hmem
      obtain rfl := Event.released.inj heq
      obtain ⟨t, ht, hblock⟩ := List.mem_filterMap.mp hc
      obtain rfl := hslot t hblock
      exact (List.nodup_append.mp h.nodup).2.2 t ht t hs rfl
  · obtain ⟨c, hc, heq⟩ := List.mem_map.mp hmem
    obtain rfl := Event.released.inj heq
    obtain ⟨t, -, hblock⟩ := List.mem_filterMap.mp hc
    obtain ⟨hblock', hfresh⟩ := h.opened_blockAt hblock
    obtain rfl := hslot t hblock'
    exact hfresh (List.mem_append_right freed hs)

/-- What a drain does that looks at the tags. It hands back the blocks of some slots, which they name.
If it finds a block that names another slot it reports it, and that block is handed back neither then
nor in any later session nor at the end. -/
def Checked (a : Allocator) (p : Plan) (u : Usage) (worker : Nat) (now : Usage) : Prop :=
  ∃ gone : List Nat, (∀ s ∈ gone, u.view.pool.Names s)
    ∧ now.view.journal.events.toList = u.view.journal.events.toList
      ++ (gone.filterMap u.view.pool.blockAt).map .released
    ∧ (now.answers = u.answers ++ [.ok gone.length]
        ∧ now.view.pool = u.view.pool.emptied gone
      ∨ ∃ s b, u.view.pool[s]? = some (some b) ∧ b.tag ≠ s
        ∧ now.answers = u.answers ++ [.error (.corruptTag s b.tag)]
        ∧ now.view.pool = u.view.pool.emptied (gone ++ [s])
        ∧ .tagMismatch worker s b.tag ∈ now.view.journal.notices
        ∧ ∀ after, .released b.block ∉ ((tearDown p.foreignTotal).run a
            (now.follow a p after).view).2.journal.events.toList)

theorem Kept.drain_checked (hfilled : Filled a layout p.foreignTotal opened)
    (h : Kept p opened u freed) {worker : Nat} {inbox : Inbox}
    (hinbox : u.inboxes[worker]? = some inbox) (limit : Option Nat) :
    Checked a p u inbox.worker (u.move a p (.drain worker limit)) := by
  have hnodup : inbox.ahead.Nodup :=
    (h.suffix worker inbox hinbox).sublist.nodup (p.nodup_share worker)
  -- that the books are kept by the drain is what says that the block stays lost
  obtain ⟨more, hnow, -, -⟩ := h.move (a := a) hfilled.toStored (.drain worker limit)
  obtain ⟨gone, -, hnames, -, hout⟩ :=
    @Inbox.outcome_drainFrom a inbox.worker limit inbox.ahead 0 u.view hnodup
  rw [move_drain hinbox] at hnow ⊢
  generalize (Inbox.drainFrom inbox.worker inbox.ahead limit 0).run a u.view = out at hout hnow ⊢
  cases hout with
  | stopped hstop =>
      rw [Nat.zero_add]
      exact ⟨gone, hnames, Journal.events_drained _ _, Or.inl ⟨rfl, rfl⟩⟩
  | @mistagged s b rest hlimit hb htag =>
      refine ⟨gone, hnames, Journal.events_drained _ _,
        Or.inr ⟨s, b, hb, htag, rfl, rfl, Array.mem_push_self, fun after => ?_⟩⟩
      obtain ⟨_, hafter, hstill, -⟩ := hnow.follow (a := a) hfilled.toStored after
      have hopened := (h.opened_blockAt (PoolSlots.blockAt_of_getElem? hb)).1
      rw [hfilled.eq_blockOf hopened]
      refine hafter.not_released hfilled (hstill ?_)
      simp [lost]

end Usage

end Pool

end HeapChurn
