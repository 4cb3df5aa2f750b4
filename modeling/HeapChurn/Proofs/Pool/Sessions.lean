import HeapChurn.Proofs.Pool.Usage

/-!
# The life of a pool over sessions

Once one block of a share was taken, the share is closed to all later sessions: their inboxes find the
first slot empty and stop there. So a share is drained in one session, in its order, and loses one
block at most. At every moment each block of the pool was freed by a drain, was lost, or still lies in
its slot; and when the pool ends, what is left is handed back in slot order (`lifetime_law`).
-/

namespace HeapChurn

namespace Pool

namespace Usage

variable {a : Allocator} {p : Plan} {opened : View} {u : Usage} {freed : List Nat}

/-! ## Shares that are closed -/

/-- A block of the share was taken, and the inbox has an empty slot before it. -/
structure Closed (p : Plan) (u : Usage) (k : Nat) : Prop where
  begun : ∃ s ∈ p.share k, u.view.pool.blockAt s = none
  inbox : ∀ b, u.inboxes[k]? = some b → ∃ s rest, b.ahead = s :: rest
    ∧ u.view.pool.blockAt s = none

theorem Closed.shift {k : Nat} {u' : Usage} (h : Closed p u k)
    (hpool : ∀ s ∈ p.share k, u'.view.pool.blockAt s = u.view.pool.blockAt s)
    (hinbox : ∀ b, u'.inboxes[k]? = some b → ∃ s rest, b.ahead = s :: rest
      ∧ u'.view.pool.blockAt s = none) : Closed p u' k := by
  obtain ⟨s, hs, hnone⟩ := h.begun
  exact ⟨⟨s, hs, (hpool s hs).trans hnone⟩, hinbox⟩

/-- A drain takes nothing from a share that is closed, and does not open it. -/
theorem Closed.drawn {j k : Nat} {b b' : Inbox} {gone new : List Nat} {u' : Usage}
    (hk : Closed p u k) (hd : Drawn u j b gone new b' u') (h : Kept p opened u freed) :
    Closed p u' k ∧ ∀ s ∈ p.share k, u'.view.pool.blockAt s = u.view.pool.blockAt s := by
  have hsame : ∀ s ∈ p.share k, u'.view.pool.blockAt s = u.view.pool.blockAt s := by
    intro s hs
    rw [hd.pool, PoolSlots.blockAt_emptied, without_of_notMem fun hmem => ?_]
    by_cases hkj : k = j
    · subst hkj
      obtain ⟨t, rest, hahead, hnone⟩ := hk.inbox b hd.inbox
      obtain ⟨rfl, rfl⟩ := hd.of_empty hahead hnone
      cases hmem
    · exact hd.notMem_share h hkj s hmem hs
  refine ⟨hk.shift hsame fun c hc => ?_, hsame⟩
  have hfront : ∃ t rest, c.ahead = t :: rest ∧ u.view.pool.blockAt t = none := by
    rcases hd.inbox_cases hc with ⟨rfl, rfl⟩ | ⟨-, hc⟩
    · obtain ⟨t, rest, hahead, hnone⟩ := hk.inbox b hd.inbox
      obtain ⟨rfl, rfl⟩ := hd.of_empty hahead hnone
      exact ⟨t, rest, hd.ahead.symm.trans hahead, hnone⟩
    · exact hk.inbox c hc
  obtain ⟨t, rest, hahead, hnone⟩ := hfront
  have hsuffix := (h.drawn hd).suffix k c hc
  rw [hahead] at hsuffix
  exact ⟨t, rest, hahead, (hsame t (hsuffix.subset List.mem_cons_self)).trans hnone⟩

section Lifetime

variable {layout : Layout} (hfilled : Stored layout p.foreignTotal opened)

include hfilled

theorem Kept.empty_iff (h : Kept p opened u freed) {k s : Nat} (hs : s ∈ p.share k) :
    u.view.pool.blockAt s = none ↔ s ∈ freed ++ u.lost := by
  rw [h.blockAt, without]
  split
  · exact iff_of_true rfl ‹_›
  · rw [hfilled.block s (Plan.mem_share.mp hs).2.1]
    exact iff_of_false (fun hnone => by cases hnone) ‹_›

/-- The blocks that a share still holds are the last in its order. -/
theorem Kept.exists_split (h : Kept p opened u freed) (k : Nat) :
    ∃ taken left, p.share k = taken ++ left ∧ (∀ s ∈ taken, u.view.pool.blockAt s = none)
      ∧ ∀ s ∈ left, (u.view.pool.blockAt s).isSome := by
  obtain ⟨taken, left, hsplit, htaken⟩ := h.front k
  have hempty : ∀ s ∈ p.share k, u.view.pool.blockAt s = none ↔ s ∈ taken := fun s hs =>
    (h.empty_iff hfilled hs).trans (htaken s hs)
  refine ⟨taken, left, hsplit, fun s hs => ?_, fun s hs => ?_⟩
  · exact (hempty s (hsplit ▸ List.mem_append_left left hs)).mpr hs
  · have hshare : s ∈ p.share k := hsplit ▸ List.mem_append_right taken hs
    refine Option.isSome_iff_ne_none.mpr fun hnone => ?_
    have hnodup := p.nodup_share k
    rw [hsplit, List.nodup_append] at hnodup
    exact hnodup.2.2 s ((hempty s hshare).mp hnone) s hs rfl

/-- A new session finds a share closed from which a block was taken. -/
theorem Kept.closed_session (h : Kept p opened u freed) {k : Nat}
    (hbegun : ∃ s ∈ p.share k, u.view.pool.blockAt s = none) :
    Closed p (u.move a p .session) k := by
  refine ⟨hbegun, fun b hb => ?_⟩
  have hk : k < p.workers := by
    rw [← p.length_inboxes]
    exact (List.getElem?_eq_some_iff.mp hb).1
  have hahead : b = ⟨k, p.share k, p.share k⟩ :=
    Option.some.inj (hb.symm.trans (Plan.getElem?_inboxes hk))
  obtain ⟨s, hs, hnone⟩ := hbegun
  obtain ⟨past, rest, hsplit, htaken⟩ := h.front k
  have hpast : s ∈ past := (htaken s hs).mp ((h.empty_iff hfilled hs).mp hnone)
  cases past with
  | nil => cases hpast
  | cons t past =>
      have ht : t ∈ p.share k := hsplit ▸ List.mem_cons_self
      refine ⟨t, past ++ rest, ?_, ?_⟩
      · rw [hahead]
        exact hsplit
      · exact (h.empty_iff hfilled ht).mpr ((htaken t ht).mpr List.mem_cons_self)

/-- No move undoes what was reached, and none takes anything from a share that is closed. -/
theorem Kept.move (h : Kept p opened u freed) (m : Move) :
    ∃ more, Kept p opened (u.move a p m) (freed ++ more) ∧ u.lost ⊆ (u.move a p m).lost
      ∧ ∀ k, Closed p u k → Closed p (u.move a p m) k
        ∧ ∀ s ∈ p.share k, (u.move a p m).view.pool.blockAt s = u.view.pool.blockAt s := by
  cases m with
  | session =>
      refine ⟨[], by simpa using h.session, List.Subset.refl _, fun k hk => ⟨?_, fun _ _ => rfl⟩⟩
      exact h.closed_session hfilled hk.begun
  | overwrite o =>
      have hsame : ∀ s, (u.move a p (.overwrite o)).view.pool.blockAt s
          = u.view.pool.blockAt s := u.view.pool.blockAt_overwrite o
      refine ⟨[], by simpa using h.overwrite o, List.Subset.refl _, fun k hk =>
        ⟨hk.shift (fun s _ => hsame s) fun b hb => ?_, fun s _ => hsame s⟩⟩
      obtain ⟨s, rest, hahead, hnone⟩ := hk.inbox b hb
      exact ⟨s, rest, hahead, (hsame s).trans hnone⟩
  | drain j limit =>
      cases hj : u.inboxes[j]? with
      | none =>
          have hsame : u.move a p (.drain j limit) = u := by simp only [Usage.move, hj]
          rw [hsame]
          exact ⟨[], by simpa using h, List.Subset.refl _, fun k hk => ⟨hk, fun _ _ => rfl⟩⟩
      | some b =>
          have hnodup : b.ahead.Nodup := (h.suffix j b hj).sublist.nodup (p.nodup_share j)
          obtain ⟨b', gone, new, hd⟩ := exists_drawn (a := a) (p := p) hj hnodup limit
          generalize u.move a p (.drain j limit) = u' at hd
          refine ⟨gone, h.drawn hd, ?_, fun k hk => hk.drawn hd h⟩
          rw [hd.lost]
          exact List.subset_append_left _ _

theorem Kept.follow : ∀ (moves : List Move) {u : Usage} {freed : List Nat},
    Kept p opened u freed →
    ∃ more, Kept p opened (u.follow a p moves) (freed ++ more)
      ∧ u.lost ⊆ (u.follow a p moves).lost
      ∧ ∀ k, Closed p u k → ∀ s ∈ p.share k,
        (u.follow a p moves).view.pool.blockAt s = u.view.pool.blockAt s
  | [], _, _, h => ⟨[], (List.append_nil _).symm ▸ h, List.Subset.refl _, fun _ _ _ _ => rfl⟩
  | m :: moves, u, freed, h => by
      obtain ⟨more, hmove, hlost, hclosed⟩ := h.move (a := a) hfilled m
      obtain ⟨more', hfollow, hlost', hrest⟩ := Kept.follow moves hmove
      rw [List.append_assoc] at hfollow
      refine ⟨more ++ more', hfollow, List.Subset.trans hlost hlost', fun k hk s hs => ?_⟩
      obtain ⟨hk', hsame⟩ := hclosed k hk
      exact (hrest k hk' s hs).trans (hsame s hs)

end Lifetime

/-- Each block of the pool was freed, or was lost, or still lies in its slot. -/
theorem Kept.foreignTotal_eq (h : Kept p opened u freed) : p.foreignTotal
    = (freed.filterMap opened.pool.blockAt).length + u.lost.length + u.view.pool.pending := by
  have hlength : (freed.filterMap opened.pool.blockAt).length = freed.length := by
    rw [List.length_filterMap_eq_countP]
    exact List.countP_eq_length.mpr fun s hs => h.filled s (List.mem_append_left _ hs)
  rw [hlength]
  exact h.pending.symm

end Usage

/-! ## The end of a pool -/

/-- The slots that still hold a block, in ascending order. -/
def occupied (pool : PoolSlots) : List Nat :=
  (List.range pool.size).filter fun s => (pool.blockAt s).isSome

theorem length_occupied (pool : PoolSlots) : (occupied pool).length = pool.pending := by
  have hslots : pool.toList = (List.range pool.size).map fun s => pool[s]?.join := by
    refine List.ext_getElem (by simp) fun s hs _ => ?_
    have hs' : s < pool.size := by simpa using hs
    simp [hs']
  rw [PoolSlots.pending, ← Array.countP_toList, hslots, List.countP_map, occupied,
    ← List.countP_eq_length_filter]
  refine List.countP_congr fun s _ => ?_
  simp [PoolSlots.blockAt]

theorem mem_occupied {pool : PoolSlots} {s : Nat} :
    s ∈ occupied pool ↔ (pool.blockAt s).isSome = true := by
  rw [occupied, List.mem_filter, List.mem_range]
  refine and_iff_right_of_imp fun h => ?_
  by_contra hs
  rw [PoolSlots.blockAt, Array.getElem?_eq_none (Nat.not_lt.mp hs)] at h
  cases h

theorem filterMap_occupied (pool : PoolSlots) :
    (occupied pool).filterMap pool.blockAt = (List.range pool.size).filterMap pool.blockAt := by
  rw [occupied, List.filterMap_filter]
  refine List.filterMap_congr fun s _ => ?_
  cases pool.blockAt s <;> rfl

/-- What a pool hands back at its end, seen by its slots. -/
theorem events_tearDown (a : Allocator) (v : View) :
    ((tearDown v.pool.size).run a v).2.journal.events.toList = v.journal.events.toList
      ++ ((occupied v.pool).filterMap v.pool.blockAt).map .released := by
  have hclosing := (ensures_tearDown (a := a) v.pool.size v).run_self
  rw [filterMap_occupied, ← Journal.events_returned]
  exact congrArg Array.toList hclosing

/-- The block tells the slot. -/
theorem Stored.eq_blockOf {layout : Layout} {n : Nat} {v : View} (h : Stored layout n v) {s : Nat}
    {b : Block} (hb : v.pool.blockAt s = some b) : b = blockOf layout s := by
  have hs : s < n := by
    rw [← h.size]
    by_contra hge
    rw [PoolSlots.blockAt, Array.getElem?_eq_none (Nat.not_lt.mp hge)] at hb
    cases hb
  rw [h.block s hs] at hb
  exact (Option.some.inj hb).symm

theorem slots_of_mem_inboxes {p : Plan} {b : Inbox} (hb : b ∈ p.inboxes) :
    ∃ k, b.slots = p.share k := by
  obtain ⟨k, hk⟩ := List.mem_iff_getElem?.mp hb
  have hlt : k < p.workers := by
    rw [← p.length_inboxes]
    exact (List.getElem?_eq_some_iff.mp hk).1
  rw [Plan.getElem?_inboxes hlt] at hk
  exact ⟨k, by cases hk; rfl⟩

section Law

variable {a : Allocator} {p : Plan} {layout : Layout} {opened : View}
  (hfilled : Stored layout p.foreignTotal opened)

include hfilled

theorem nodup_blocks {u : Usage} {freed : List Nat} (h : u.Kept p opened freed) :
    (((occupied u.view.pool).filterMap u.view.pool.blockAt).map (·.id)).Nodup := by
  have hblock : ∀ s ∈ occupied u.view.pool,
      u.view.pool.blockAt s = some (blockOf layout s) := by
    intro s hs
    obtain ⟨b, hb⟩ := Option.isSome_iff_exists.mp (mem_occupied.mp hs)
    have hopened : opened.pool.blockAt s = some b := by
      rwa [h.blockAt, without_of_notMem (h.fresh (mem_occupied.mp hs))] at hb
    rw [hb, hfilled.eq_blockOf hopened]
  rw [List.filterMap_eq_map_iff_forall_eq_some.mpr hblock, List.map_map]
  refine (List.nodup_range.filter _).map fun s t hst => ?_
  exact (BlockId.mk.inj hst).2

/-- Once a share was begun, no later session frees anything from it. -/
theorem closed_to_sessions {before : Usage} {freed : List Nat} (h : before.Kept p opened freed)
    (after : List Move) :
    let now := (before.move a p .session).follow a p after
    ∃ since : List Block, now.view.journal.events.toList
        = before.view.journal.events.toList ++ since.map .released
      ∧ ∀ k, (∃ s ∈ p.share k, before.view.pool.blockAt s = none) → ∀ s ∈ p.share k,
        now.view.pool.blockAt s = before.view.pool.blockAt s
          ∧ ∀ c ∈ since, opened.pool.blockAt s ≠ some c := by
  intro now
  obtain ⟨more, hnow, hlost, hclosed⟩ := h.session.follow (a := a) hfilled after
  refine ⟨more.filterMap opened.pool.blockAt, ?_, fun k hbegun s hs => ?_⟩
  · rw [hnow.events, h.events, List.filterMap_append, List.map_append, List.append_assoc]
  · have hsame := hclosed k (h.closed_session hfilled hbegun) s hs
    refine ⟨hsame, fun c hc hblock => ?_⟩
    obtain ⟨t, ht, htc⟩ := List.mem_filterMap.mp hc
    have hst : blockOf layout s = blockOf layout t :=
      (hfilled.eq_blockOf hblock).symm.trans (hfilled.eq_blockOf htc)
    obtain rfl : s = t := (BlockId.mk.inj (Block.mk.inj hst).1).2
    -- a slot freed since is empty now, so it was empty then, and it would be freed twice
    have hnow' : s ∈ freed ++ more ++ now.lost :=
      List.mem_append_left _ (List.mem_append_right freed ht)
    have hthen : s ∈ freed ++ before.lost :=
      (h.empty_iff hfilled hs).mp (hsame.symm.trans ((hnow.empty_iff hfilled hs).mpr hnow'))
    have hnodup := hnow.nodup
    rw [List.nodup_append, List.nodup_append] at hnodup
    obtain ⟨⟨-, -, hmore⟩, -, hdistinct⟩ := hnodup
    rcases List.mem_append.mp hthen with hmem | hmem
    · exact hmore s hmem s ht rfl
    · exact hdistinct s (List.mem_append_right freed ht) s (hlost hmem) rfl

end Law

/-- The law of a pool's life, from its filling over any moves to its end. -/
theorem lifetime_law {a : Allocator} {p : Plan} {blockSize : Nat}
    (hok : ((populate p blockSize).run a ⟨#[], { thread := .main }⟩).1 = .ok ())
    (moves : List Move) :
    let opened := ((populate p blockSize).run a ⟨#[], { thread := .main }⟩).2
    let u := Usage.follow a p moves { view := opened }
    let ended := ((tearDown p.foreignTotal).run a u.view).2
    (∀ b ∈ p.inboxes, ∃ taken left, b.slots = taken ++ left
        ∧ (∀ s ∈ taken, u.view.pool.blockAt s = none)
        ∧ ∀ s ∈ left, (u.view.pool.blockAt s).isSome)
      ∧ (∀ before after, moves = before ++ .session :: after →
          let earlier := Usage.follow a p before { view := opened }
          ∃ since : List Block, u.view.journal.events.toList
              = earlier.view.journal.events.toList ++ since.map .released
            ∧ ∀ b ∈ p.inboxes, (∃ s ∈ b.slots, earlier.view.pool.blockAt s = none) →
              ∀ s ∈ b.slots, u.view.pool.blockAt s = earlier.view.pool.blockAt s
                ∧ ∀ c ∈ since, opened.pool.blockAt s ≠ some c)
      ∧ (∀ b ∈ p.inboxes, (u.lost.filter (· ∈ b.slots)).length ≤ 1)
      ∧ (∃ freed : List Block, u.view.journal.events.toList = opened.journal.events.toList
            ++ freed.map .released
          ∧ p.foreignTotal = freed.length + u.lost.length + u.view.pool.pending)
      ∧ ∃ left : List Nat, left.Pairwise (· < ·)
          ∧ (∀ s, s ∈ left ↔ (u.view.pool.blockAt s).isSome)
          ∧ left.length = u.view.pool.pending
          ∧ ((left.filterMap u.view.pool.blockAt).map (·.id)).Nodup
          ∧ ended.journal.events.toList = u.view.journal.events.toList
            ++ (left.filterMap u.view.pool.blockAt).map .released := by
  intro opened u ended
  obtain ⟨layout, hopened⟩ := filled_of_ok hok
  have hfilled := hopened.toStored
  have hstart := Usage.Kept.start hfilled
  obtain ⟨freed, hkept, -, -⟩ := hstart.follow (a := a) hfilled moves
  rw [List.nil_append] at hkept
  refine ⟨fun b hb => ?_, fun before after hmoves => ?_, fun b hb => ?_, ?_, ?_⟩
  · obtain ⟨k, hslots⟩ := slots_of_mem_inboxes hb
    rw [hslots]
    exact hkept.exists_split hfilled k
  · intro earlier
    obtain ⟨freed', hearlier, -, -⟩ := hstart.follow (a := a) hfilled before
    obtain ⟨since, hevents, hshares⟩ := closed_to_sessions (a := a) hfilled hearlier after
    have hu : u = (earlier.move a p .session).follow a p after := by
      show Usage.follow a p moves _ = _
      rw [hmoves, Usage.follow, List.foldl_append]
      rfl
    rw [← hu] at hevents hshares
    refine ⟨since, hevents, fun b hb => ?_⟩
    obtain ⟨k, hslots⟩ := slots_of_mem_inboxes hb
    rw [hslots]
    exact hshares k
  · obtain ⟨k, hslots⟩ := slots_of_mem_inboxes hb
    rw [hslots]
    exact hkept.lost_le k
  · exact ⟨_, hkept.events, hkept.foreignTotal_eq⟩
  · refine ⟨occupied u.view.pool, List.pairwise_lt_range.filter _, fun s => mem_occupied,
      length_occupied _, nodup_blocks hfilled hkept, ?_⟩
    have hsize : u.view.pool.size = p.foreignTotal := hkept.size.trans hfilled.size
    have hended := events_tearDown a u.view
    rw [hsize] at hended
    exact hended

/-- Two workers with chunks of two slots. Worker 0 stops at its limit, worker 1 finds its second tag
overwritten, and a second session can do nothing for either. -/
theorem lifetime_law_two_workers :
    let p : Plan := { workers := 2, foreignTotal := 8, foreignQuota := 4, foreignChunk := 2 }
    let moves : List Move := [.session, .overwrite ⟨⟨.main, 3⟩, 9⟩, .drain 0 (some 3),
      .drain 1 none, .session, .drain 0 none, .drain 1 none]
    let opened := ((populate p 16).run .faultless ⟨#[], { thread := .main }⟩).2
    let u := Usage.follow .faultless p moves { view := opened }
    u.lost = [3] ∧ u.view.pool.pending = 3
      ∧ ∃ freed : List Block, u.view.journal.events.toList
          = opened.journal.events.toList ++ freed.map .released
        ∧ p.foreignTotal = freed.length + u.lost.length + u.view.pool.pending := by
  intro p moves opened u
  have hok : ((populate p 16).run .faultless ⟨#[], { thread := .main }⟩).1 = .ok () := by
    decide +kernel
  have hlaw := lifetime_law hok moves
  exact ⟨by decide +kernel, by decide +kernel, hlaw.2.2.2.1⟩

end Pool

end HeapChurn
