import HeapChurn.Proofs.LiveSlots.Blocks
import HeapChurn.Proofs.Routine.Care
import HeapChurn.Proofs.Worker.Confinement

/-!
# What a worker may hand back

A worker hands back the blocks that it was granted and those that it took out of a slot that they
name, and no others. A block that names another slot is the last that it takes: it reports the tag to
the log and as its outcome, whatever else goes wrong. This is said of the routine of a worker as a
tree, so it holds for every answer that it can get (`careful_thread`).
-/

namespace HeapChurn

namespace LiveSlots

theorem mem_blocks {s : LiveSlots} {b : Block} : b ∈ s.blocks ↔ some b ∈ s.slots := by
  simp [blocks]

theorem stale?_mem_blocks {s : LiveSlots} {b : Block} (h : s.stale? = some b) : b ∈ s.blocks :=
  mem_blocks.mpr (Array.mem_of_getElem? (Option.join_eq_some_iff.mp h))

theorem blocks_evict_subset (s : LiveSlots) : s.evict.blocks ⊆ s.blocks := by
  intro b hb
  rcases Array.mem_or_eq_of_mem_setIfInBounds (mem_blocks.mp hb) with hmem | hnone
  · exact mem_blocks.mpr hmem
  · cases hnone

theorem blocks_store_subset (s : LiveSlots) (b : Block) : (s.store b).blocks ⊆ b :: s.blocks := by
  intro c hc
  rcases Array.mem_or_eq_of_mem_setIfInBounds (mem_blocks.mp hc) with hmem | heq
  · exact List.mem_cons_of_mem b (mem_blocks.mpr hmem)
  · cases heq
    exact List.mem_cons_self

variable {k : Known} {s : LiveSlots}

theorem careful_makeRoom (hs : s.blocks ⊆ k.owned) :
    s.makeRoom.Careful k fun t k' => k' = k ∧ t.blocks ⊆ k.owned := by
  unfold makeRoom
  cases hstale : s.stale? with
  | none => exact ⟨rfl, hs⟩
  | some b =>
      refine ⟨hs (stale?_mem_blocks hstale), fun _ => ⟨trivial, fun _ => ⟨rfl, ?_⟩⟩⟩
      exact List.Subset.trans (blocks_evict_subset s) hs

theorem careful_allocate (worker : Nat) (hk : k.corrupt = none) (hs : s.blocks ⊆ k.owned)
    (size : Nat) :
    (s.allocate size).Careful k fun out k' =>
      out.2.blocks ⊆ k'.owned ∧ k'.Reported worker out.1 := by
  rw [← s.blocks_skipWindow] at hs
  unfold allocate
  by_cases hend : s.skipWindow.capacity ≤ s.skipWindow.cursor
  · simp only [if_pos hend]
    have hperm := s.skipWindow.perm_retire
    refine (Routine.careful_releaseAll fun b hb => ?_).bind ?_
    · exact hs (hperm.mem_iff.mpr (List.mem_append_left _ hb))
    · rintro _ k' rfl
      refine ⟨trivial, fun _ => ⟨fun b hb => ?_, Known.reported_ok hk _⟩⟩
      exact hs (hperm.mem_iff.mpr (List.mem_append_right _ hb))
  · simp only [if_neg hend]
    refine (careful_makeRoom hs).bind ?_
    rintro t k' ⟨rfl, ht⟩
    have herror : k'.Reported worker (.error (.outOfMemory size) : Except Error Step) :=
      Known.reported_error hk fun _ _ => nofun
    cases Layout.forLive? size with
    | none => exact ⟨ht, herror⟩
    | some layout =>
        refine ⟨trivial, fun granted => ?_⟩
        cases granted with
        | none => exact ⟨ht, herror⟩
        | some b =>
            refine ⟨trivial, fun _ => ⟨?_, ?_⟩⟩
            · exact List.Subset.trans (blocks_store_subset t b) (List.cons_subset_cons b ht)
            · exact Known.reported_ok (k := { k' with owned := b :: k'.owned }) hk _

theorem careful_allocateMany (worker size : Nat) : ∀ (count : Nat) {k : Known} {s : LiveSlots},
    k.corrupt = none → s.blocks ⊆ k.owned →
      (allocateMany size count s).Careful k fun out k' =>
      out.2.blocks ⊆ k'.owned ∧ k'.Reported worker out.1
  | 0, _, _, hk, hs => ⟨hs, Known.reported_ok hk _⟩
  | count + 1, _, _, hk, hs => by
      unfold allocateMany
      refine (careful_allocate worker hk hs size).bind ?_
      rintro ⟨result, t⟩ k' ⟨ht, hreported⟩
      cases result with
      | error e => exact ⟨ht, hreported.of_error⟩
      | ok _ => exact careful_allocateMany worker size count hreported.corrupt_of_ok ht

theorem careful_releaseAll (hs : s.blocks ⊆ k.owned) :
    s.releaseAll.Careful k fun _ k' => k' = k := by
  unfold releaseAll
  refine (Routine.careful_releaseAll hs).bind ?_
  rintro _ k' rfl
  exact ⟨trivial, fun _ => rfl⟩

end LiveSlots

namespace Inbox

theorem careful_drainFrom {worker : Nat} {limit : Option Nat} : ∀ (ahead : List Nat) (freed : Nat)
    {k : Known}, k.corrupt = none →
      (drainFrom worker ahead limit freed).Careful k fun out k' =>
        k.owned ⊆ k'.owned ∧ k'.Reported worker out.1
  | [], _, _, hk => ⟨List.Subset.refl _, Known.reported_ok hk _⟩
  | slot :: rest, freed, k, hk => by
      unfold drainFrom
      by_cases hlimit : limit = some freed
      · rw [if_pos hlimit]
        exact ⟨List.Subset.refl _, Known.reported_ok hk _⟩
      · rw [if_neg hlimit]
        refine (Routine.careful_perform (.take slot) hk).bind ?_
        rintro taken _ rfl
        cases taken with
        | none => exact ⟨List.Subset.refl _, Known.reported_ok hk _⟩
        | some b =>
            by_cases htag : b.tag = slot
            · simp only [Known.learn, if_pos htag]
              refine ⟨List.mem_cons_self, fun _ => ⟨trivial, fun _ => ?_⟩⟩
              refine (careful_drainFrom rest (freed + 1)
                (k := { k with owned := b.block :: k.owned }) hk).mono fun out k' hout => ?_
              exact ⟨List.Subset.trans (List.subset_cons_self _ _) hout.1, hout.2⟩
            · simp only [Known.learn, if_neg htag]
              refine ⟨trivial, fun _ => ⟨List.Subset.refl _, ?_, ?_⟩⟩
              · rintro s found
                constructor
                · rintro ⟨⟩
                  rfl
                · rintro ⟨⟩
                  rfl
              · rintro s found ⟨⟩
                exact List.mem_cons_self

end Inbox

namespace Worker

variable {table : Histogram} {id : Nat} {k : Known} {w : Worker table}

/-- Between two actions: the worker may hand back what it stores, and its inbox is its own. -/
structure Minds (id : Nat) (w : Worker table) (k : Known) : Prop where
  stored : w.slots.blocks ⊆ k.owned
  inbox : ∀ b, w.inbox = some b → b.worker = id

theorem careful_drain (hk : k.corrupt = none) (h : w.Minds id k) (limit : Option Nat) :
    (w.drain limit).Careful k fun out k' => out.2.Minds id k' ∧ k'.Reported id out.1 := by
  unfold drain
  cases hinbox : w.inbox with
  | none => exact ⟨h, Known.reported_ok hk _⟩
  | some inbox =>
      have hdrain : (inbox.drain limit).Careful k fun out k' =>
          k.owned ⊆ k'.owned ∧ k'.Reported id out.1 ∧ out.2.worker = id := by
        have hid := h.inbox inbox hinbox
        unfold Inbox.drain
        refine (Inbox.careful_drainFrom inbox.ahead 0 hk).bind fun out k' hout => ?_
        rw [hid] at hout
        exact ⟨hout.1, hout.2, hid⟩
      refine hdrain.bind ?_
      rintro ⟨result, inbox'⟩ k' ⟨howned, hreported, hid⟩
      have hstored : w.slots.blocks ⊆ k'.owned := List.Subset.trans h.stored howned
      have hmine : ∀ b, some inbox' = some b → b.worker = id := by
        rintro b ⟨⟩
        exact hid
      cases result with
      | error e => exact ⟨⟨hstored, hmine⟩, hreported.of_error⟩
      | ok freed => exact ⟨⟨hstored, hmine⟩, Known.reported_ok hreported.corrupt_of_ok _⟩

theorem careful_iterate (hk : k.corrupt = none) (h : w.Minds id k) :
    w.iterate.Careful k fun out k' => out.2.Minds id k' ∧ k'.Reported id out.1 := by
  unfold iterate
  refine (careful_drain hk h _).bind ?_
  rintro ⟨result, w'⟩ k' ⟨hminds, hreported⟩
  cases result with
  | error e => exact ⟨hminds, hreported⟩
  | ok _ =>
      refine (LiveSlots.careful_allocateMany id _ _ hreported.corrupt_of_ok
        hminds.stored).bind fun out k'' hout => ?_
      exact ⟨⟨hout.1, hminds.inbox⟩, hout.2⟩

theorem careful_iterations : ∀ (n : Nat) {k : Known} {w : Worker table}, k.corrupt = none →
    w.Minds id k → (iterations n w).Careful k fun out k' =>
      out.2.Minds id k' ∧ k'.Reported id out.1
  | 0, _, _, hk, h => ⟨h, Known.reported_ok hk _⟩
  | n + 1, _, _, hk, h => by
      unfold iterations
      refine (careful_iterate hk h).bind ?_
      rintro ⟨result, w'⟩ k' ⟨hminds, hreported⟩
      cases result with
      | error e => exact ⟨hminds, hreported⟩
      | ok _ => exact careful_iterations n hreported.corrupt_of_ok hminds

theorem careful_workOff (hk : k.corrupt = none) (h : w.Minds id k) :
    w.workOff.Careful k fun out k' => out.2.Minds id k' ∧ k'.Reported id out.1 := by
  unfold workOff
  refine (careful_iterations _ hk h).bind ?_
  rintro ⟨result, w'⟩ k' ⟨hminds, hreported⟩
  cases result with
  | error e => exact ⟨hminds, hreported⟩
  | ok _ => exact careful_drain hreported.corrupt_of_ok hminds none

theorem careful_run (hk : k.corrupt = none) (h : w.Minds id k) :
    w.run.Careful k fun result k' => k'.Reported id result := by
  unfold run
  refine (Routine.careful_perform (.note _) trivial).bind fun _ k' hk' => ?_
  have hcorrupt : k'.corrupt = none := by
    rw [hk']
    exact hk
  have hminds : w.Minds id k' := by
    rw [hk']
    exact ⟨h.stored, h.inbox⟩
  refine (careful_workOff hcorrupt hminds).bind ?_
  rintro ⟨result, w'⟩ k'' ⟨hleft, hreported⟩
  refine (LiveSlots.careful_releaseAll hleft.stored).bind ?_
  rintro _ _ rfl
  cases result with
  | error e => exact hreported.of_error
  | ok _ =>
      refine (Routine.careful_perform (.note _) trivial).bind fun _ k₃ hk₃ => ?_
      refine Known.reported_ok ?_ _
      rw [hk₃]
      exact hreported.corrupt_of_ok

theorem careful_attempt (id : Nat) (plan : Plan) (table : Histogram) {inbox : Option Inbox}
    (hinbox : ∀ b, inbox = some b → b.worker = id) (hk : k.corrupt = none) :
    (attempt id plan table inbox).Careful k fun result k' => k'.Reported id result := by
  have hsetup : k.Reported id (.error (.setup .liveSlots) : Except Error WorkerReport) :=
    Known.reported_error hk fun _ _ => nofun
  unfold attempt
  rcases create_cases id plan table inbox with hcreate | hcreate
  · rw [hcreate]
    refine ⟨trivial, fun reserved => ?_⟩
    cases reserved with
    | true =>
        refine careful_run hk ⟨?_, hinbox⟩
        rw [LiveSlots.blocks_empty]
        exact List.nil_subset _
    | false => exact hsetup
  · rw [hcreate]
    exact hsetup

/-- A worker hands back nothing that it may not hand back, and a tag that does not name its slot is
the last thing that it learns of the pool. -/
theorem careful_thread (id : Nat) (plan : Plan) (table : Histogram) {inbox : Option Inbox}
    (hinbox : ∀ b, inbox = some b → b.worker = id) :
    (thread id plan table inbox).Careful {} fun result k => k.Reported id result := by
  unfold thread
  refine (careful_attempt id plan table hinbox rfl).bind fun result k hreported => ?_
  cases result with
  | error e => exact ⟨trivial, fun _ => hreported.noted _⟩
  | ok report => exact hreported

end Worker

end HeapChurn
