import HeapChurn.Proofs.LiveSlots.Cycles

/-!
# How long a block lives

A block survives one retire event and no more. While it lies in the buffer it belongs to the fill
cycle under way, and there was no retire event since it was stored, or it belongs to the cycle
before, and there was one (`Aging`). A retire event keeps blocks of the cycle under way and no
others (`Layered.retire`), so a block of the cycle before is freed by it at the latest.
-/

namespace HeapChurn

namespace LiveSlots

/-- The retire events on these pages. -/
def retireEvents (pages : List Page) : Nat := pages.countP (·.deed.retires)

theorem retireEvents_concat (pages : List Page) (p : Page) :
    retireEvents (pages ++ [p]) = retireEvents pages + if p.deed.retires then 1 else 0 := by
  rw [retireEvents, retireEvents, List.countP_append, List.countP_singleton]

/-- The block was freed: by a retire event, one other at most before it, or by a release of
everything. -/
def Freed (b : Block) (pages : List Page) : Prop :=
  ∃ before p after, pages = before ++ p :: after
    ∧ .released b ∈ p.events ∧ p.deed.endsCycle = true ∧ retireEvents before ≤ 1

/-- What can have become of a block since it was stored. -/
inductive Fate (b : Block) (later : List Page) (s : LiveSlots) : Prop
  | kept (hmem : b ∈ s.blocks) (hevents : retireEvents later ≤ 1)
  | freed (hfreed : Freed b later)

variable {b : Block} {a : Allocator} {capacity made : Nat} {start : Journal}
  {pages later : List Page} {c : Cycles} {s s' : LiveSlots} {j : Journal} {p : Page}

theorem Freed.concat (h : Freed b pages) (p : Page) : Freed b (pages ++ [p]) := by
  obtain ⟨before, q, after, rfl, hfreed, hends, hevents⟩ := h
  exact ⟨before, q, after ++ [p], by simp, hfreed, hends, hevents⟩

theorem freed_concat (hfreed : .released b ∈ p.events) (hends : p.deed.endsCycle = true)
    (hevents : retireEvents later ≤ 1) : Freed b (later ++ [p]) :=
  ⟨later, p, [], rfl, hfreed, hends, hevents⟩

/-- The block lies in the buffer, and the retire events since it was stored tell its cycle. -/
def Aging (b : Block) (later : List Page) (c : Cycles) (s : LiveSlots) : Prop :=
  b ∈ s.blocks
    ∧ (retireEvents later = 0 ∧ b ∈ c.fresh ∨ retireEvents later = 1 ∧ b ∈ c.old)

theorem Aging.le_one (h : Aging b later c s) : retireEvents later ≤ 1 := by
  obtain ⟨-, ⟨hnone, -⟩ | ⟨hone, -⟩⟩ := h <;> omega

/-- No block is stored in two cycles. -/
theorem Chronicled.notMem_old (h : Chronicled a capacity start pages s j)
    (hb : b ∈ (cycles pages).fresh) : b ∉ (cycles pages).old := by
  intro hold
  have hordered := h.ordered.sublist (sublist_cycles pages)
  exact Nat.lt_irrefl _ ((List.pairwise_append.mp hordered).2.2 b hold b hb)

/-- A block in the buffer ages with the next page, or is freed on it. -/
theorem Aging.entry (hs : Chronicled a capacity start pages s j)
    (hlayered : Layered (cycles pages) s) (h : Aging b later (cycles pages) s)
    (hentry : Entry s j.calls p s' made) :
    Aging b (later ++ [p]) (cycles (pages ++ [p])) s' ∨ Freed b (later ++ [p]) := by
  have hone := h.le_one
  obtain ⟨hmem, hcycle⟩ := h
  rw [← s.blocks_skipWindow] at hmem
  rw [cycles_concat]
  cases hentry with
  | retired hend =>
      rcases List.mem_append.mp ((perm_retire _).mem_iff.mp hmem) with hgone | hkept
      · exact Or.inr (freed_concat (List.mem_map_of_mem hgone) rfl hone)
      · have hfresh := hlayered.mem_fresh hs hend hkept
        refine Or.inl ⟨hkept, Or.inr ⟨?_, hfresh⟩⟩
        rcases hcycle with ⟨hnone, -⟩ | ⟨-, hold⟩
        · rw [retireEvents_concat, hnone]
          rfl
        · exact absurd hold (hs.notMem_old hfresh)
  | failed hnone _ =>
      rw [Cycles.follow_failed hnone]
      refine Or.inl ⟨hmem, ?_⟩
      rw [retireEvents_concat]
      exact hcycle
  | @stored size new hroom hcall =>
      have hperm := perm_store (b := new) hroom hs.regular.vacant
      refine Or.inl ⟨hperm.mem_iff.mpr (List.mem_cons_of_mem new hmem), ?_⟩
      rw [retireEvents_concat]
      rcases hcycle with ⟨hnone, hfresh⟩ | hold
      · exact Or.inl ⟨hnone, List.mem_append_left _ hfresh⟩
      · exact Or.inr hold
  | cleared =>
      rw [blocks_skipWindow] at hmem
      exact Or.inr (freed_concat (List.mem_map_of_mem hmem) rfl hone)

/-- A block that is stored belongs to the cycle under way. -/
theorem aging_stored (hs : Chronicled a capacity start pages s j)
    (hentry : Entry s j.calls p s' made) (hb : b ∈ p.stored) :
    Aging b [] (cycles (pages ++ [p])) s' := by
  obtain ⟨hroom, rfl, hfilling, -, -⟩ := hentry.of_mem_stored hb
  have hperm := perm_store (b := b) hroom hs.regular.vacant
  rw [cycles_concat, Cycles.follow_of_filling hfilling]
  exact ⟨hperm.mem_iff.mpr List.mem_cons_self, Or.inl ⟨rfl, List.mem_append_right _ hb⟩⟩

/-- Every block that was stored on these pages is in its place or was freed. -/
structure Aged (pages : List Page) (s : LiveSlots) : Prop where
  layered : Layered (cycles pages) s
  stored : ∀ before page later b, pages = before ++ page :: later → b ∈ page.stored →
    Aging b later (cycles pages) s ∨ Freed b later

theorem Aged.entry (hs : Chronicled a capacity start pages s j) (h : Aged pages s)
    (hentry : Entry s j.calls p s' made) : Aged (pages ++ [p]) s' where
  layered := h.layered.entry hs hentry
  stored := by
    intro before page later b heq hb
    rcases List.eq_nil_or_concat' later with rfl | ⟨later, q, rfl⟩
    · obtain ⟨-, hpage⟩ := List.append_inj' heq rfl
      obtain rfl := List.singleton_inj.mp hpage
      exact Or.inl (aging_stored hs hentry hb)
    · have hcut : pages ++ [p] = (before ++ page :: later) ++ [q] := by
        rw [heq, List.append_assoc, List.cons_append]
      obtain ⟨hpages, hpage⟩ := List.append_inj' hcut rfl
      obtain rfl := List.singleton_inj.mp hpage
      rcases h.stored before page later b hpages hb with haging | hfreed
      · exact haging.entry hs h.layered hentry
      · exact Or.inr (hfreed.concat p)

theorem aged_nil (capacity : Nat) : Aged [] (empty capacity) where
  layered := layered_empty capacity
  stored := by
    intro before page later b heq
    simp at heq

/-- A block of the cycle under way was stored after its start. -/
theorem exists_page_of_mem_fresh : b ∈ (cycles pages).fresh →
    ∃ before page later, pages = before ++ page :: later
      ∧ b ∈ page.stored ∧ ∀ p ∈ later, p.deed.endsCycle = false := by
  induction pages using List.reverseRecOn with
  | nil =>
      intro hb
      cases hb
  | append_singleton pages p ih =>
      intro hb
      rw [cycles_concat] at hb
      by_cases hends : p.deed.endsCycle = true
      · -- a cycle that has just started is empty
        rw [Cycles.fresh_follow_of_ends hends] at hb
        cases hb
      · have hfilling : p.deed.endsCycle = false := Bool.eq_false_of_not_eq_true hends
        rw [Cycles.follow_of_filling hfilling] at hb
        rcases List.mem_append.mp hb with hearlier | hhere
        · obtain ⟨before, page, later, rfl, hpage, hlater⟩ := ih hearlier
          refine ⟨before, page, later ++ [p], by simp, hpage, ?_⟩
          intro q hq
          rcases List.mem_append.mp hq with hq | hq
          · exact hlater q hq
          · obtain rfl := List.mem_singleton.mp hq
            exact hfilling
        · refine ⟨pages, p, [], rfl, hhere, ?_⟩
          intro q hq
          cases hq

/-- Whatever is asked for, refused and released: a block that was stored lies in the buffer and has
seen one retire event at most, or it was freed by the second one at the latest. And what a retire
event leaves in the buffer was stored after the one before it. -/
theorem survives_one_retirement {s : LiveSlots} (h : ofCapacity capacity = .ok s) (a : Allocator)
    (calls : List Call) (v : View) :
    let told := chronicle a calls s v
    told.2 = (s.serve calls).run a v
      ∧ (∀ before page later b, told.1 = before ++ page :: later → .granted b ∈ page.events →
          Fate b later told.2.1)
      ∧ ∀ size,
          let out := (told.2.1.allocate size).run a told.2.2
          out.1.1 = .ok .retired → ∀ b ∈ out.1.2.blocks,
            ∃ before page later, told.1 = before ++ page :: later
              ∧ .granted b ∈ page.events ∧ ∀ p ∈ later, p.deed.endsCycle = false := by
  obtain ⟨-, rfl⟩ := ofCapacity_eq_ok h
  intro told
  obtain ⟨hchronicled, haged⟩ := keep_chronicle Aged.entry calls
    (Chronicled.opened a capacity v.journal) (aged_nil capacity)
  rw [List.nil_append] at hchronicled haged
  refine ⟨chronicle_eq_serve a calls _ v, ?_, ?_⟩
  · intro before page later b heq hgranted
    rcases haged.stored before page later b heq (Trace.mem_handedOut.mpr hgranted) with
      haging | hfreed
    · exact .kept haging.1 haging.le_one
    · exact .freed hfreed
  · intro size out hretired b hb
    obtain ⟨hend, hout, -⟩ := hchronicled.regular.run_retiring hretired
    have hkept : b ∈ told.2.1.skipWindow.retire.blocks := hout ▸ hb
    have hfresh := haged.layered.mem_fresh hchronicled hend hkept
    obtain ⟨before, page, later, heq, hpage, hlater⟩ := exists_page_of_mem_fresh hfresh
    exact ⟨before, page, later, heq, Trace.mem_handedOut.mp hpage, hlater⟩

/-- Five slots with windows of one, before the second retire event: the first block of all survived
the first one, and the request that comes next keeps what was stored since then. -/
theorem survives_one_retirement_five :
    let told := chronicle .faultless (List.replicate 10 (.allocate 8)) (empty 5)
      ⟨#[], { thread := .worker 0 }⟩
    let out := (told.2.1.allocate 8).run .faultless told.2.2
    let first : Block := ⟨⟨.worker 0, 0⟩, ⟨8, 8⟩⟩
    ofCapacity 5 = .ok (empty 5) ∧ out.1.1 = .ok .retired ∧ retireEvents (told.1.drop 1) = 1
      ∧ Fate first (told.1.drop 1) told.2.1
      ∧ ∀ b ∈ out.1.2.blocks, ∃ before page later, told.1 = before ++ page :: later
          ∧ .granted b ∈ page.events ∧ ∀ p ∈ later, p.deed.endsCycle = false := by
  have hopen : ofCapacity 5 = .ok (empty 5) := rfl
  obtain ⟨-, hfate, hretired⟩ := survives_one_retirement hopen .faultless
    (List.replicate 10 (.allocate 8)) ⟨#[], { thread := .worker 0 }⟩
  refine ⟨hopen, by decide +kernel, by decide +kernel, ?_, hretired 8 (by decide +kernel)⟩
  exact hfate [] ⟨.request 8 (.ok .allocated), _⟩ _ _ rfl List.mem_cons_self

end LiveSlots

end HeapChurn
