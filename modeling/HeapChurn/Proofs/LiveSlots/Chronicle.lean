import HeapChurn.Proofs.LiveSlots.Answers

/-!
# Chronicles

Calls to a buffer, one after the other, written down page by page: what each call came to and what
the allocator saw of it. `Entry` lists what a call to a buffer in use can do, with its page: it
retires the buffer, fails, stores a block, or releases everything. There is no fifth
(`Chronicled.serve`).

`Chronicled` is what every chronicle keeps. The pages are a history in the sense of `Ledger`, their
events are those of the journal, and blocks are stored in the order of their calls.
-/

namespace HeapChurn

namespace Trace

/-- The blocks that were granted, in order. -/
def handedOut (events : List Event) : List Block :=
  events.filterMap fun
    | .granted b => some b
    | _ => none

@[simp] theorem handedOut_released (blocks : List Block) :
    handedOut (blocks.map .released) = [] := by
  simp [handedOut]

@[simp] theorem handedOut_granted (b : Block) : handedOut [.granted b] = [b] := rfl

@[simp] theorem handedOut_refused (b : Block) : handedOut [.refused b] = [] := rfl

theorem mem_handedOut {events : List Event} {b : Block} :
    b ∈ handedOut events ↔ .granted b ∈ events := by
  rw [handedOut, List.mem_filterMap]
  constructor
  · rintro ⟨e, he, hb⟩
    cases e with
    | granted c =>
        obtain rfl : c = b := Option.some.inj hb
        exact he
    | refused c => cases hb
    | released c => cases hb
  · intro h
    exact ⟨.granted b, h, rfl⟩

end Trace

namespace LiveSlots

/-- Serves a call and answers what it came to. -/
def Call.serve : Call → LiveSlots → Routine (Deed × LiveSlots)
  | .allocate size, s => do
    let (answer, s) ← s.allocate size
    return (.request size answer, s)
  | .releaseAll, s => do
    let (_, s) ← s.releaseAll
    return (.clear, s)

def Deed.clears : Deed → Bool
  | .clear => true
  | _ => false

/-- Is the buffer filled from the front again after this deed? -/
def Deed.endsCycle (d : Deed) : Bool := d.retires || d.clears

/-- What a call came to, and what the allocator saw of it. -/
structure Page where
  deed : Deed
  events : List Event

/-- The blocks that the call stored: one or none. -/
def Page.stored (p : Page) : List Block := Trace.handedOut p.events

/-- Serves one call after the other and fills a page for each. -/
def chronicle (a : Allocator) : List Call → LiveSlots → View → List Page × LiveSlots × View
  | [], s, v => ([], s, v)
  | call :: rest, s, v =>
    let served := (call.serve s).run a v
    let events := served.2.journal.events.toList.drop v.journal.events.size
    let later := chronicle a rest served.1.2 served.2
    (⟨served.1.1, events⟩ :: later.1, later.2)

/-- To write it down changes nothing of what is done. -/
theorem chronicle_eq_serve (a : Allocator) : ∀ (calls : List Call) (s : LiveSlots) (v : View),
    (chronicle a calls s v).2 = (s.serve calls).run a v
  | [], _, _ => rfl
  | call :: rest, s, v => by
      rw [chronicle, chronicle_eq_serve a rest]
      cases call with
      | allocate size =>
          rw [serve, Routine.run_bind, Call.serve, Routine.run_bind]
          rfl
      | releaseAll =>
          rw [serve, Routine.run_bind, Call.serve, Routine.run_bind]
          rfl

/-! ## One call -/

/-- What a call can do to a buffer, and its page. `made` are the allocation calls before and after
it. -/
inductive Entry (s : LiveSlots) (made : Nat) : Page → LiveSlots → Nat → Prop
  | retired {size : Nat} (hend : s.capacity ≤ s.skipWindow.cursor) :
      Entry s made ⟨.request size (.ok .retired), s.skipWindow.retiring.map .released⟩
        s.skipWindow.retire made
  | failed {size made' : Nat} {e : Error} {events : List Event}
      (hnone : Trace.handedOut events = []) (hmade : made ≤ made') :
      Entry s made ⟨.request size (.error e), events⟩ s.skipWindow made'
  | stored {size : Nat} {b : Block} (hroom : s.skipWindow.cursor < s.skipWindow.capacity)
      (hcall : b.id.call = made) :
      Entry s made ⟨.request size (.ok .allocated), [.granted b]⟩ (s.skipWindow.store b)
        (made + 1)
  | cleared : Entry s made ⟨.clear, s.blocks.map .released⟩ s.clear made

theorem Served.entry {a : Allocator} {s s' : LiveSlots} {size : Nat} {j j' : Journal}
    {answer : Except Error Step} (h : Served a s size j (answer, s') j') :
    ∃ events, j'.events.toList = j.events.toList ++ events
      ∧ Entry s j.calls ⟨.request size answer, events⟩ s' j'.calls := by
  generalize hout : (answer, s') = out at h
  cases h with
  | retired hend =>
      obtain ⟨rfl, rfl⟩ := Prod.mk.inj hout
      refine ⟨_, j.events_returned _, ?_⟩
      have hcalls := j.calls_returned s.skipWindow.retiring
      exact hcalls.symm ▸ .retired hend
  | noLayout _ _ =>
      obtain ⟨rfl, rfl⟩ := Prod.mk.inj hout
      exact ⟨[], (List.append_nil _).symm, .failed rfl (Nat.le_refl _)⟩
  | refused _ _ _ =>
      obtain ⟨rfl, rfl⟩ := Prod.mk.inj hout
      exact ⟨_, Array.toList_push, .failed (Trace.handedOut_refused _) (Nat.le_succ _)⟩
  | stored hroom _ _ =>
      obtain ⟨rfl, rfl⟩ := Prod.mk.inj hout
      exact ⟨_, Array.toList_push, .stored (s.capacity_skipWindow.symm ▸ hroom) rfl⟩

/-- A request that retires the buffer. -/
theorem Regular.run_retiring {a : Allocator} {capacity size : Nat} {s : LiveSlots} {v : View}
    (h : Regular capacity s) (hretired : ((s.allocate size).run a v).1.1 = .ok .retired) :
    let out := (s.allocate size).run a v
    s.capacity ≤ s.skipWindow.cursor ∧ out.1.2 = s.skipWindow.retire
      ∧ out.2.journal.events.toList
        = v.journal.events.toList ++ s.skipWindow.retiring.map .released := by
  intro out
  have hserved : Served a s size v.journal out.1 out.2.journal := run_allocate h size v
  have hanswer : out.1.1 = .ok .retired := hretired
  generalize out.2.journal = j at hserved ⊢
  generalize out.1 = served at hserved hanswer ⊢
  cases hserved with
  | retired hend => exact ⟨hend, rfl, v.journal.events_returned _⟩
  | noLayout _ _ => cases hanswer
  | refused _ _ _ => cases hanswer
  | stored _ _ _ => cases hanswer

/-! ## Chronicles -/

/-- The blocks that were stored on these pages, in order. -/
def storedOn (pages : List Page) : List Block := pages.flatMap Page.stored

theorem storedOn_concat (pages : List Page) (p : Page) :
    storedOn (pages ++ [p]) = storedOn pages ++ p.stored := by
  rw [storedOn, List.flatMap_append, List.flatMap_singleton]
  rfl

/-- What holds of the pages so far and of the buffer to which they lead. -/
structure Chronicled (a : Allocator) (capacity : Nat) (start : Journal) (pages : List Page)
    (s : LiveSlots) (j : Journal) : Prop where
  ledger : Ledger a capacity start (pages.map Page.deed) s j
  events_eq : j.events.toList = start.events.toList ++ pages.flatMap Page.events
  /-- Blocks are stored in the order of their calls. -/
  ordered : (storedOn pages).Pairwise fun b c => b.id.call < c.id.call
  made : ∀ b ∈ storedOn pages, b.id.call < j.calls

variable {a : Allocator} {capacity : Nat} {start : Journal} {pages : List Page} {s : LiveSlots}
  {j : Journal}

theorem Chronicled.regular (h : Chronicled a capacity start pages s j) : Regular capacity s := by
  obtain ⟨new, hbooks⟩ := h.ledger.books
  exact hbooks.regular

theorem Entry.made_le {made made' : Nat} {p : Page} {s' : LiveSlots}
    (h : Entry s made p s' made') : made ≤ made' := by
  cases h with
  | retired _ => exact Nat.le_refl _
  | failed _ hmade => exact hmade
  | stored _ _ => exact Nat.le_succ _
  | cleared => exact Nat.le_refl _

/-- Only a request that succeeds stores a block, and it stores one. -/
theorem Entry.of_mem_stored {made made' : Nat} {p : Page} {s' : LiveSlots}
    (h : Entry s made p s' made') {b : Block} (hb : b ∈ p.stored) :
    s.skipWindow.cursor < s.skipWindow.capacity ∧ s' = s.skipWindow.store b
      ∧ p.deed.endsCycle = false ∧ b.id.call = made ∧ made' = made + 1 := by
  cases h with
  | retired _ =>
      rw [Page.stored, Trace.handedOut_released] at hb
      cases hb
  | failed hnone _ =>
      rw [Page.stored, hnone] at hb
      cases hb
  | stored hroom hcall =>
      obtain rfl := List.mem_singleton.mp hb
      exact ⟨hroom, rfl, rfl, hcall, rfl⟩
  | cleared =>
      rw [Page.stored, Trace.handedOut_released] at hb
      cases hb

theorem Entry.ordered_stored {made made' : Nat} {p : Page} {s' : LiveSlots}
    (h : Entry s made p s' made') : p.stored.Pairwise fun b c => b.id.call < c.id.call := by
  cases h with
  | retired _ => simp [Page.stored]
  | failed hnone _ => simp [Page.stored, hnone]
  | stored _ _ => simp [Page.stored]
  | cleared => simp [Page.stored]

theorem Chronicled.concat (h : Chronicled a capacity start pages s j) {p : Page} {s' : LiveSlots}
    {j' : Journal} (hledger : Ledger a capacity start (pages.map Page.deed ++ [p.deed]) s' j')
    (hevents : j'.events.toList = j.events.toList ++ p.events)
    (hentry : Entry s j.calls p s' j'.calls) :
    Chronicled a capacity start (pages ++ [p]) s' j' where
  ledger := by
    rw [List.map_append]
    exact hledger
  events_eq := by
    rw [hevents, h.events_eq, List.append_assoc, List.flatMap_append, List.flatMap_singleton]
  ordered := by
    rw [storedOn_concat, List.pairwise_append]
    refine ⟨h.ordered, hentry.ordered_stored, ?_⟩
    intro b hb c hc
    obtain ⟨-, -, -, hcall, -⟩ := hentry.of_mem_stored hc
    rw [hcall]
    exact h.made b hb
  made b hb := by
    rw [storedOn_concat, List.mem_append] at hb
    rcases hb with hb | hb
    · exact Nat.lt_of_lt_of_le (h.made b hb) hentry.made_le
    · obtain ⟨-, -, -, hcall, hmade⟩ := hentry.of_mem_stored hb
      omega

theorem Call.run_serve_allocate (size : Nat) (s : LiveSlots) (v : View) :
    ((Call.allocate size).serve s).run a v
      = ((.request size ((s.allocate size).run a v).1.1, ((s.allocate size).run a v).1.2),
        ((s.allocate size).run a v).2) := by
  rw [Call.serve, Routine.run_bind]
  rfl

theorem Call.run_serve_releaseAll (s : LiveSlots) (v : View) :
    (Call.releaseAll.serve s).run a v
      = ((.clear, (s.releaseAll.run a v).1.2), (s.releaseAll.run a v).2) := by
  rw [Call.serve, Routine.run_bind]
  rfl

/-- A call to a buffer in use adds a page to its chronicle. -/
theorem Chronicled.serve {v : View} (h : Chronicled a capacity start pages s v.journal)
    (call : Call) :
    let served := (call.serve s).run a v
    let page : Page := ⟨served.1.1, served.2.journal.events.toList.drop v.journal.events.size⟩
    Entry s v.journal.calls page served.1.2 served.2.journal.calls
      ∧ Chronicled a capacity start (pages ++ [page]) served.1.2 served.2.journal := by
  intro served page
  have hpage {events : List Event}
      (hevents : served.2.journal.events.toList = v.journal.events.toList ++ events) :
      page = ⟨served.1.1, events⟩ := by
    show Page.mk _ (List.drop _ _) = _
    rw [hevents, ← Array.length_toList, List.drop_left]
  cases call with
  | allocate size =>
      have hserved := run_allocate (a := a) h.regular size v
      have hout := Call.run_serve_allocate (a := a) size s v
      obtain ⟨events, hevents, hentry⟩ := hserved.entry
      have hledger := h.ledger.request hserved
      rw [← congrArg (·.2) hout] at hevents
      rw [hpage hevents]
      refine ⟨?_, h.concat ?_ hevents ?_⟩
      all_goals simp only [served, hout]
      · exact hentry
      · exact hledger
      · exact hentry
  | releaseAll =>
      have hv : v.Holds [] fun _ => none := nofun
      obtain ⟨-, hcleared, hj⟩ := (ensures_releaseAll (a := a) (s := s) hv).run_self
      have hout := Call.run_serve_releaseAll (a := a) s v
      rw [hcleared] at hout
      have hcalls : served.2.journal.calls = v.journal.calls := by
        simp only [served, hout, hj]
        exact v.journal.calls_returned s.blocks
      have hevents : served.2.journal.events.toList
          = v.journal.events.toList ++ s.blocks.map .released := by
        simp only [served, hout, hj]
        exact v.journal.events_returned s.blocks
      have hledger := h.ledger.cleared
      rw [← hj] at hledger
      rw [hpage hevents, hcalls]
      refine ⟨?_, h.concat ?_ hevents (hcalls ▸ ?_)⟩
      all_goals simp only [served, hout]
      · exact .cleared
      · exact hledger
      · exact .cleared

/-- What each entry keeps, a chronicle keeps. -/
theorem keep_chronicle {P : List Page → LiveSlots → Prop}
    (hentry : ∀ {pages s j p s' made}, Chronicled a capacity start pages s j → P pages s →
      Entry s j.calls p s' made → P (pages ++ [p]) s') :
    ∀ (calls : List Call) {pages : List Page} {s : LiveSlots} {v : View},
      Chronicled a capacity start pages s v.journal → P pages s →
      Chronicled a capacity start (pages ++ (chronicle a calls s v).1) (chronicle a calls s v).2.1
          (chronicle a calls s v).2.2.journal
        ∧ P (pages ++ (chronicle a calls s v).1) (chronicle a calls s v).2.1
  | [], pages, s, v, h, hP => by
      simp only [chronicle, List.append_nil]
      exact ⟨h, hP⟩
  | call :: rest, pages, s, v, h, hP => by
      obtain ⟨hpage, hchronicled⟩ := h.serve call
      have hrest := keep_chronicle hentry rest hchronicled (hentry h hP hpage)
      simp only [List.append_assoc, List.singleton_append] at hrest
      exact hrest

theorem Chronicled.opened (a : Allocator) (capacity : Nat) (start : Journal) :
    Chronicled a capacity start [] (.empty capacity) start where
  ledger := .opened
  events_eq := (List.append_nil _).symm
  ordered := .nil
  made := nofun

end LiveSlots

end HeapChurn
