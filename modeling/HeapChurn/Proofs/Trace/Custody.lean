import HeapChurn.Proofs.Routine.Action
import HeapChurn.Proofs.Trace.Lives

/-!
# Custody

Who owes what. A thread that has performed some events holds the blocks that it obtained and has not
handed back; besides these it may have handed back blocks that another thread obtained. `Custody`
states both of a journal, block by block in the terms of `Trace.about`, so that it says what a trace
will show of each block, whatever the other threads do meanwhile.

One lemma for each way in which a journal grows: a grant adds a block to those held, a refusal adds
none, a release takes one away, a drain leaves them alone. What is counted or told to the log does
not matter.
-/

namespace HeapChurn

namespace Trace

theorem about_push_self (e : Event) (t : Array Event) :
    about e.block.id (t.push e).toList = about e.block.id t.toList ++ [e] := by
  rw [Array.toList_push, about_append, about_cons_self, about_nil]

theorem about_push_of_ne {id : BlockId} {e : Event} (h : e.block.id ≠ id) (t : Array Event) :
    about id (t.push e).toList = about id t.toList := by
  rw [Array.toList_push, about_append, about_cons_of_ne h, about_nil, List.append_nil]

/-- The events about blocks that other threads obtained. -/
def foreign (thread : Thread) (events : List Event) : List Event :=
  events.filter (·.block.id.thread ≠ thread)

theorem foreign_push_own {thread : Thread} {e : Event} (h : e.block.id.thread = thread)
    (t : Array Event) : foreign thread (t.push e).toList = foreign thread t.toList := by
  simp [foreign, h]

theorem foreign_push_other {thread : Thread} {e : Event} (h : e.block.id.thread ≠ thread)
    (t : Array Event) : foreign thread (t.push e).toList = foreign thread t.toList ++ [e] := by
  simp [foreign, h]

/-- What a thread sees of the block of another is among its foreign events. -/
theorem about_foreign {thread : Thread} {id : BlockId} (h : id.thread ≠ thread)
    (events : List Event) : about id (foreign thread events) = about id events := by
  rw [about, foreign, List.filter_filter, about]
  congr 1
  funext e
  by_cases he : e.block.id = id
  · simp [he, h]
  · simp [he]

end Trace

/-- The blocks that a thread holds, and the blocks of others that it has handed back, in order. -/
structure Custody (j : Journal) (held freed : List Block) : Prop where
  distinct : (held.map (·.id)).Nodup
  own : ∀ b ∈ held, b.id.thread = j.thread
  held_life : ∀ b ∈ held, Trace.about b.id j.events.toList = [.granted b]
  settled : ∀ id : BlockId, id.thread = j.thread → (∀ b ∈ held, b.id ≠ id) →
    Trace.Settled (Trace.about id j.events.toList)
  /-- Nothing is known of a block before the call that makes it. -/
  unheard : ∀ id : BlockId, id.thread = j.thread → j.calls ≤ id.call →
    Trace.about id j.events.toList = []
  foreign : Trace.foreign j.thread j.events.toList = freed.map .released

namespace Custody

variable {j : Journal} {held freed : List Block}

/-- Nothing has happened yet. -/
theorem start (thread : Thread) : Custody { thread } [] [] where
  distinct := List.nodup_nil
  own _ h := absurd h List.not_mem_nil
  held_life _ h := absurd h List.not_mem_nil
  settled _ _ _ := .unknown
  unheard _ _ _ := rfl
  foreign := rfl

theorem noted (h : Custody j held freed) (notice : Notice) :
    Custody (j.noted notice) held freed :=
  ⟨h.distinct, h.own, h.held_life, h.settled, h.unheard, h.foreign⟩

theorem counted (h : Custody j held freed) (growth : Counters) :
    Custody (j.counted growth) held freed :=
  ⟨h.distinct, h.own, h.held_life, h.settled, h.unheard, h.foreign⟩

/-- The order in which the blocks are listed does not matter. -/
theorem perm (h : Custody j held freed) {other : List Block} (hp : held.Perm other) :
    Custody j other freed where
  distinct := ((hp.map _).nodup_iff).mp h.distinct
  own b hb := h.own b (hp.mem_iff.mpr hb)
  held_life b hb := h.held_life b (hp.mem_iff.mpr hb)
  settled id hid hne := h.settled id hid fun b hb => hne b (hp.mem_iff.mp hb)
  unheard := h.unheard
  foreign := h.foreign

/-- A block that is held is older than the next call. -/
theorem ne_nextBlock (h : Custody j held freed) (layout : Layout) {b : Block} (hb : b ∈ held) :
    b.id ≠ (j.nextBlock layout).id := by
  intro heq
  have hlife := h.held_life b hb
  rw [heq, h.unheard (j.nextBlock layout).id rfl (Nat.le_refl _)] at hlife
  simp at hlife

/-- An event about the next block says nothing of a block that a later call makes. -/
theorem unheard_next (h : Custody j held freed) (layout : Layout) {e : Event}
    (he : e.block = j.nextBlock layout) {id : BlockId} (hid : id.thread = j.thread)
    (hcall : j.calls + 1 ≤ id.call) : Trace.about id (j.events.push e).toList = [] := by
  have hne : e.block.id ≠ id := by
    intro heq
    have : j.calls = id.call := by rw [← heq, he]; rfl
    omega
  rw [Trace.about_push_of_ne hne]
  exact h.unheard id hid (by omega)

theorem granted (h : Custody j held freed) (layout : Layout) :
    Custody (j.granted (j.nextBlock layout)) (j.nextBlock layout :: held) freed where
  distinct := by
    rw [List.map_cons, List.nodup_cons]
    refine ⟨fun hmem => ?_, h.distinct⟩
    obtain ⟨b, hb, heq⟩ := List.mem_map.mp hmem
    exact h.ne_nextBlock layout hb heq
  own b hb := by
    rcases List.mem_cons.mp hb with rfl | hb
    · rfl
    · exact h.own b hb
  held_life b hb := by
    rcases List.mem_cons.mp hb with rfl | hb
    · have hself := Trace.about_push_self (.granted (j.nextBlock layout)) j.events
      rw [Event.block_granted, h.unheard _ rfl (Nat.le_refl _)] at hself
      exact hself
    · have hne := (h.ne_nextBlock layout hb).symm
      exact (Trace.about_push_of_ne (e := .granted (j.nextBlock layout)) hne _).trans
        (h.held_life b hb)
  settled id hid hne := by
    have hself : (j.nextBlock layout).id ≠ id := hne _ List.mem_cons_self
    have hlife := h.settled id hid fun b hb => hne b (List.mem_cons_of_mem _ hb)
    rw [← Trace.about_push_of_ne (e := .granted (j.nextBlock layout)) hself] at hlife
    exact hlife
  unheard _ hid hcall := h.unheard_next layout rfl hid hcall
  foreign := (Trace.foreign_push_own (e := .granted (j.nextBlock layout)) rfl _).trans h.foreign

theorem refused (h : Custody j held freed) (layout : Layout) :
    Custody (j.refused (j.nextBlock layout)) held freed where
  distinct := h.distinct
  own := h.own
  held_life b hb := by
    have hne := (h.ne_nextBlock layout hb).symm
    exact (Trace.about_push_of_ne (e := .refused (j.nextBlock layout)) hne _).trans
      (h.held_life b hb)
  settled id hid hne := by
    by_cases heq : (j.nextBlock layout).id = id
    · subst heq
      have hself := Trace.about_push_self (.refused (j.nextBlock layout)) j.events
      rw [Event.block_refused, h.unheard _ rfl (Nat.le_refl _)] at hself
      have hlife := Trace.Settled.refused (j.nextBlock layout)
      rw [← List.nil_append [Event.refused _], ← hself] at hlife
      exact hlife
    · have hlife := h.settled id hid hne
      rw [← Trace.about_push_of_ne (e := .refused (j.nextBlock layout)) heq] at hlife
      exact hlife
  unheard _ hid hcall := h.unheard_next layout rfl hid hcall
  foreign := (Trace.foreign_push_own (e := .refused (j.nextBlock layout)) rfl _).trans h.foreign

/-- A thread that hands back a block that it holds owes one block less. -/
theorem released {b : Block} (h : Custody j (b :: held) freed) :
    Custody (j.recordEvent (.released b)) held freed := by
  have hown : b.id.thread = j.thread := h.own b List.mem_cons_self
  have hb : Trace.about b.id j.events.toList = [.granted b] := h.held_life b List.mem_cons_self
  have hdistinct := h.distinct
  rw [List.map_cons, List.nodup_cons] at hdistinct
  have hne : ∀ c ∈ held, b.id ≠ c.id := fun c hc heq =>
    hdistinct.1 (heq ▸ List.mem_map_of_mem hc)
  refine ⟨hdistinct.2, fun c hc => h.own c (List.mem_cons_of_mem _ hc), fun c hc => ?_,
    fun id hid hfree => ?_, fun id hid hcall => ?_, ?_⟩
  · exact (Trace.about_push_of_ne (e := .released b) (hne c hc) _).trans
      (h.held_life c (List.mem_cons_of_mem _ hc))
  · by_cases heq : b.id = id
    · subst heq
      have hself := Trace.about_push_self (.released b) j.events
      rw [Event.block_released, hb] at hself
      have hlife := Trace.Settled.returned b
      rw [show [Event.granted b, .released b] = [.granted b] ++ [.released b] from rfl,
        ← hself] at hlife
      exact hlife
    · have hlife := h.settled id hid fun c hc => by
        rcases List.mem_cons.mp hc with rfl | hc
        · exact heq
        · exact hfree c hc
      rw [← Trace.about_push_of_ne (e := .released b) heq] at hlife
      exact hlife
  · have hcalls : Trace.about id j.events.toList = [] := h.unheard id hid hcall
    have heq : b.id ≠ id := by
      rintro rfl
      rw [hb] at hcalls
      simp at hcalls
    exact (Trace.about_push_of_ne (e := .released b) heq _).trans hcalls
  · exact (Trace.foreign_push_own (e := .released b) hown _).trans h.foreign

theorem returned : ∀ {blocks : List Block} {j : Journal},
    Custody j (blocks ++ held) freed → Custody (j.returned blocks) held freed
  | [], _, h => h
  | b :: rest, j, h => by
      have hb : Custody (j.recordEvent (.released b)) (rest ++ held) freed := released h
      have hrest := returned hb
      exact hrest

/-- A block of another thread that is handed back is none of those that are held. -/
theorem released_foreign {b : Block} (h : Custody j held freed) (hb : b.id.thread ≠ j.thread) :
    Custody (j.recordEvent (.released b)) held (freed ++ [b]) := by
  have hne : ∀ id : BlockId, id.thread = j.thread → b.id ≠ id := fun id hid heq =>
    hb (heq ▸ hid)
  have hsame : ∀ id : BlockId, id.thread = j.thread →
      Trace.about id (j.events.push (.released b)).toList = Trace.about id j.events.toList :=
    fun id hid => Trace.about_push_of_ne (e := .released b) (hne id hid) _
  refine ⟨h.distinct, h.own, fun c hc => (hsame _ (h.own c hc)).trans (h.held_life c hc),
    fun id hid hfree => ?_, fun id hid hcall => (hsame id hid).trans (h.unheard id hid hcall), ?_⟩
  · have hlife := h.settled id hid hfree
    rw [← hsame id hid] at hlife
    exact hlife
  · have hother := Trace.foreign_push_other (e := .released b) hb j.events
    rw [h.foreign] at hother
    rw [List.map_append]
    exact hother

theorem drained : ∀ {blocks : List Block} {j : Journal} {freed : List Block},
    Custody j held freed → (∀ b ∈ blocks, b.id.thread ≠ j.thread) →
      Custody (j.drained blocks) held (freed ++ blocks)
  | [], _, _, h, _ => by
      rw [List.append_nil]
      exact h
  | b :: rest, j, freed, h, hall => by
      have hb := (h.released_foreign (hall b List.mem_cons_self)).counted .foreignFree
      have hrest := drained hb fun c hc => hall c (List.mem_cons_of_mem _ hc)
      rw [List.append_assoc] at hrest
      exact hrest

/-! ## What custody says of a trace -/

/-- Where nothing is held, all of the thread's own blocks are settled. -/
theorem settled_of_own (h : Custody j [] freed) {id : BlockId} (hid : id.thread = j.thread) :
    Trace.Settled (Trace.about id j.events.toList) :=
  h.settled id hid fun _ hb => absurd hb List.not_mem_nil

/-- Where a thread holds nothing and has handed back no block of others, what it obtained it has
handed back. -/
theorem released_of_granted (h : Custody j [] []) {b : Block}
    (hb : .granted b ∈ j.events.toList) : .released b ∈ j.events.toList := by
  have hown : b.id.thread = j.thread := by
    by_contra hne
    have hmem : Event.granted b ∈ Trace.foreign j.thread j.events.toList :=
      List.mem_filter.mpr ⟨hb, decide_eq_true hne⟩
    rw [h.foreign] at hmem
    cases hmem
  have hsettled := h.settled_of_own hown
  have habout : Event.granted b ∈ Trace.about b.id j.events.toList :=
    Trace.mem_about.mpr ⟨hb, rfl⟩
  generalize hlife : Trace.about b.id j.events.toList = life at hsettled habout
  cases hsettled with
  | unknown => cases habout
  | refused c => simp at habout
  | returned c =>
      obtain rfl : b = c := by simpa using habout
      have hreleased : Event.released b ∈ Trace.about b.id j.events.toList := by
        rw [hlife]
        exact List.mem_cons_of_mem _ List.mem_cons_self
      exact (Trace.mem_about.mp hreleased).1

/-- What a thread does with the blocks of others is to hand some of them back. -/
theorem about_other (h : Custody j held freed) {id : BlockId} (hid : id.thread ≠ j.thread) :
    Trace.about id j.events.toList = Trace.about id (freed.map .released) := by
  rw [← Trace.about_foreign hid, h.foreign]

end Custody

end HeapChurn
