import HeapChurn.Proofs.LiveSlots.Requests
import HeapChurn.Proofs.LiveSlots.Sequences
import HeapChurn.Proofs.Routine.Counting
import HeapChurn.Proofs.Trace.Threads
import Mathlib.Tactic.Abel

/-!
# The ledger of a buffer

What a thread with a buffer of live slots has done, as a list of deeds: requests with their answers,
releases of everything, drains of blocks that belong to others. `Ledger` is the history that leads
from an empty buffer to where the thread stands, one deed after the other and each with what it does
to the buffer and to the journal.

`Books` is what a history comes to, and `Ledger.books` shows it by induction: the counters have grown
by what the deeds add up to, the trace has as many grants and returns as the deeds, and of the
thread's own blocks there were never more outstanding than the buffer has slots. One lemma says this
of each kind of deed.
-/

namespace HeapChurn

namespace Counters

/-- Live blocks of these sizes were obtained, so many were released, in so many retire events and
otherwise. -/
def live (sizes : List Nat) (frees retires : Nat) : Counters where
  allocs := UInt64.ofNat sizes.length
  allocBytes := UInt64.ofNat sizes.sum
  frees := UInt64.ofNat frees
  retires := UInt64.ofNat retires

theorem live_add (xs ys : List Nat) (m n i j : Nat) :
    live (xs ++ ys) (m + n) (i + j) = live xs m i + live ys n j := by
  ext1
  · exact (congrArg UInt64.ofNat List.length_append).trans (UInt64.ofNat_add _ _)
  · exact (congrArg UInt64.ofNat List.sum_append).trans (UInt64.ofNat_add _ _)
  · exact UInt64.ofNat_add m n
  · exact UInt64.ofNat_add i j
  · rfl
  · rfl

theorem liveAlloc_eq (size : Nat) : liveAlloc size = live [size] 0 0 := by
  rw [live, List.sum_singleton]
  rfl

theorem liveFrees_eq (n : Nat) : liveFrees n = live [] n 0 := rfl

theorem retire_eq (n : Nat) : retire n = live [] n 1 := rfl

end Counters

namespace Trace

theorem length_obtained (t : List Event) : (obtained t).length = grants t := by
  rw [obtained, List.length_filterMap_eq_countP, grants]
  refine List.countP_congr fun e _ => ?_
  cases e <;> exact Iff.rfl

variable {thread : Thread} {blocks : List Block}

theorem own_released (h : ∀ b ∈ blocks, b.id.thread = thread) :
    own thread (blocks.map .released) = blocks.map .released :=
  own_eq_self fun e he => by
    obtain ⟨b, hb, rfl⟩ := List.mem_map.mp he
    exact h b hb

theorem own_released_other (h : ∀ b ∈ blocks, b.id.thread ≠ thread) :
    own thread (blocks.map .released) = [] :=
  own_eq_nil fun e he => by
    obtain ⟨b, hb, rfl⟩ := List.mem_map.mp he
    exact h b hb

theorem foreign_append (s t : List Event) :
    foreign thread (s ++ t) = foreign thread s ++ foreign thread t :=
  List.filter_append ..

theorem foreign_eq_nil {t : List Event} (h : ∀ e ∈ t, e.block.id.thread = thread) :
    foreign thread t = [] :=
  List.filter_eq_nil_iff.mpr fun e he => by simpa using h e he

theorem foreign_eq_self {t : List Event} (h : ∀ e ∈ t, e.block.id.thread ≠ thread) :
    foreign thread t = t :=
  List.filter_eq_self.mpr fun e he => by simpa using h e he

/-- An event about a block of the thread's own. -/
theorem own_concat {e : Event} (h : e.block.id.thread = thread) (t : List Event) :
    own thread (t ++ [e]) = own thread t ++ [e] := by
  have hsingle : own thread [e] = [e] :=
    own_eq_self fun e' he' => by rw [List.mem_singleton.mp he', h]
  rw [own_append, hsingle]

theorem foreign_concat {e : Event} (h : e.block.id.thread = thread) (t : List Event) :
    foreign thread (t ++ [e]) = foreign thread t := by
  have hsingle : foreign thread [e] = [] :=
    foreign_eq_nil fun e' he' => by rw [List.mem_singleton.mp he', h]
  rw [foreign_append, hsingle, List.append_nil]

theorem foreign_released (h : ∀ b ∈ blocks, b.id.thread = thread) :
    foreign thread (blocks.map .released) = [] :=
  foreign_eq_nil fun e he => by
    obtain ⟨b, hb, rfl⟩ := List.mem_map.mp he
    exact h b hb

theorem foreign_released_other (h : ∀ b ∈ blocks, b.id.thread ≠ thread) :
    foreign thread (blocks.map .released) = blocks.map .released :=
  foreign_eq_self fun e he => by
    obtain ⟨b, hb, rfl⟩ := List.mem_map.mp he
    exact h b hb

end Trace

namespace LiveSlots

/-- One thing that a thread with a buffer does. -/
inductive Deed where
  | request (size : Nat) (answer : Except Error Step)
  | clear
  /-- Blocks of other threads are handed back. -/
  | drain (blocks : List Block)

namespace Deed

def requested? : Deed → Option Nat
  | .request size _ => some size
  | _ => none

def obtained? : Deed → Option Nat
  | .request size (.ok .allocated) => some size
  | _ => none

def retires : Deed → Bool
  | .request _ (.ok .retired) => true
  | _ => false

def drained : Deed → List Block
  | .drain blocks => blocks
  | _ => []

end Deed

/-- The history of a thread since `start`, when its buffer was empty. -/
inductive Ledger (a : Allocator) (capacity : Nat) (start : Journal) :
    List Deed → LiveSlots → Journal → Prop
  | opened : Ledger a capacity start [] (.empty capacity) start
  | request {deeds : List Deed} {s s' : LiveSlots} {j j' : Journal} {size : Nat}
      {answer : Except Error Step} (h : Ledger a capacity start deeds s j)
      (hserved : Served a s size j (answer, s') j') :
      Ledger a capacity start (deeds ++ [.request size answer]) s' j'
  | cleared {deeds : List Deed} {s : LiveSlots} {j : Journal}
      (h : Ledger a capacity start deeds s j) :
      Ledger a capacity start (deeds ++ [.clear]) s.clear
        ((j.returned s.blocks).counted (.liveFrees s.blocks.length))
  | drained {deeds : List Deed} {s : LiveSlots} {j : Journal} {blocks : List Block}
      (h : Ledger a capacity start deeds s j)
      (hother : ∀ b ∈ blocks, b.id.thread ≠ start.thread) :
      Ledger a capacity start (deeds ++ [.drain blocks]) s (j.drained blocks)
  | noted {deeds : List Deed} {s : LiveSlots} {j : Journal} (notice : Notice)
      (h : Ledger a capacity start deeds s j) : Ledger a capacity start deeds s (j.noted notice)

namespace Ledger

/-- The sizes that were asked for. -/
def requested (deeds : List Deed) : List Nat := deeds.filterMap Deed.requested?

/-- The sizes of the blocks that were obtained. -/
def obtained (deeds : List Deed) : List Nat := deeds.filterMap Deed.obtained?

/-- The number of retire events. -/
def retirements (deeds : List Deed) : Nat := deeds.countP Deed.retires

/-- The blocks of others that were handed back. -/
def drains (deeds : List Deed) : List Block := deeds.flatMap Deed.drained

theorem requested_append (xs ys : List Deed) :
    requested (xs ++ ys) = requested xs ++ requested ys := List.filterMap_append

theorem obtained_append (xs ys : List Deed) :
    obtained (xs ++ ys) = obtained xs ++ obtained ys := List.filterMap_append

theorem retirements_append (xs ys : List Deed) :
    retirements (xs ++ ys) = retirements xs + retirements ys := List.countP_append

theorem drains_append (xs ys : List Deed) : drains (xs ++ ys) = drains xs ++ drains ys :=
  List.flatMap_append

variable {deed : Deed}

/-- A deed by which nothing is obtained. -/
theorem obtained_concat (h : deed.obtained? = none) (deeds : List Deed) :
    obtained (deeds ++ [deed]) = obtained deeds := by
  rw [obtained_append, obtained, obtained, List.filterMap_cons_none h]
  exact List.append_nil _

/-- A deed by which nothing of others is handed back. -/
theorem drains_concat (h : deed.drained = []) (deeds : List Deed) :
    drains (deeds ++ [deed]) = drains deeds := by
  rw [drains_append, drains, drains, List.flatMap_singleton, h]
  exact List.append_nil _

end Ledger

/-- What a history comes to. `new` are the events since `start`. -/
structure Books (capacity : Nat) (start : Journal) (deeds : List Deed) (new : List Event)
    (s : LiveSlots) (j : Journal) : Prop where
  thread_eq : j.thread = start.thread
  events_eq : j.events.toList = start.events.toList ++ new
  regular : Regular capacity s
  blocks_own : ∀ b ∈ s.blocks, b.id.thread = start.thread
  asked : ∀ e ∈ new, e.isReturn = false → e.block.id.thread = start.thread
    ∧ ∃ size, Layout.forLive? size = some e.block.layout
  obtained_eq : (Trace.obtained new).map some = (Ledger.obtained deeds).map Layout.forLive?
  tally : ∃ j₀, Tally capacity [] (Trace.own start.thread new) s j₀
  foreign_eq : Trace.foreign start.thread new = (Ledger.drains deeds).map .released
  counters_eq : j.counters = start.counters
    + (.live (Ledger.obtained deeds) (Trace.returns (Trace.own start.thread new))
        (Ledger.retirements deeds) + .drains (Ledger.drains deeds).length)
  allocated_eq : s.allocated = UInt64.ofNat (Ledger.obtained deeds).length
  retires_eq : s.retires = UInt64.ofNat (Ledger.retirements deeds)

namespace Books

variable {a : Allocator} {capacity : Nat} {start : Journal} {deeds : List Deed}
  {new : List Event} {s : LiveSlots} {j : Journal}

theorem opened (capacity : Nat) (start : Journal) :
    Books capacity start [] [] (.empty capacity) start where
  thread_eq := rfl
  events_eq := (List.append_nil _).symm
  regular := regular_empty capacity
  blocks_own b hb := by
    rw [blocks_empty] at hb
    cases hb
  asked := nofun
  obtained_eq := rfl
  tally := by
    refine ⟨{ thread := start.thread }, rfl, ?_, Trace.atMost_nil (Int.natCast_nonneg _)⟩
    rw [live_eq_length, blocks_empty]
    rfl
  foreign_eq := rfl
  counters_eq := (add_zero _).symm
  allocated_eq := rfl
  retires_eq := rfl

theorem asked_concat (h : Books capacity start deeds new s j) {e : Event} {size : Nat}
    {layout : Layout} (hlayout : e.block.layout = layout)
    (hsize : Layout.forLive? size = some layout) (hthread : e.block.id.thread = start.thread) :
    ∀ e' ∈ new ++ [e], e'.isReturn = false → e'.block.id.thread = start.thread
      ∧ ∃ size, Layout.forLive? size = some e'.block.layout := by
  intro e' he' hreturn
  rcases List.mem_append.mp he' with he' | he'
  · exact h.asked e' he' hreturn
  · obtain rfl := List.mem_singleton.mp he'
    exact ⟨hthread, size, hlayout ▸ hsize⟩

theorem asked_released (h : Books capacity start deeds new s j) (blocks : List Block) :
    ∀ e ∈ new ++ blocks.map .released, e.isReturn = false → e.block.id.thread = start.thread
      ∧ ∃ size, Layout.forLive? size = some e.block.layout := by
  intro e he hreturn
  rcases List.mem_append.mp he with he | he
  · exact h.asked e he hreturn
  · obtain ⟨b, -, rfl⟩ := List.mem_map.mp he
    cases hreturn

theorem skipWindow (h : Books capacity start deeds new s j) :
    Books capacity start deeds new s.skipWindow j where
  thread_eq := h.thread_eq
  events_eq := h.events_eq
  regular := h.regular.skipWindow
  blocks_own := by
    rw [blocks_skipWindow]
    exact h.blocks_own
  asked := h.asked
  obtained_eq := h.obtained_eq
  tally := by
    obtain ⟨j₀, htally⟩ := h.tally
    exact ⟨j₀, htally.skipWindow⟩
  foreign_eq := h.foreign_eq
  counters_eq := h.counters_eq
  allocated_eq := (allocated_skipWindow s).trans h.allocated_eq
  retires_eq := (retires_skipWindow s).trans h.retires_eq

/-- A deed that adds nothing up. -/
theorem idle (h : Books capacity start deeds new s j) (size : Nat) (e : Error) :
    Books capacity start (deeds ++ [.request size (.error e)]) new s j := by
  have hobtained : Ledger.obtained (deeds ++ [.request size (.error e)])
      = Ledger.obtained deeds := Ledger.obtained_concat rfl deeds
  have hdrains : Ledger.drains (deeds ++ [.request size (.error e)]) = Ledger.drains deeds :=
    Ledger.drains_concat rfl deeds
  have hretirements : Ledger.retirements (deeds ++ [.request size (.error e)])
      = Ledger.retirements deeds := Ledger.retirements_append _ _
  exact ⟨h.thread_eq, h.events_eq, h.regular, h.blocks_own, h.asked, hobtained ▸ h.obtained_eq,
    h.tally, hdrains ▸ h.foreign_eq, by rw [hobtained, hdrains, hretirements]; exact h.counters_eq,
    hobtained ▸ h.allocated_eq, hretirements ▸ h.retires_eq⟩

theorem noted (h : Books capacity start deeds new s j) (notice : Notice) :
    Books capacity start deeds new s (j.noted notice) :=
  ⟨h.thread_eq, h.events_eq, h.regular, h.blocks_own, h.asked, h.obtained_eq, h.tally,
    h.foreign_eq, h.counters_eq, h.allocated_eq, h.retires_eq⟩

theorem refused (h : Books capacity start deeds new s j) {size : Nat} {layout : Layout}
    (hsize : Layout.forLive? size = some layout) :
    Books capacity start deeds (new ++ [.refused (j.nextBlock layout)]) s
      (j.refused (j.nextBlock layout)) := by
  have hthread : (Event.refused (j.nextBlock layout)).block.id.thread = start.thread := h.thread_eq
  refine ⟨h.thread_eq, ?_, h.regular, h.blocks_own, h.asked_concat rfl hsize hthread, ?_, ?_, ?_,
    ?_, h.allocated_eq, h.retires_eq⟩
  · rw [← List.append_assoc, ← h.events_eq]
    exact Array.toList_push
  · rw [Trace.obtained_append, ← h.obtained_eq]
    exact congrArg _ (List.append_nil _)
  · obtain ⟨j₀, htally⟩ := h.tally
    rw [Trace.own_concat hthread]
    exact ⟨_, htally.refused _⟩
  · rw [Trace.foreign_concat hthread]
    exact h.foreign_eq
  · rw [Trace.own_concat hthread, Trace.returns_append]
    exact h.counters_eq

theorem stored (h : Books capacity start deeds new s j) {size : Nat} {layout : Layout}
    (hroom : s.skipWindow.cursor < s.skipWindow.capacity)
    (hsize : Layout.forLive? size = some layout) :
    Books capacity start (deeds ++ [.request size (.ok .allocated)])
      (new ++ [.granted (j.nextBlock layout)]) (s.skipWindow.store (j.nextBlock layout))
      ((j.granted (j.nextBlock layout)).counted (.liveAlloc size)) := by
  have hthread : (Event.granted (j.nextBlock layout)).block.id.thread = start.thread := h.thread_eq
  have hobtained : Ledger.obtained (deeds ++ [.request size (.ok .allocated)])
      = Ledger.obtained deeds ++ [size] := Ledger.obtained_append _ _
  have hdrains : Ledger.drains (deeds ++ [.request size (.ok .allocated)])
      = Ledger.drains deeds := Ledger.drains_concat rfl deeds
  have hretirements : Ledger.retirements (deeds ++ [.request size (.ok .allocated)])
      = Ledger.retirements deeds + 0 := Ledger.retirements_append _ _
  refine ⟨h.thread_eq, ?_, h.regular.store hroom _, ?_, h.asked_concat rfl hsize hthread, ?_, ?_,
    ?_, ?_, ?_, ?_⟩
  · rw [← List.append_assoc, ← h.events_eq]
    exact Array.toList_push
  · intro b hb
    have hperm := perm_store (b := j.nextBlock layout) hroom h.regular.vacant
    rcases List.mem_cons.mp (hperm.mem_iff.mp hb) with rfl | hb
    · exact hthread
    · rw [blocks_skipWindow] at hb
      exact h.blocks_own b hb
  · rw [hobtained, Trace.obtained_append, List.map_append, List.map_append, h.obtained_eq]
    simp [Trace.obtained, hsize, Journal.nextBlock]
  · obtain ⟨j₀, htally⟩ := h.tally
    rw [Trace.own_concat hthread]
    exact ⟨_, htally.skipWindow.store h.regular.skipWindow.capacity_eq hroom h.regular.vacant _
      (.liveAlloc size)⟩
  · rw [Trace.foreign_concat hthread, hdrains]
    exact h.foreign_eq
  · rw [hobtained, hdrains, hretirements, Trace.own_concat hthread, Trace.returns_append]
    -- the counter grows by the size that was asked for, not by that of the layout
    have hgrown := congrArg (· + Counters.liveAlloc size) h.counters_eq
    refine hgrown.trans ?_
    rw [Counters.liveAlloc_eq, show Trace.returns [.granted (j.nextBlock layout)] = 0 from rfl,
      Counters.live_add]
    abel
  · rw [hobtained, List.length_append, UInt64.ofNat_add, ← h.allocated_eq,
      ← allocated_skipWindow s]
    rfl
  · rw [hretirements, Nat.add_zero, ← h.retires_eq, ← retires_skipWindow s]
    rfl

/-- Blocks of the buffer leave it, and what stays is the buffer `s'`. -/
theorem returned (h : Books capacity start deeds new s j) {deed : Deed} {blocks : List Block}
    {s' : LiveSlots} {retires : Nat} (hregular : Regular capacity s')
    (hparted : s.blocks.Perm (blocks ++ s'.blocks))
    (htally : ∀ own j₀, Tally capacity [] own s j₀ →
      ∃ j₁, Tally capacity [] (own ++ blocks.map .released) s' j₁)
    (hobtained : deed.obtained? = none) (hdrained : deed.drained = [])
    (hretires : [deed].countP Deed.retires = retires) (hallocated : s'.allocated = s.allocated)
    (hretired : s'.retires = s.retires + UInt64.ofNat retires) :
    Books capacity start (deeds ++ [deed]) (new ++ blocks.map .released) s'
      ((j.returned blocks).counted (.live [] blocks.length retires)) := by
  have hblocks : ∀ b ∈ blocks, b.id.thread = start.thread := fun b hb =>
    h.blocks_own b (hparted.mem_iff.mpr (List.mem_append_left _ hb))
  have hsame : Ledger.obtained (deeds ++ [deed]) = Ledger.obtained deeds :=
    Ledger.obtained_concat hobtained deeds
  have hdrains : Ledger.drains (deeds ++ [deed]) = Ledger.drains deeds :=
    Ledger.drains_concat hdrained deeds
  have hretirements : Ledger.retirements (deeds ++ [deed])
      = Ledger.retirements deeds + retires := by
    rw [Ledger.retirements_append, ← hretires]
    rfl
  have hown : Trace.own start.thread (new ++ blocks.map .released)
      = Trace.own start.thread new ++ blocks.map .released := by
    rw [Trace.own_append, Trace.own_released hblocks]
  refine ⟨?_, ?_, hregular, ?_, h.asked_released blocks, ?_, ?_, ?_, ?_, ?_, ?_⟩
  · exact (j.thread_returned blocks).trans h.thread_eq
  · rw [← List.append_assoc, ← h.events_eq]
    exact j.events_returned blocks
  · intro b hb
    exact h.blocks_own b (hparted.mem_iff.mpr (List.mem_append_right _ hb))
  · rw [hsame, Trace.obtained_append, Trace.obtained_released, List.append_nil]
    exact h.obtained_eq
  · obtain ⟨j₀, hj₀⟩ := h.tally
    rw [hown]
    exact htally _ _ hj₀
  · rw [Trace.foreign_append, Trace.foreign_released hblocks, List.append_nil, hdrains]
    exact h.foreign_eq
  · rw [hsame, hdrains, hretirements, hown, Trace.returns_append, Trace.returns_released,
      Journal.counters_counted, Journal.counters_returned, h.counters_eq,
      ← List.append_nil (Ledger.obtained deeds), Counters.live_add, List.append_nil]
    abel
  · rw [hsame, hallocated]
    exact h.allocated_eq
  · rw [hretirements, hretired, h.retires_eq, UInt64.ofNat_add]

theorem drained (h : Books capacity start deeds new s j) {blocks : List Block}
    (hother : ∀ b ∈ blocks, b.id.thread ≠ start.thread) :
    Books capacity start (deeds ++ [.drain blocks]) (new ++ blocks.map .released) s
      (j.drained blocks) := by
  have hsame : Ledger.obtained (deeds ++ [.drain blocks]) = Ledger.obtained deeds :=
    Ledger.obtained_concat rfl deeds
  have hdrains : Ledger.drains (deeds ++ [.drain blocks]) = Ledger.drains deeds ++ blocks := by
    rw [Ledger.drains_append]
    exact congrArg _ (List.append_nil blocks)
  have hretirements : Ledger.retirements (deeds ++ [.drain blocks])
      = Ledger.retirements deeds := Ledger.retirements_append _ _
  have hown : Trace.own start.thread (new ++ blocks.map .released)
      = Trace.own start.thread new := by
    rw [Trace.own_append, Trace.own_released_other hother, List.append_nil]
  refine ⟨?_, ?_, h.regular, h.blocks_own, h.asked_released blocks, ?_, ?_, ?_, ?_, ?_, ?_⟩
  · exact (j.thread_drained blocks).trans h.thread_eq
  · rw [← List.append_assoc, ← h.events_eq]
    exact j.events_drained blocks
  · rw [hsame, Trace.obtained_append, Trace.obtained_released, List.append_nil]
    exact h.obtained_eq
  · rw [hown]
    exact h.tally
  · rw [Trace.foreign_append, Trace.foreign_released_other hother, hdrains, List.map_append,
      h.foreign_eq]
  · rw [hsame, hdrains, hretirements, hown, Journal.counters_drained, h.counters_eq,
      List.length_append, Counters.drains_add]
    abel
  · rw [hsame]
    exact h.allocated_eq
  · rw [hretirements]
    exact h.retires_eq

theorem retire (h : Books capacity start deeds new s j) (hend : capacity ≤ s.cursor)
    (size : Nat) : Books capacity start (deeds ++ [.request size (.ok .retired)])
      (new ++ s.retiring.map .released) s.retire
      ((j.returned s.retiring).counted (.retire s.retiring.length)) := by
  rw [Counters.retire_eq]
  exact h.returned (h.regular.retire hend) s.perm_retire
    (fun _ _ htally => ⟨_, htally.retire (.retire s.retiring.length)⟩) rfl rfl rfl rfl rfl

theorem clear (h : Books capacity start deeds new s j) :
    Books capacity start (deeds ++ [.clear]) (new ++ s.blocks.map .released) s.clear
      ((j.returned s.blocks).counted (.liveFrees s.blocks.length)) := by
  rw [Counters.liveFrees_eq]
  refine h.returned h.regular.clear ?_ (fun _ _ htally => ⟨_, htally.clear (.liveFrees 0)⟩)
    rfl rfl rfl rfl (UInt64.add_zero _).symm
  rw [blocks_clear, List.append_nil]

/-- What a request comes to is entered in the books. -/
theorem served (h : Books capacity start deeds new s j) {size : Nat} {answer : Except Error Step}
    {s' : LiveSlots} {j' : Journal} (hserved : Served a s size j (answer, s') j') :
    ∃ new', Books capacity start (deeds ++ [.request size answer]) new' s' j' := by
  generalize hout : (answer, s') = out at hserved
  cases hserved with
  | retired hend =>
      obtain ⟨rfl, rfl⟩ := Prod.mk.inj hout
      rw [h.regular.capacity_eq] at hend
      exact ⟨_, h.skipWindow.retire hend size⟩
  | noLayout hroom hsize =>
      obtain ⟨rfl, rfl⟩ := Prod.mk.inj hout
      exact ⟨_, h.skipWindow.idle size _⟩
  | refused hroom hsize hanswer =>
      obtain ⟨rfl, rfl⟩ := Prod.mk.inj hout
      exact ⟨_, (h.skipWindow.refused hsize).idle size _⟩
  | stored hroom hsize hanswer =>
      obtain ⟨rfl, rfl⟩ := Prod.mk.inj hout
      rw [← capacity_skipWindow] at hroom
      exact ⟨_, h.stored hroom hsize⟩

/-- Blocks obtained are blocks handed back and blocks that the buffer holds. -/
theorem obtained_eq_add (h : Books capacity start deeds new s j) :
    (Ledger.obtained deeds).length
      = Trace.returns (Trace.own start.thread new) + s.blocks.length := by
  obtain ⟨j₀, htally⟩ := h.tally
  have hlive := htally.outstanding
  rw [Trace.outstanding_eq, live_eq_length] at hlive
  have hown : Trace.grants (Trace.own start.thread new) = Trace.grants new := by
    rw [Trace.grants, Trace.grants, Trace.own, List.countP_filter]
    refine List.countP_congr fun e he => ?_
    cases e with
    | granted b =>
        have hthread : b.id.thread = start.thread := (h.asked _ he rfl).1
        simp [Event.isGrant, hthread]
    | refused b => simp [Event.isGrant]
    | released b => simp [Event.isGrant]
  have hlength := congrArg List.length h.obtained_eq
  rw [List.length_map, List.length_map, Trace.length_obtained] at hlength
  omega

end Books

/-- Every history has its books. -/
theorem Ledger.books {a : Allocator} {capacity : Nat} {start : Journal} {deeds : List Deed}
    {s : LiveSlots} {j : Journal} (h : Ledger a capacity start deeds s j) :
    ∃ new, Books capacity start deeds new s j := by
  induction h with
  | opened => exact ⟨_, .opened capacity start⟩
  | request _ hserved ih =>
      obtain ⟨new, hbooks⟩ := ih
      exact hbooks.served hserved
  | cleared _ ih =>
      obtain ⟨new, hbooks⟩ := ih
      exact ⟨_, hbooks.clear⟩
  | drained _ hother ih =>
      obtain ⟨new, hbooks⟩ := ih
      exact ⟨_, hbooks.drained hother⟩
  | noted notice _ ih =>
      obtain ⟨new, hbooks⟩ := ih
      exact ⟨_, hbooks.noted notice⟩

end LiveSlots

end HeapChurn
