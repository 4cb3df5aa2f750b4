import HeapChurn.Proofs.Worker.Ledger
import Mathlib.Algebra.BigOperators.Group.List.Basic

/-!
# The audit of a worker

What a worker that is done shows to somebody who has only its events and its counters. Of the blocks
of its own it handed back as many as it obtained, and never held more than its buffer has slots; the
blocks of the main thread it only handed back. Its counters can be read off these events and the
number of its retire events (`Counters.ofTrace`), and so can its report.
-/

namespace HeapChurn

open LiveSlots (Deed Ledger)

namespace Trace

/-- The bytes of the blocks that were obtained. -/
def bytes (events : List Event) : Nat := ((obtained events).map (·.size)).sum

theorem bytes_append (s t : List Event) : bytes (s ++ t) = bytes s + bytes t := by
  rw [bytes, obtained_append, List.map_append, List.sum_append]
  rfl

variable {thread : Thread} {t : List Event}

/-- Where only others obtain blocks nothing is missed by looking at theirs. -/
theorem obtained_foreign (h : ∀ e ∈ t, e.isReturn = false → e.block.id.thread ≠ thread) :
    obtained (foreign thread t) = obtained t := by
  rw [obtained, obtained, foreign, List.filterMap_filter]
  refine List.filterMap_congr fun e he => ?_
  cases e with
  | granted b =>
      have hne : b.id.thread ≠ thread := h _ he rfl
      simp [hne]
  | refused b => split <;> rfl
  | released b => split <;> rfl

/-- The blocks of one of two threads are those that are not of the other. -/
theorem foreign_eq_own {other : Thread} (hne : thread ≠ other)
    (h : ∀ e ∈ t, e.block.id.thread = thread ∨ e.block.id.thread = other) :
    foreign other t = own thread t := by
  refine List.filter_congr fun e he => ?_
  rcases h e he with hthread | hthread
  · simp [hthread, hne]
  · simp [hthread, Ne.symm hne]

end Trace

namespace Counters

/-- What the counters of a trace come to that has so many retire events, and in which drains have
handed back so many blocks. Blocks of the main thread are foreign, all others are live. -/
def ofTrace (t : List Event) (retires drained : Nat) : Counters where
  allocs := UInt64.ofNat (Trace.grants (Trace.foreign .main t))
  allocBytes := UInt64.ofNat (Trace.bytes (Trace.foreign .main t))
  frees := UInt64.ofNat (Trace.returns (Trace.foreign .main t))
  retires := UInt64.ofNat retires
  foreignAllocs := UInt64.ofNat (Trace.grants (Trace.own .main t))
  foreignFrees := UInt64.ofNat drained

theorem ofTrace_append (s t : List Event) (m n i j : Nat) :
    ofTrace (s ++ t) (m + n) (i + j) = ofTrace s m i + ofTrace t n j := by
  unfold ofTrace
  rw [Trace.foreign_append, Trace.own_append, Trace.grants_append, Trace.grants_append,
    Trace.returns_append, Trace.bytes_append]
  ext1 <;> exact UInt64.ofNat_add _ _

theorem ofTrace_perm {s t : List Event} (h : s.Perm t) (retires drained : Nat) :
    ofTrace s retires drained = ofTrace t retires drained := by
  have hforeign : (Trace.foreign .main s).Perm (Trace.foreign .main t) := h.filter _
  have hbytes : Trace.bytes (Trace.foreign .main s) = Trace.bytes (Trace.foreign .main t) :=
    ((hforeign.filterMap _).map _).sum_eq
  have hown : (Trace.own .main s).Perm (Trace.own .main t) := h.filter _
  ext1
  · exact congrArg UInt64.ofNat (hforeign.countP_eq _)
  · exact congrArg UInt64.ofNat hbytes
  · exact congrArg UInt64.ofNat (hforeign.countP_eq _)
  · rfl
  · exact congrArg UInt64.ofNat (hown.countP_eq _)
  · rfl

/-- The part of the counters that reports show. -/
def shown (c : Counters) : Counters := { c with allocBytes := 0, foreignAllocs := 0 }

theorem shown_add (c d : Counters) : (c + d).shown = c.shown + d.shown := rfl

end Counters

/-- What a report shows of the counters. -/
def WorkerReport.figures (w : WorkerReport) : Counters where
  allocs := w.allocations
  frees := w.frees
  retires := w.retires
  foreignFrees := w.foreignFrees

namespace LiveSlots

theorem size_of_forLive? {size : Nat} {layout : Layout} (h : Layout.forLive? size = some layout) :
    layout.size = max size 1 := by
  unfold Layout.forLive? Layout.ofSize? at h
  split at h
  · cases h
    rfl
  · cases h

/-- Where no request is for nothing, the layouts have the sizes that were asked for. -/
theorem sizes_eq : ∀ {layouts : List Layout} {sizes : List Nat},
    layouts.map some = sizes.map Layout.forLive? → (∀ n ∈ sizes, 0 < n) →
    layouts.map (·.size) = sizes
  | [], [], _, _ => rfl
  | [], _ :: _, h, _ => by cases h
  | _ :: _, [], h, _ => by cases h
  | layout :: layouts, n :: sizes, h, hpos => by
      obtain ⟨hlayout, hrest⟩ := List.cons.inj h
      have hn : 0 < n := hpos n List.mem_cons_self
      have hsize : layout.size = n := (size_of_forLive? hlayout.symm).trans (by omega)
      have hsizes := sizes_eq hrest fun m hm => hpos m (List.mem_cons_of_mem n hm)
      rw [List.map_cons, hsize, hsizes]

theorem Ledger.obtained_subset (deeds : List Deed) :
    Ledger.obtained deeds ⊆ Ledger.requested deeds := by
  intro n hn
  obtain ⟨deed, hdeed, hobtained⟩ := List.mem_filterMap.mp hn
  refine List.mem_filterMap.mpr ⟨deed, hdeed, ?_⟩
  cases deed with
  | request size answer =>
      rcases answer with e | (_ | _)
      · cases hobtained
      · exact hobtained
      · cases hobtained
  | clear => cases hobtained
  | drain blocks => cases hobtained

/-! ## The books of a worker

A worker hands back blocks of the main thread only, so what is not the main thread's is its own. -/

namespace Books

variable {id capacity : Nat} {deeds : List Deed} {new : List Event} {s : LiveSlots} {j : Journal}
  (h : Books capacity { thread := .worker id } deeds new s j)

include h

theorem obtained_foreign : Trace.obtained (Trace.foreign .main new) = Trace.obtained new :=
  Trace.obtained_foreign fun e he hreturn heq => by
    rw [(h.asked e he hreturn).1] at heq
    cases heq

theorem grants_foreign :
    Trace.grants (Trace.foreign .main new) = (Ledger.obtained deeds).length := by
  have hlength := congrArg List.length h.obtained_eq
  rw [List.length_map, List.length_map] at hlength
  rw [← Trace.length_obtained, h.obtained_foreign, hlength]

variable (hmain : ∀ b ∈ Ledger.drains deeds, b.id.thread = .main)

include hmain

theorem threads : ∀ e ∈ new, e.block.id.thread = .worker id ∨ e.block.id.thread = .main := by
  intro e he
  by_cases hown : e.block.id.thread = .worker id
  · exact Or.inl hown
  · have hmem : e ∈ Trace.foreign (.worker id) new :=
      List.mem_filter.mpr ⟨he, decide_eq_true hown⟩
    rw [h.foreign_eq] at hmem
    obtain ⟨b, hb, rfl⟩ := List.mem_map.mp hmem
    exact Or.inr (hmain b hb)

theorem foreign_main : Trace.foreign .main new = Trace.own (.worker id) new :=
  Trace.foreign_eq_own (fun heq => by cases heq) (h.threads hmain)

theorem own_main : Trace.own .main new = (Ledger.drains deeds).map .released := by
  rw [← h.foreign_eq]
  exact (Trace.foreign_eq_own (fun heq => by cases heq) fun e he =>
    (h.threads hmain e he).symm).symm

/-- With its buffer empty a worker has handed back all that it obtained. -/
theorem returns_foreign (hempty : s.blocks = []) :
    (Ledger.obtained deeds).length = Trace.returns (Trace.foreign .main new) := by
  rw [h.foreign_main hmain, h.obtained_eq_add, hempty]
  rfl

theorem returns_main : Trace.returns (Trace.own .main new) = (Ledger.drains deeds).length := by
  rw [h.own_main hmain, Trace.returns_released]

/-- The counters can be read off the events where no request is for nothing. -/
theorem counters_ofTrace (hpos : ∀ n ∈ Ledger.obtained deeds, 0 < n) :
    j.counters = .ofTrace new (Ledger.retirements deeds) (Trace.returns (Trace.own .main new)) := by
  have hbytes : Trace.bytes (Trace.foreign .main new) = (Ledger.obtained deeds).sum := by
    rw [Trace.bytes, h.obtained_foreign, sizes_eq h.obtained_eq hpos]
  have hnone : Trace.grants (Trace.own .main new) = 0 := by
    rw [h.own_main hmain, Trace.grants_released]
  have hgrown := h.counters_eq.trans (zero_add _)
  rw [hgrown, Counters.ofTrace, h.grants_foreign, hbytes, h.foreign_main hmain, hnone,
    h.returns_main hmain]
  ext1 <;> simp [Counters.live, Counters.drains]

end Books

end LiveSlots

theorem Histogram.stream_pos (table : Histogram) {k n : Nat} (h : n ∈ table.stream k) : 0 < n := by
  obtain ⟨i, -, hn⟩ := List.mem_flatMap.mp h
  rw [List.eq_of_mem_replicate hn]
  exact table.size_pos _ (List.get_mem _ _)

namespace Worker

/-- What is seen of a worker that is done. -/
structure Audit (id capacity : Nat) (result : Except Error WorkerReport) (j : Journal)
    (deeds : List Deed) : Prop where
  threads : ∀ e ∈ j.events.toList, e.block.id.thread = .worker id ∨ e.block.id.thread = .main
  asked : ∀ e ∈ j.events.toList, e.isReturn = false → e.block.id.thread = .worker id
    ∧ ∃ size, Layout.forLive? size = some e.block.layout
  atMost : Trace.AtMost capacity (Trace.own (.worker id) j.events.toList)
  settled : Trace.grants (Trace.foreign .main j.events.toList)
    = Trace.returns (Trace.foreign .main j.events.toList)
  counters : j.counters = .ofTrace j.events.toList (Ledger.retirements deeds)
    (Trace.returns (Trace.own .main j.events.toList))
  report : ∀ report, result = .ok report →
    report.figures = j.counters.shown

variable {a : Allocator} {id : Nat} {plan : Plan} {table : Histogram} {share : List Nat}
  {held : Nat → Option Block} {gone : List Nat} {lost : Option Nat}
  {result : Except Error WorkerReport} {j : Journal} {pool : PoolSlots} {deeds : List Deed}

/-- The blocks that a worker has handed back by draining. -/
theorem Left.drains_eq (hleft : Left id plan table share held gone lost result ⟨pool, j⟩)
    {new : List Event} {s : LiveSlots} {capacity : Nat}
    (hbooks : LiveSlots.Books capacity { thread := .worker id } deeds new s j) :
    Ledger.drains deeds = gone.filterMap held := by
  have hforeign := hleft.custody.foreign
  rw [hleft.thread, hbooks.events_eq] at hforeign
  have hreleased : Function.Injective Event.released := fun b c h => Event.released.inj h
  exact List.map_injective_iff.mpr hreleased (hbooks.foreign_eq.symm.trans hforeign)

theorem Account.audit (h : Account a id plan table result j deeds)
    (hleft : Left id plan table share held gone lost result ⟨pool, j⟩)
    (hmain : ∀ b ∈ gone.filterMap held, b.id.thread = .main) :
    Audit id plan.heapSlotsPerWorker result j deeds := by
  obtain ⟨s, hledger, hempty, hreport⟩ := h.ledger
  obtain ⟨new, hbooks⟩ := hledger.books
  have hnew : j.events.toList = new := hbooks.events_eq
  rw [← hleft.drains_eq hbooks] at hmain
  have hcounters := hbooks.counters_ofTrace hmain fun n hn =>
    table.stream_pos (h.requested.subset (Ledger.obtained_subset deeds hn))
  refine ⟨hnew ▸ hbooks.threads hmain, hnew ▸ hbooks.asked, ?_, ?_, hnew ▸ hcounters,
    fun report hok => ?_⟩
  · obtain ⟨j₀, htally⟩ := hbooks.tally
    rw [hnew]
    exact htally.atMost
  · rw [hnew, hbooks.grants_foreign]
    exact hbooks.returns_foreign hmain hempty
  · obtain ⟨hallocations, hfrees, hretires⟩ := hreport report hok
    -- the report counts what the buffer has freed, and the buffer is empty
    have hfreed : s.freed = s.allocated := by
      have hbalance := hbooks.regular.balance
      rw [LiveSlots.live_eq_length, hempty] at hbalance
      simpa using hbalance.symm
    have hgone : report.foreignFrees = UInt64.ofNat (Ledger.drains deeds).length := by
      rcases hleft.outcome with ⟨e, he, -⟩ | ⟨-, -, hresult⟩
      · rw [hok] at he
        cases he
      · obtain rfl := Except.ok.inj (hok.symm.trans hresult)
        rw [hleft.drains_eq hbooks, List.length_filterMap_eq_countP,
          List.countP_eq_length.mpr fun t ht => hleft.filled t ht]
        rfl
    rw [hcounters, Counters.ofTrace, hbooks.grants_foreign, hbooks.returns_main hmain,
      ← hbooks.returns_foreign hmain hempty, WorkerReport.figures, hallocations, hfrees, hretires,
      hfreed, hgone, hbooks.allocated_eq, hbooks.retires_eq]
    rfl

end Worker

end HeapChurn
