import HeapChurn.Proofs.LiveSlots.Ledger

/-!
# A buffer in direct use

Calls to a buffer, one after the other, with a record of what each came to. The record is a history
in the sense of `Ledger`, so its books hold: whatever is asked for and whatever is refused, the
counters grow by what the record adds up to, and once everything is released as many blocks were
handed back as were obtained (`counted_attend`).
-/

namespace HeapChurn

namespace LiveSlots

/-- Serves one call after the other and records what each came to. -/
def attend : List Call → LiveSlots → Routine (List Deed × LiveSlots)
  | [], s => return ([], s)
  | .allocate size :: rest, s => do
    let (answer, s) ← s.allocate size
    let (deeds, s) ← attend rest s
    return (.request size answer :: deeds, s)
  | .releaseAll :: rest, s => do
    let (_, s) ← s.releaseAll
    let (deeds, s) ← attend rest s
    return (.clear :: deeds, s)

variable {a : Allocator} {capacity : Nat} {start : Journal} {slots : List Nat}
  {held : Nat → Option Block}

theorem enter_attend : ∀ (calls : List Call) {deeds : List Deed} {s : LiveSlots} {v : View},
    v.Holds slots held → Ledger a capacity start deeds s v.journal →
    (attend calls s).Ensures a (.retagging slots) v fun out w =>
      Ledger a capacity start (deeds ++ out.1) out.2 w.journal ∧ Ledger.drains out.1 = []
  | [], deeds, _, _, _, h => Routine.ensures_pure fun _ _ =>
      ⟨(List.append_nil deeds).symm ▸ h, rfl⟩
  | .allocate size :: rest, deeds, s, v, hv, h => by
      obtain ⟨new, hbooks⟩ := h.books
      unfold attend
      refine (ensures_allocate hv hbooks.regular.vacant size).bind fun out w ⟨hw, hserved⟩ => ?_
      obtain ⟨answer, s'⟩ := out
      refine (enter_attend rest hw (h.request hserved)).bind fun out u ⟨hu, hdrains⟩ => ?_
      refine Routine.ensures_pure fun _ _ => ⟨?_, hdrains⟩
      rw [List.append_assoc] at hu
      exact hu
  | .releaseAll :: rest, deeds, s, v, hv, h => by
      unfold attend
      refine (ensures_releaseAll hv).bind fun out w ⟨hw, hout, hj⟩ => ?_
      subst hout
      have hcleared := h.cleared
      rw [← hj] at hcleared
      refine (enter_attend rest hw hcleared).bind fun out u ⟨hu, hdrains⟩ => ?_
      refine Routine.ensures_pure fun _ _ => ⟨?_, hdrains⟩
      rw [List.append_assoc] at hu
      exact hu

/-- Where nothing of others is handed back, all events are about blocks of the thread. -/
theorem Books.own_eq {deeds : List Deed} {new : List Event} {s : LiveSlots} {j : Journal}
    (h : Books capacity start deeds new s j) (hdrains : Ledger.drains deeds = []) :
    Trace.own start.thread new = new := by
  have hforeign := h.foreign_eq
  rw [hdrains] at hforeign
  refine Trace.own_eq_self fun e he => ?_
  by_contra hne
  have hmem : e ∈ Trace.foreign start.thread new :=
    List.mem_filter.mpr ⟨he, decide_eq_true hne⟩
  rw [hforeign] at hmem
  cases hmem

/-- The counters of a buffer in direct use, before and after its blocks are released in the end. -/
theorem counted_attend {s : LiveSlots} (h : ofCapacity capacity = .ok s) (calls : List Call)
    (v : View) :
    let served := (attend calls s).run a v
    let ended := (served.1.2.releaseAll).run a served.2
    ∃ new final : List Event,
      v.journal.Gained served.2.journal new (.live (Ledger.obtained served.1.1)
        (Trace.returns new) (Ledger.retirements served.1.1))
      ∧ (Trace.obtained new).map some = (Ledger.obtained served.1.1).map Layout.forLive?
      ∧ served.2.journal.Gained ended.2.journal final (.live [] (Trace.returns final) 0)
      ∧ Trace.grants final = 0
      ∧ Trace.grants (new ++ final) = Trace.returns (new ++ final) := by
  obtain ⟨-, rfl⟩ : reservable capacity = true ∧ s = empty capacity := by
    unfold ofCapacity at h
    split at h
    · exact ⟨‹_›, (Except.ok.inj h).symm⟩
    · cases h
  intro served ended
  have hholds (w : View) : w.Holds [] fun _ => none := fun _ hs => absurd hs List.not_mem_nil
  have hattend : Ledger a capacity v.journal ([] ++ served.1.1) served.1.2 served.2.journal
      ∧ Ledger.drains served.1.1 = [] := (enter_attend calls (hholds v) .opened).run_self
  obtain ⟨hledger, hdrains⟩ := hattend
  obtain ⟨new, hbooks⟩ := hledger.books
  obtain ⟨-, -, hended⟩ := (ensures_releaseAll (a := a) (s := served.1.2)
    (hholds served.2)).run_self
  have hgrants : Trace.grants new = (Ledger.obtained served.1.1).length := by
    have hlength := congrArg List.length hbooks.obtained_eq
    rw [List.length_map, List.length_map, Trace.length_obtained] at hlength
    exact hlength
  have hcounters := hbooks.counters_eq
  rw [hbooks.own_eq hdrains, List.nil_append, hdrains] at hcounters
  refine ⟨new, served.1.2.blocks.map .released,
    ⟨hbooks.events_eq, hcounters.trans (congrArg _ (add_zero _))⟩, hbooks.obtained_eq, ⟨?_, ?_⟩,
    Trace.grants_released _, ?_⟩
  · show ended.2.journal.events.toList = _
    rw [hended]
    exact Journal.events_returned _ _
  · show ended.2.journal.counters = _
    rw [hended, Trace.returns_released, ← Counters.liveFrees_eq, Journal.counters_counted,
      Journal.counters_returned]
  · have hbalance := hbooks.obtained_eq_add
    rw [hbooks.own_eq hdrains] at hbalance
    rw [Trace.grants_append, Trace.returns_append, Trace.grants_released, Trace.returns_released,
      hgrants]
    exact hbalance

end LiveSlots

end HeapChurn
