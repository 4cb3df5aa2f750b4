import HeapChurn.Proofs.Routine.Run
import HeapChurn.Proofs.Worker.Confinement

/-!
# Routines apart from the pool

A routine that neither takes from the pool nor stores into it cannot tell one pool from another. So
it does the same wherever its thread has made as many calls, whatever else went on before
(`Confined.run_apart`). Where no tags are overwritten it leaves the pool as it is
(`Confined.pool_run`).
-/

namespace HeapChurn

/-- Two journals of one thread that has made as many calls. -/
structure Journal.Abreast (i j : Journal) : Prop where
  thread : i.thread = j.thread
  calls : i.calls = j.calls

theorem Journal.Abreast.nextBlock {i j : Journal} (h : i.Abreast j) (layout : Layout) :
    i.nextBlock layout = j.nextBlock layout := by
  rw [Journal.nextBlock, Journal.nextBlock, h.thread, h.calls]

variable {a : Allocator} {v u : View}

theorem Action.Within.apart {x : Action} (hx : x.Within []) (h : v.journal.Abreast u.journal) :
    (x.perform a v).1 = (x.perform a u).1
      ∧ (x.perform a v).2.journal.Abreast (x.perform a u).2.journal
      ∧ ∃ new, (x.perform a v).2.journal.events.toList = v.journal.events.toList ++ new
        ∧ (x.perform a u).2.journal.events.toList = u.journal.events.toList ++ new := by
  cases x with
  | take slot => cases hx
  | store b => exact hx.elim
  | request layout =>
      simp only [perform]
      rw [h.thread, h.calls, h.nextBlock]
      split
      · exact ⟨rfl, ⟨h.thread, congrArg (· + 1) h.calls⟩, [.refused (u.journal.nextBlock layout)],
          Array.toList_push, Array.toList_push⟩
      · exact ⟨rfl, ⟨h.thread, congrArg (· + 1) h.calls⟩, [.granted (u.journal.nextBlock layout)],
          Array.toList_push, Array.toList_push⟩
  | release b => exact ⟨rfl, ⟨h.thread, h.calls⟩, [.released b], Array.toList_push,
      Array.toList_push⟩
  | reserve slots =>
      simp only [perform]
      rw [h.thread]
      exact ⟨rfl, h, [], (List.append_nil _).symm, (List.append_nil _).symm⟩
  | note notice => exact ⟨rfl, ⟨h.thread, h.calls⟩, [], (List.append_nil _).symm,
      (List.append_nil _).symm⟩
  | count growth => exact ⟨rfl, ⟨h.thread, h.calls⟩, [], (List.append_nil _).symm,
      (List.append_nil _).symm⟩

namespace Routine

variable {α : Type} {P : α → Prop} {r : Routine α}

theorem Confined.run_apart (hr : r.Confined (Action.Within []) (fun _ _ => True) P)
    (h : v.journal.Abreast u.journal) :
    (r.run a v).1 = (r.run a u).1 ∧ (r.run a v).2.journal.Abreast (r.run a u).2.journal
      ∧ ∃ new, (r.run a v).2.journal.events.toList = v.journal.events.toList ++ new
        ∧ (r.run a u).2.journal.events.toList = u.journal.events.toList ++ new := by
  induction r generalizing v u with
  | done x => exact ⟨rfl, h, [], (List.append_nil _).symm, (List.append_nil _).symm⟩
  | act action next ih =>
      obtain ⟨hx, hnext⟩ := hr
      obtain ⟨hanswer, habreast, new, hv, hu⟩ := hx.apart (a := a) h
      obtain ⟨hresult, habreast', new', hv', hu'⟩ := ih _ (hnext _ trivial) habreast
      rw [hv, List.append_assoc] at hv'
      rw [hu, List.append_assoc] at hu'
      simp only [run]
      rw [← hanswer]
      exact ⟨hresult, habreast', new ++ new', hv', hu'⟩

theorem Confined.pool_run (hr : r.Confined (Action.Within []) (fun _ _ => True) P)
    (hquiet : ∀ call, a.overwrites v.journal.thread call = []) : (r.run a v).2.pool = v.pool := by
  have hsame : Interference.nobody.Allows v.pool (r.run a v).2.pool := by
    refine hr.run_allowed (fun x hx w hw => ?_) rfl
    rcases hx.pool_eq a w with ⟨calls, h⟩ | h | ⟨s, hs, -⟩
    · rw [h, hw, hquiet]
      rfl
    · exact h.symm
    · cases hs
  exact hsame.symm

end Routine

end HeapChurn
