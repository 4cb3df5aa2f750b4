import HeapChurn.Proofs.Routine.Contract

/-!
# Runs of routines

Routines obey the monad laws, so what is done in a row may be regrouped, and a run of routines in a
row is a run of the first and then of the rest (`run_bind`). Events are only ever added to a journal
(`events_run_prefix`), so what a thread has done at some point of a run stands at the front of what
it has done in the end.
-/

namespace HeapChurn

namespace Routine

variable {α β γ : Type}

theorem bind_done (r : Routine α) : r.bind done = r := by
  induction r with
  | done x => rfl
  | act action next ih => exact congrArg (act action) (funext ih)

theorem bind_bind (r : Routine α) (f : α → Routine β) (g : β → Routine γ) :
    (r.bind f).bind g = r.bind fun x => (f x).bind g := by
  induction r with
  | done x => rfl
  | act action next ih => exact congrArg (act action) (funext ih)

instance : LawfulMonad Routine :=
  LawfulMonad.mk' Routine bind_done (fun _ _ => rfl) bind_bind

variable {a : Allocator}

theorem run_pure (x : α) (v : View) : (pure x : Routine α).run a v = (x, v) := rfl

theorem run_bind (r : Routine α) (next : α → Routine β) (v : View) :
    (r >>= next).run a v = (next (r.run a v).1).run a (r.run a v).2 := by
  induction r generalizing v with
  | done x => rfl
  | act action rest ih => exact ih _ _

theorem run_map (f : α → β) (r : Routine α) (v : View) :
    (f <$> r).run a v = (f (r.run a v).1, (r.run a v).2) :=
  run_bind r (fun x => pure (f x)) v

@[simp] theorem run_thread (r : Routine α) (v : View) :
    (r.run a v).2.journal.thread = v.journal.thread := by
  induction r generalizing v with
  | done x => rfl
  | act action next ih => exact (ih _ _).trans (action.perform_thread a v)

theorem run_take (slot : Nat) (v : View) : (take slot).run a v
    = (v.pool[slot]?.join, ⟨v.pool.setIfInBounds slot none, v.journal⟩) := rfl

end Routine

/-! ## Journals grow -/

theorem Action.events_perform_prefix (a : Allocator) (x : Action) (v : View) :
    v.journal.events.toList <+: (x.perform a v).2.journal.events.toList := by
  cases x with
  | request layout =>
      simp only [perform]
      split <;> simp [Journal.refused, Journal.granted]
  | release block => simp [perform, Journal.recordEvent]
  | reserve slots => exact List.prefix_refl _
  | take slot => exact List.prefix_refl _
  | store block => exact List.prefix_refl _
  | note notice => exact List.prefix_refl _
  | count growth => exact List.prefix_refl _

namespace Routine

variable {α β : Type} {a : Allocator}

theorem events_run_prefix (r : Routine α) (v : View) :
    v.journal.events.toList <+: (r.run a v).2.journal.events.toList := by
  induction r generalizing v with
  | done x => exact List.prefix_refl _
  | act action next ih => exact (action.events_perform_prefix a v).trans (ih _ _)

theorem events_bind_prefix (r : Routine α) (next : α → Routine β) (v : View) :
    (r.run a v).2.journal.events.toList <+: ((r >>= next).run a v).2.journal.events.toList := by
  rw [run_bind]
  exact events_run_prefix _ _

end Routine

end HeapChurn
