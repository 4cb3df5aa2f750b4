import HeapChurn.Allocator

/-!
# Contracts of routines

What a routine comes to when other threads act on the pool between its actions. `Interference` says
what the others may do, and `Routine.Ensures` is the weakest condition on the view before a routine
under which every such run ends in a given set of outcomes. A contract holds in particular of a run
with nobody in between (`Ensures.run`), and it stays true while the others act (`Ensures.shift`), so
it can be carried through any interleaving.

`Routine.Confined` is the other half of the bargain: it bounds the actions that a routine performs,
whatever it is answered, and with them what the routine does to the others.
-/

namespace HeapChurn

/-- What others may do to the pool between two actions of a thread. -/
structure Interference where
  Allows : PoolSlots → PoolSlots → Prop
  refl : ∀ pool, Allows pool pool
  trans : ∀ {p q r}, Allows p q → Allows q r → Allows p r

namespace Interference

/-- Nobody else acts. -/
def nobody : Interference := ⟨Eq, fun _ => rfl, Eq.trans⟩

/-- The others leave alone what can be seen of some slots. -/
def sparing {γ : Type} (seen : PoolSlots → Nat → γ) (slots : List Nat) : Interference where
  Allows p q := ∀ s ∈ slots, seen q s = seen p s
  refl _ _ _ := rfl
  trans hpq hqr s hs := (hqr s hs).trans (hpq s hs)

end Interference

namespace Routine

variable {α β : Type} {a : Allocator} {others : Interference}

/-! ## What a routine ensures -/

/-- Every run of the routine from `v`, whatever the others do in between, ends in `Q`. -/
def Ensures (a : Allocator) (others : Interference) :
    Routine α → View → (α → View → Prop) → Prop
  | done result, v, Q => ∀ pool, others.Allows v.pool pool → Q result ⟨pool, v.journal⟩
  | act action next, v, Q => ∀ pool, others.Allows v.pool pool →
      (next (action.perform a ⟨pool, v.journal⟩).1).Ensures a others
        (action.perform a ⟨pool, v.journal⟩).2 Q

theorem ensures_pure {x : α} {v : View} {Q : α → View → Prop}
    (h : ∀ pool, others.Allows v.pool pool → Q x ⟨pool, v.journal⟩) :
    (pure x : Routine α).Ensures a others v Q := h

theorem ensures_perform {action : Action} {v : View} {Q : action.Answer → View → Prop}
    (h : ∀ pool, others.Allows v.pool pool → ∀ pool',
      others.Allows (action.perform a ⟨pool, v.journal⟩).2.pool pool' →
      Q (action.perform a ⟨pool, v.journal⟩).1
        ⟨pool', (action.perform a ⟨pool, v.journal⟩).2.journal⟩) :
    (perform action).Ensures a others v Q := h

theorem Ensures.mono {r : Routine α} {P Q : α → View → Prop} (himp : ∀ x w, P x w → Q x w) :
    ∀ {v : View}, r.Ensures a others v P → r.Ensures a others v Q := by
  induction r with
  | done x => exact fun h pool hpool => himp _ _ (h pool hpool)
  | act action next ih => exact fun h pool hpool => ih _ (h pool hpool)

/-- Two contracts of one routine are one. -/
theorem Ensures.and {r : Routine α} {P Q : α → View → Prop} : ∀ {v : View},
    r.Ensures a others v P → r.Ensures a others v Q →
      r.Ensures a others v fun x w => P x w ∧ Q x w := by
  induction r with
  | done x => exact fun hP hQ pool hpool => ⟨hP pool hpool, hQ pool hpool⟩
  | act action next ih => exact fun hP hQ pool hpool => ih _ (hP pool hpool) (hQ pool hpool)

/-- Contracts are chained at the point where the first routine is done. -/
theorem Ensures.bind {r : Routine α} {next : α → Routine β} {P : α → View → Prop}
    {Q : β → View → Prop} (hnext : ∀ x w, P x w → (next x).Ensures a others w Q) :
    ∀ {v : View}, r.Ensures a others v P → (r >>= next).Ensures a others v Q := by
  induction r with
  | done x => exact fun h => hnext x _ (h _ (others.refl _))
  | act action rest ih => exact fun h pool hpool => ih _ (h pool hpool)

theorem Ensures.map {r : Routine α} (f : α → β) {Q : β → View → Prop} : ∀ {v : View},
    r.Ensures a others v (fun x w => Q (f x) w) → (f <$> r).Ensures a others v Q := by
  induction r with
  | done x => exact id
  | act action rest ih => exact fun h pool hpool => ih _ (h pool hpool)

/-- What the others do before a routine starts does not break its contract. -/
theorem Ensures.shift {r : Routine α} {j : Journal} {p q : PoolSlots} {Q : α → View → Prop}
    (h : r.Ensures a others ⟨p, j⟩ Q) (hpq : others.Allows p q) :
    r.Ensures a others ⟨q, j⟩ Q := by
  cases r with
  | done x => exact fun pool hpool => h pool (others.trans hpq hpool)
  | act action next => exact fun pool hpool => h pool (others.trans hpq hpool)

/-- One action takes a contract to the contract of what is left. -/
theorem Ensures.step {r : Routine α} {v : View} {Q : α → View → Prop}
    (h : r.Ensures a others v Q) :
    (r.step a v).1.Ensures a others (r.step a v).2 Q := by
  cases r with
  | done x => exact h
  | act action next => exact h v.pool (others.refl _)

/-- A run with nobody in between keeps the contract, and so does whatever the others do later. -/
theorem Ensures.run {Q : α → View → Prop} : ∀ {r : Routine α} {v : View},
    r.Ensures a others v Q → ∀ {pool}, others.Allows (r.run a v).2.pool pool →
      Q (r.run a v).1 ⟨pool, (r.run a v).2.journal⟩
  | done _, _, h, pool, hpool => h pool hpool
  | act action next, v, h, _, hpool => by
      have hrest := h v.pool (others.refl _)
      exact Ensures.run hrest hpool

/-- A run with nobody in between, to its very end. -/
theorem Ensures.run_self {Q : α → View → Prop} {r : Routine α} {v : View}
    (h : r.Ensures a others v Q) : Q (r.run a v).1 (r.run a v).2 :=
  h.run (others.refl _)

/-! ## What a routine does to others -/

/-- All actions of the routine are of one kind, and its result is of another, as long as the answers
are sane. -/
def Confined (ok : Action → Prop) (sane : (x : Action) → x.Answer → Prop) (P : α → Prop) :
    Routine α → Prop
  | done result => P result
  | act action next =>
    ok action ∧ ∀ answer, sane action answer → (next answer).Confined ok sane P

section Confined

variable {ok : Action → Prop} {sane : (x : Action) → x.Answer → Prop} {P : α → Prop}

theorem Confined.bind {r : Routine α} {next : α → Routine β} {Q : β → Prop}
    (hnext : ∀ x, P x → (next x).Confined ok sane Q) :
    r.Confined ok sane P → (r >>= next).Confined ok sane Q := by
  induction r with
  | done x => exact hnext x
  | act action rest ih => exact fun h => ⟨h.1, fun answer hanswer => ih answer (h.2 answer hanswer)⟩

theorem Confined.mono {Q : α → Prop} (himp : ∀ x, P x → Q x) {r : Routine α} :
    r.Confined ok sane P → r.Confined ok sane Q := by
  induction r with
  | done x => exact himp x
  | act action next ih => exact fun h => ⟨h.1, fun answer hanswer => ih answer (h.2 answer hanswer)⟩

theorem confined_perform (action : Action) (h : ok action) :
    (perform action).Confined ok sane fun answer => sane action answer :=
  ⟨h, fun _ hanswer => hanswer⟩

/-- Where no answer is ruled out, the result is of its kind whoever answers. -/
theorem Confined.run_result {r : Routine α} (h : r.Confined ok (fun _ _ => True) P) (v : View) :
    P (r.run a v).1 := by
  induction r generalizing v with
  | done x => exact h
  | act action next ih => exact ih _ (h.2 _ trivial) _

/-- Where no answer is ruled out, whatever is answered keeps a routine confined. -/
theorem Confined.step {r : Routine α} (h : r.Confined ok (fun _ _ => True) P) (v : View) :
    (r.step a v).1.Confined ok (fun _ _ => True) P := by
  cases r with
  | done x => exact h
  | act action next => exact h.2 _ trivial

end Confined

end Routine

/-! ## The thread of a journal -/

@[simp] theorem Action.perform_thread (a : Allocator) (x : Action) (v : View) :
    (x.perform a v).2.journal.thread = v.journal.thread := by
  cases x with
  | request layout =>
      simp only [Action.perform]
      split <;> rfl
  | reserve slots => rfl
  | release block => rfl
  | take slot => rfl
  | store block => rfl
  | note notice => rfl
  | count growth => rfl

namespace Routine

variable {α : Type} {a : Allocator}

@[simp] theorem step_thread (r : Routine α) (v : View) :
    (r.step a v).2.journal.thread = v.journal.thread := by
  cases r with
  | done x => rfl
  | act action next => exact action.perform_thread a v

section Confined

variable {ok : Action → Prop} {P : α → Prop} {others : Interference} {thread : Thread}

/-- Actions that the others tolerate add up to a step, and to a run, that they tolerate. -/
theorem Confined.step_allowed
    (hok : ∀ x, ok x → ∀ v : View, v.journal.thread = thread →
      others.Allows v.pool (x.perform a v).2.pool)
    {r : Routine α} (h : r.Confined ok (fun _ _ => True) P) {v : View}
    (hv : v.journal.thread = thread) : others.Allows v.pool (r.step a v).2.pool := by
  cases r with
  | done x => exact others.refl _
  | act action next => exact hok action h.1 v hv

theorem Confined.run_allowed
    (hok : ∀ x, ok x → ∀ v : View, v.journal.thread = thread →
      others.Allows v.pool (x.perform a v).2.pool) :
    ∀ {r : Routine α}, r.Confined ok (fun _ _ => True) P → ∀ {v : View},
      v.journal.thread = thread → others.Allows v.pool (r.run a v).2.pool
  | done _, _, _, _ => others.refl _
  | act action _, h, v, hv =>
      others.trans (hok action h.1 v hv)
        (Confined.run_allowed hok (h.2 _ trivial) ((action.perform_thread a v).trans hv))

/-- If the others and the thread itself keep the pool in a shape in which all answers are sane, the
result of a confined routine is as it says. -/
theorem Confined.ensures {sane : (x : Action) → x.Answer → Prop} {shape : PoolSlots → Prop}
    (hothers : ∀ p q, others.Allows p q → shape p → shape q)
    (hok : ∀ x, ok x → ∀ v : View, v.journal.thread = thread → shape v.pool →
      sane x (x.perform a v).1 ∧ shape (x.perform a v).2.pool) :
    ∀ {r : Routine α}, r.Confined ok sane P → ∀ {v : View}, v.journal.thread = thread →
      shape v.pool → r.Ensures a others v fun x w => P x ∧ shape w.pool
  | done _, h, v, _, hshape => fun pool hpool => ⟨h, hothers _ _ hpool hshape⟩
  | act action next, h, v, hv, hshape => fun pool hpool => by
      obtain ⟨hsane, hshape'⟩ := hok action h.1 ⟨pool, v.journal⟩ hv (hothers _ _ hpool hshape)
      exact Confined.ensures hothers hok (h.2 _ hsane) ((action.perform_thread a _).trans hv)
        hshape'

end Confined

end Routine

end HeapChurn
