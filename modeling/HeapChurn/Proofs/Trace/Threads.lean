import HeapChurn.Proofs.Trace.Custody
import HeapChurn.Proofs.Trace.Outstanding
import Mathlib.Algebra.BigOperators.Group.Finset.Piecewise
import Mathlib.Data.List.Perm.Basic

/-!
# A trace, thread by thread

Every block belongs to the thread that asked for it, so a trace falls apart into the events about the
blocks of each thread (`Trace.own`). Counts over a trace are sums of counts over these parts, and so
is what is outstanding at any point of it (`outstanding_eq_sum`). A trace that weaves several threads
has the events of all of them and no others, so it counts what they count (`Woven.perm`).
-/

namespace HeapChurn

def Event.isGrant : Event → Bool
  | .granted _ => true
  | _ => false

def Event.isReturn : Event → Bool
  | .released _ => true
  | _ => false

namespace Trace

/-- Blocks that were obtained. -/
def grants (events : List Event) : Nat := events.countP Event.isGrant

/-- Blocks that were handed back. -/
def returns (events : List Event) : Nat := events.countP Event.isReturn

/-- The events about the blocks of a thread. -/
def own (thread : Thread) (events : List Event) : List Event :=
  events.filter (·.block.id.thread = thread)

variable {thread : Thread} {s t : List Event}

@[simp] theorem grants_append (s t : List Event) : grants (s ++ t) = grants s + grants t :=
  List.countP_append

@[simp] theorem returns_append (s t : List Event) : returns (s ++ t) = returns s + returns t :=
  List.countP_append

@[simp] theorem grants_released (blocks : List Block) : grants (blocks.map .released) = 0 := by
  induction blocks with
  | nil => rfl
  | cons b rest ih => exact ih

@[simp] theorem returns_released (blocks : List Block) :
    returns (blocks.map .released) = blocks.length := by
  induction blocks with
  | nil => rfl
  | cons b rest ih =>
      rw [List.map_cons, returns, List.countP_cons_of_pos rfl]
      exact congrArg (· + 1) ih

theorem outstanding_eq : ∀ t : List Event, outstanding t = grants t - returns t
  | [] => rfl
  | .granted b :: t => by
      have := outstanding_eq t
      simp only [outstanding, grants, returns, List.countP_cons, Event.isGrant, Event.isReturn]
        at this ⊢
      simp only [if_true, Bool.false_eq_true, if_false]
      omega
  | .refused b :: t => by
      have := outstanding_eq t
      simp only [outstanding, grants, returns, List.countP_cons, Event.isGrant, Event.isReturn]
        at this ⊢
      simp only [Bool.false_eq_true, if_false]
      omega
  | .released b :: t => by
      have := outstanding_eq t
      simp only [outstanding, grants, returns, List.countP_cons, Event.isGrant, Event.isReturn]
        at this ⊢
      simp only [if_true, Bool.false_eq_true, if_false]
      omega

theorem grants_le_of_prefix (h : s <+: t) : grants s ≤ grants t :=
  h.sublist.countP_le

/-! ## The events of one thread -/

@[simp] theorem own_append (thread : Thread) (s t : List Event) :
    own thread (s ++ t) = own thread s ++ own thread t :=
  List.filter_append ..

theorem own_eq_self (h : ∀ e ∈ t, e.block.id.thread = thread) : own thread t = t :=
  List.filter_eq_self.mpr fun e he => by simpa using h e he

theorem own_eq_nil (h : ∀ e ∈ t, e.block.id.thread ≠ thread) : own thread t = [] :=
  List.filter_eq_nil_iff.mpr fun e he => by simpa using h e he

theorem mem_own {e : Event} : e ∈ own thread t ↔ e ∈ t ∧ e.block.id.thread = thread := by
  simp [own]

/-- At each point of a trace the thread stands at some point of its own. -/
theorem own_take (thread : Thread) (t : List Event) (n : Nat) :
    ∃ m, own thread (t.take n) = (own thread t).take m :=
  ⟨_, List.prefix_iff_eq_take.mp ((List.take_prefix n t).filter _)⟩

theorem AtMost.own_take {bound : Int} (h : AtMost bound (own thread t)) (n : Nat) :
    outstanding (own thread (t.take n)) ≤ bound := by
  obtain ⟨m, hm⟩ := Trace.own_take thread t n
  rw [hm]
  exact h m

theorem outstanding_own_cons (thread : Thread) (e : Event) (t : List Event) :
    outstanding (own thread (e :: t))
      = (if e.block.id.thread = thread then outstanding [e] else 0)
        + outstanding (own thread t) := by
  by_cases h : e.block.id.thread = thread
  · rw [if_pos h, ← outstanding_append, own, List.filter_cons_of_pos (by simpa using h)]
    rfl
  · rw [if_neg h, Int.zero_add, own, List.filter_cons_of_neg (by simpa using h)]
    rfl

/-- What is outstanding is outstanding of the main thread or of one of the workers. -/
theorem outstanding_eq_sum {workers : Nat} : ∀ {t : List Event},
    (∀ e ∈ t, e.block.id.thread = .main ∨ ∃ k < workers, e.block.id.thread = .worker k) →
    outstanding t = outstanding (own .main t)
      + ∑ k ∈ Finset.range workers, outstanding (own (.worker k) t)
  | [], _ => by simp [own, outstanding]
  | e :: t, h => by
      have ih := outstanding_eq_sum fun e' he => h e' (List.mem_cons_of_mem e he)
      have hcons : outstanding (e :: t) = outstanding [e] + outstanding t :=
        outstanding_append [e] t
      -- the first event counts for one thread, so in the sum for one term at most
      simp only [outstanding_own_cons, Finset.sum_add_distrib]
      rcases h e List.mem_cons_self with hmain | ⟨k, hk, hworker⟩
      · have hnone : ∀ k, ¬e.block.id.thread = .worker k := fun k heq => by
          rw [hmain] at heq
          cases heq
        simp only [if_pos hmain, hnone, if_false, Finset.sum_const_zero]
        omega
      · simp only [hworker, reduceCtorEq, Thread.worker.injEq, Finset.sum_ite_eq,
          Finset.mem_range, hk, if_true, if_false]
        omega

/-! ## Several threads -/

theorem perm_flatten_set {α : Type} {x : α} {l : List α} : ∀ {ls : List (List α)} {i : Nat},
    ls[i]? = some (x :: l) → ls.flatten.Perm (x :: (ls.set i l).flatten)
  | [], _, h => by cases h
  | m :: ls, 0, h => by
      obtain rfl : m = x :: l := Option.some.inj h
      exact List.Perm.refl _
  | m :: ls, i + 1, h => by
      have ih : ls.flatten.Perm (x :: (ls.set i l).flatten) := perm_flatten_set h
      rw [List.set_cons_succ, List.flatten_cons, List.flatten_cons]
      exact (ih.append_left m).trans List.perm_middle

theorem Woven.perm {α : Type} {ls : List (List α)} {t : List α} (h : Woven ls t) :
    t.Perm ls.flatten := by
  induction h with
  | nil hnil => rw [List.flatten_eq_nil_iff.mpr hnil]
  | cons i hi _ ih => exact (ih.cons _).trans (perm_flatten_set hi).symm

end Trace

end HeapChurn
