import HeapChurn.Block

/-!
# Outstanding blocks

How many blocks of a trace were obtained and not yet handed back, and the most that were outstanding
at any point of it. A trace that goes on from another is bounded when every prefix of what is added
is bounded on top of what was outstanding before (`AtMost.append`).
-/

namespace HeapChurn

namespace Trace

/-- Blocks obtained less blocks handed back. -/
def outstanding : List Event → Int
  | [] => 0
  | .granted _ :: rest => outstanding rest + 1
  | .refused _ :: rest => outstanding rest
  | .released _ :: rest => outstanding rest - 1

theorem outstanding_append : ∀ (s t : List Event),
    outstanding (s ++ t) = outstanding s + outstanding t
  | [], t => (Int.zero_add _).symm
  | .granted _ :: s, t => by
      have := outstanding_append s t
      simp only [List.cons_append, outstanding]
      omega
  | .refused _ :: s, t => by
      have := outstanding_append s t
      simp only [List.cons_append, outstanding]
      omega
  | .released _ :: s, t => by
      have := outstanding_append s t
      simp only [List.cons_append, outstanding]
      omega

theorem outstanding_released : ∀ blocks : List Block,
    outstanding (blocks.map .released) = -blocks.length
  | [] => rfl
  | _ :: rest => by
      have := outstanding_released rest
      simp only [List.map_cons, outstanding, List.length_cons]
      omega

/-- At every point of the trace at most `bound` blocks are outstanding. -/
def AtMost (bound : Int) (events : List Event) : Prop :=
  ∀ n, outstanding (events.take n) ≤ bound

variable {bound : Int} {s t : List Event}

theorem atMost_nil (h : 0 ≤ bound) : AtMost bound [] := by
  intro n
  rw [List.take_nil]
  exact h

theorem AtMost.append (hs : AtMost bound s)
    (ht : ∀ n, outstanding s + outstanding (t.take n) ≤ bound) : AtMost bound (s ++ t) := by
  intro n
  rw [List.take_append, outstanding_append]
  rcases Nat.le_total n s.length with h | h
  · rw [Nat.sub_eq_zero_of_le h, List.take_zero]
    have := hs n
    simpa [outstanding] using this
  · rw [List.take_of_length_le h]
    exact ht _

/-- Blocks that are handed back never raise what is outstanding. -/
theorem AtMost.append_released (hs : AtMost bound s) (blocks : List Block) :
    AtMost bound (s ++ blocks.map .released) := by
  refine hs.append fun n => ?_
  have hall : outstanding s ≤ bound := by
    have := hs s.length
    rwa [List.take_length] at this
  rw [← List.map_take, outstanding_released]
  omega

theorem AtMost.append_granted (hs : AtMost bound s) (h : outstanding s + 1 ≤ bound) (b : Block) :
    AtMost bound (s ++ [.granted b]) := by
  refine hs.append fun n => ?_
  cases n with
  | zero =>
      simp only [List.take_zero, outstanding]
      omega
  | succ n =>
      simp only [List.take_succ_cons, List.take_nil, outstanding]
      omega

theorem AtMost.append_refused (hs : AtMost bound s) (b : Block) :
    AtMost bound (s ++ [.refused b]) := by
  refine hs.append fun n => ?_
  have hall : outstanding s ≤ bound := by
    have := hs s.length
    rwa [List.take_length] at this
  cases n with
  | zero =>
      simp only [List.take_zero, outstanding]
      omega
  | succ n =>
      simp only [List.take_succ_cons, List.take_nil, outstanding]
      omega

end Trace

end HeapChurn
