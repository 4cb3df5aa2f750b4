import HeapChurn.Proofs.Harness.Course

/-!
# Schedules that go to the end

When a schedule is used up, the workers that are not done yet finish one after the other. The same
run comes about under a schedule that gives them these turns (`exists_turns_to_end`), and under that
one all is done when it is used up. So whatever happens in a run, there is a schedule of the run that
has the moment at which it happens.
-/

namespace HeapChurn

namespace Routine

variable {α : Type} {a : Allocator}

theorem run_step (r : Routine α) (v : View) :
    (r.step a v).1.run a (r.step a v).2 = r.run a v := by
  cases r <;> rfl

end Routine

def Member.Over (m : Member) : Prop := ∃ result, m.routine = .done result

namespace Crew

variable {a : Allocator} {c : Crew} {id : Nat} {m : Member}

/-- The members with a number below `k` are done. -/
def OverBelow (k : Nat) (c : Crew) : Prop := ∀ j < k, ∀ n, c.members[j]? = some n → n.Over

theorem follow_append (before after : List Turn) (c : Crew) :
    c.follow a (before ++ after) = (c.follow a before).follow a after :=
  List.foldl_append

/-- Whether the first member that is not done performs its next action now or when it is its turn
to finish is all the same. -/
theorem finish_set_step : ∀ {members : List Member} {i : Nat} (pool : PoolSlots),
    members[i]? = some m → (∀ j < i, ∀ n, members[j]? = some n → n.Over) →
      finish a (m.routine.step a ⟨pool, m.journal⟩).2.pool
          (members.set i ⟨(m.routine.step a ⟨pool, m.journal⟩).1,
            (m.routine.step a ⟨pool, m.journal⟩).2.journal⟩)
        = finish a pool members
  | [], _, _, hm, _ => by cases hm
  | n :: rest, 0, pool, hm, _ => by
      obtain rfl := Option.some.inj hm
      have hrun := n.routine.run_step (a := a) ⟨pool, n.journal⟩
      generalize n.routine.step a ⟨pool, n.journal⟩ = stepped at hrun
      obtain ⟨r, v⟩ := stepped
      show finish a v.pool (⟨r, v.journal⟩ :: rest) = _
      simp only [finish]
      rw [show (⟨v.pool, v.journal⟩ : View) = v from rfl, hrun]
  | n :: rest, i + 1, pool, hm, hover => by
      -- the members before it are done, so they leave the pool to it as it is
      obtain ⟨result, hdone⟩ := hover 0 (Nat.succ_pos i) n rfl
      have hrest : ∀ j < i, ∀ n, rest[j]? = some n → n.Over := fun j hj =>
        hover (j + 1) (Nat.succ_lt_succ hj)
      have ih := finish_set_step pool (List.getElem?_cons_succ ▸ hm) hrest
      simp only [List.set_cons_succ, finish, hdone, Routine.run, ih]

theorem finish_step (hover : c.OverBelow id) :
    finish a (c.step a id).pool (c.step a id).members.toList
      = finish a c.pool c.members.toList := by
  unfold step
  cases hm : c.members[id]? with
  | none => rfl
  | some m =>
      simp only [Array.toList_setIfInBounds]
      refine finish_set_step c.pool (by rwa [Array.getElem?_toList]) fun j hj n hn =>
        hover j hj n ?_
      rwa [Array.getElem?_toList] at hn

theorem getElem?_step_of_ne {j : Nat} (h : id ≠ j) :
    (c.step a id).members[j]? = c.members[j]? := by
  unfold step
  cases c.members[id]? with
  | none => rfl
  | some m => exact Array.getElem?_setIfInBounds_ne h

theorem getElem?_step_self (hm : c.members[id]? = some m) : (c.step a id).members[id]?
    = some ⟨(m.routine.step a ⟨c.pool, m.journal⟩).1,
      (m.routine.step a ⟨c.pool, m.journal⟩).2.journal⟩ := by
  have hlt : id < c.members.size := (Array.getElem?_eq_some_iff.mp hm).1
  unfold step
  rw [hm]
  simp only [Array.getElem?_setIfInBounds_self, hlt, if_true]

theorem OverBelow.step (hover : c.OverBelow id) : (c.step a id).OverBelow id := by
  intro j hj n hn
  rw [getElem?_step_of_ne (by omega)] at hn
  exact hover j hj n hn

/-- A member is done after so many turns in a row. -/
theorem exists_turns_of_member (r : Routine (Option (Except Error WorkerReport))) :
    ∀ {c : Crew} {m : Member}, c.members[id]? = some m → m.routine = r → c.OverBelow id →
      ∃ count, let c' := c.follow a (List.replicate count (.act id))
        c'.OverBelow (id + 1)
          ∧ finish a c'.pool c'.members.toList = finish a c.pool c.members.toList := by
  -- on what is left of the routine: each turn performs the action at its head
  induction r with
  | done result =>
      intro c m hm hr hover
      refine ⟨0, fun j hj n hn => ?_, rfl⟩
      rcases Nat.lt_succ_iff_lt_or_eq.mp hj with hj | rfl
      · exact hover j hj n hn
      · obtain rfl := Option.some.inj (hm.symm.trans hn)
        exact ⟨result, hr⟩
  | act action next ih =>
      intro c m hm hr hover
      have hstep := getElem?_step_self (a := a) hm
      obtain ⟨count, hover', hfinish⟩ := ih _ hstep (by rw [hr]; rfl) hover.step
      exact ⟨count + 1, hover', hfinish.trans (finish_step hover)⟩

/-- One after the other the members are done. -/
theorem exists_turns (a : Allocator) (c : Crew) : ∀ k ≤ c.members.size, ∃ ids : List Nat,
    let c' := c.follow a (ids.map .act)
    c'.OverBelow k ∧ finish a c'.pool c'.members.toList = finish a c.pool c.members.toList
  | 0, _ => ⟨[], nofun, rfl⟩
  | k + 1, hk => by
      obtain ⟨ids, hover, hfinish⟩ := exists_turns a c k (by omega)
      have hlt : k < (c.follow a (ids.map .act)).members.size := by
        rw [size_members_follow]
        omega
      obtain ⟨count, hover', hfinish'⟩ :=
        exists_turns_of_member (a := a) _ (Array.getElem?_eq_getElem hlt) rfl hover
      refine ⟨ids ++ List.replicate count k, ?_⟩
      rw [List.map_append, List.map_replicate, follow_append]
      exact ⟨hover', hfinish'.trans hfinish⟩

end Crew

namespace Harness

/-- A schedule can be continued, without a change to the run, until all workers are done. -/
theorem exists_turns_to_end (a : Allocator) (config : Config) (h : Histogram)
    (schedule : List Turn) : ∃ ids : List Nat,
      run a config h (schedule ++ ids.map .act) = run a config h schedule
        ∧ ∀ plan, ((prepare config h).run a start).1 = .ok plan →
          ∀ m ∈ ((plan.crew a h (populated a config h)).follow a (schedule ++ ids.map .act)).members,
            m.Over := by
  cases hprepare : ((prepare config h).run a start).1 with
  | error e =>
      refine ⟨[], ?_, nofun⟩
      rw [run_eq_of_error hprepare, run_eq_of_error hprepare]
  | ok plan =>
      let c := (plan.crew a h (populated a config h)).follow a schedule
      obtain ⟨ids, hover, hfinish⟩ := Crew.exists_turns a c c.members.size (Nat.le_refl _)
      refine ⟨ids, ?_, ?_⟩
      · have houtcome : (plan.crew a h (populated a config h)).outcome a (schedule ++ ids.map .act)
            = (plan.crew a h (populated a config h)).outcome a schedule := by
          rw [Crew.outcome, Crew.follow_append]
          exact hfinish
        rw [run_eq_of_ok hprepare, run_eq_of_ok hprepare]
        simp only [houtcome]
      · rintro _ ⟨⟩ m hm
        rw [Crew.follow_append] at hm
        obtain ⟨j, hj, rfl⟩ := Array.mem_iff_getElem.mp hm
        have hlt : j < c.members.size := by
          rwa [Crew.size_members_follow] at hj
        exact hover j hlt _ (Array.getElem?_eq_getElem hj)

end Harness

end HeapChurn
