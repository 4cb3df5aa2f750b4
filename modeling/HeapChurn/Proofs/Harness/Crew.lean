import HeapChurn.Harness
import HeapChurn.Proofs.Inbox.Partition
import HeapChurn.Proofs.Routine.Action
import HeapChurn.Proofs.Worker.Confinement

/-!
# Threads that tolerate each other

How contracts of single threads become facts about all interleavings. A crew is `Sound` when each of
its members keeps its contract under the interference that it reckons with, and performs only actions
that the others reckon with. One action of one member keeps the crew sound (`Sound.step`), so every
schedule does (`Sound.follow`), and when all members have finished every contract holds of the pool
that is left (`Sound.finished`).

The workers of a plan are such a crew, since each touches its own share of the pool and the shares
are disjoint. `Tolerated` is that bargain, and it is struck for three kinds of interference: tags may
be overwritten, nothing of a share may change, the tags stay right.
-/

namespace HeapChurn

/-- The actions of one thread are among those that the others reckon with. -/
def Tolerated (a : Allocator) (others : Nat → Interference) (ok : Nat → Action → Prop) : Prop :=
  ∀ id k, id ≠ k → ∀ x, ok id x → ∀ v : View, v.journal.thread = .worker id →
    (others k).Allows v.pool (x.perform a v).2.pool

/-- All threads reckon with what the schedule writes over. -/
def Weathered (others : Nat → Interference) (schedule : List Turn) : Prop :=
  ∀ o, .overwrite o ∈ schedule → ∀ id pool, (others id).Allows pool (pool.overwrite o)

namespace Crew

variable {a : Allocator} {others : Nat → Interference} {ok : Nat → Action → Prop}
  {goal : Nat → Option (Except Error WorkerReport) → View → Prop}

/-- What a member brings along: its name, its contract and its limits. -/
structure Fit (a : Allocator) (others : Nat → Interference) (ok : Nat → Action → Prop)
    (goal : Nat → Option (Except Error WorkerReport) → View → Prop) (pool : PoolSlots) (id : Nat)
    (m : Member) : Prop where
  thread : m.journal.thread = .worker id
  confined : m.routine.Confined (ok id) (fun _ _ => True) fun _ => True
  ensures : m.routine.Ensures a (others id) ⟨pool, m.journal⟩ (goal id)

theorem Fit.shift {pool pool' : PoolSlots} {id : Nat} {m : Member}
    (hm : Fit a others ok goal pool id m) (hpool : (others id).Allows pool pool') :
    Fit a others ok goal pool' id m :=
  ⟨hm.thread, hm.confined, hm.ensures.shift hpool⟩

def Sound (a : Allocator) (others : Nat → Interference) (ok : Nat → Action → Prop)
    (goal : Nat → Option (Except Error WorkerReport) → View → Prop) (c : Crew) : Prop :=
  ∀ id m, c.members[id]? = some m → Fit a others ok goal c.pool id m

/-- One action of one member keeps every contract: its own, since it was made for any answer, and
those of the others, since they reckon with it. -/
theorem Sound.step (htolerated : Tolerated a others ok) {c : Crew}
    (hc : Sound a others ok goal c) (id : Nat) : Sound a others ok goal (c.step a id) := by
  unfold Crew.step
  cases hm : c.members[id]? with
  | none => exact hc
  | some m =>
      have hfit := hc id m hm
      intro k n hn
      by_cases hk : id = k
      · subst hk
        have hlt : id < c.members.size := (Array.getElem?_eq_some_iff.mp hm).1
        simp only [Array.getElem?_setIfInBounds_self, hlt, if_true, Option.some.injEq] at hn
        subst hn
        exact ⟨(Routine.step_thread _ _).trans hfit.thread, hfit.confined.step _,
          hfit.ensures.step⟩
      · simp only [ne_eq, hk, not_false_eq_true, Array.getElem?_setIfInBounds_ne] at hn
        refine (hc k n hn).shift ?_
        exact hfit.confined.step_allowed (v := ⟨c.pool, m.journal⟩) (htolerated id k hk) hfit.thread

theorem Sound.follow (htolerated : Tolerated a others ok) : ∀ {schedule : List Turn},
    Weathered others schedule → ∀ {c : Crew}, Sound a others ok goal c →
      Sound a others ok goal (c.follow a schedule)
  | [], _, _, hc => hc
  | .act id :: _, hschedule, _, hc =>
      Sound.follow htolerated (fun o ho => hschedule o (List.mem_cons_of_mem _ ho))
        (hc.step htolerated id)
  | .overwrite o :: _, hschedule, _, hc =>
      Sound.follow htolerated (fun o ho => hschedule o (List.mem_cons_of_mem _ ho))
        fun id m hm => (hc id m hm).shift (hschedule o List.mem_cons_self id _)

/-- Members that finish one after the other, numbered from `k` on. Whoever is not among them sees
nothing that it does not reckon with. -/
theorem finish_fit (htolerated : Tolerated a others ok) : ∀ (members : List Member) (k : Nat)
    (pool : PoolSlots), (∀ i m, members[i]? = some m → Fit a others ok goal pool (k + i) m) →
      (∀ id, (∀ i, i < members.length → k + i ≠ id) →
        (others id).Allows pool (finish a pool members).1)
      ∧ ∀ i f, (finish a pool members).2[i]? = some f →
        goal (k + i) f.result ⟨(finish a pool members).1, f.journal⟩
  | [], _, pool, _ => by
      refine ⟨fun id _ => (others id).refl pool, fun i f hf => ?_⟩
      have hnone : (finish a pool []).2[i]? = none := List.getElem?_nil
      rw [hnone] at hf
      cases hf
  | m :: rest, k, pool, hfit => by
      have hm : Fit a others ok goal pool k m := hfit 0 m rfl
      have hfirst : ∀ id, k ≠ id →
          (others id).Allows pool (m.routine.run a ⟨pool, m.journal⟩).2.pool := fun id hid =>
        hm.confined.run_allowed (v := ⟨pool, m.journal⟩) (htolerated k id hid) hm.thread
      obtain ⟨hframe, hgoal⟩ := finish_fit htolerated rest (k + 1)
        (m.routine.run a ⟨pool, m.journal⟩).2.pool fun i n hn => by
          have hn' := hfit (i + 1) n hn
          rw [show k + 1 + i = k + (i + 1) by omega]
          exact hn'.shift (hfirst _ (by omega))
      refine ⟨fun id hid => ?_, fun i f hf => ?_⟩
      · refine (others id).trans (hfirst id (hid 0 (by simp))) (hframe id fun i hi => ?_)
        have := hid (i + 1) (by simpa using hi)
        omega
      · cases i with
        | zero =>
            obtain rfl := Option.some.inj hf
            exact hm.ensures.run (hframe k fun i _ => by omega)
        | succ i =>
            have hrest := hgoal i f hf
            rw [show k + 1 + i = k + (i + 1) by omega] at hrest
            exact hrest

@[simp] theorem size_members_step (c : Crew) (id : Nat) :
    (c.step a id).members.size = c.members.size := by
  unfold step
  cases c.members[id]? <;> simp

theorem size_members_follow : ∀ (schedule : List Turn) (c : Crew),
    (c.follow a schedule).members.size = c.members.size
  | [], _ => rfl
  | .act id :: schedule, c =>
      (size_members_follow schedule (c.step a id)).trans (size_members_step c id)
  | .overwrite o :: schedule, c =>
      size_members_follow schedule { c with pool := c.pool.overwrite o }

/-- All workers have finished: the pool and what became of each. -/
def outcome (a : Allocator) (schedule : List Turn) (c : Crew) : PoolSlots × List Finished :=
  finish a (c.follow a schedule).pool (c.follow a schedule).members.toList

theorem length_finish : ∀ (members : List Member) (pool : PoolSlots),
    (finish a pool members).2.length = members.length
  | [], _ => rfl
  | _ :: rest, _ => congrArg (· + 1) (length_finish rest _)

theorem length_outcome (schedule : List Turn) (c : Crew) :
    (c.outcome a schedule).2.length = c.members.size := by
  rw [outcome, length_finish, Array.length_toList, size_members_follow]

/-- However the members are interleaved, in the end each contract holds. -/
theorem Sound.finished (htolerated : Tolerated a others ok) {schedule : List Turn}
    (hschedule : Weathered others schedule) {c : Crew}
    (hc : Sound a others ok goal c) {id : Nat} {f : Finished}
    (hf : (c.outcome a schedule).2[id]? = some f) :
    goal id f.result ⟨(c.outcome a schedule).1, f.journal⟩ := by
  have hfollow := hc.follow htolerated hschedule
  have hfit : ∀ i m, (c.follow a schedule).members.toList[i]? = some m →
      Fit a others ok goal (c.follow a schedule).pool (0 + i) m := fun i m hm => by
    rw [Nat.zero_add]
    exact hfollow i m (by simpa using hm)
  have hgoal := (finish_fit htolerated _ 0 _ hfit).2 id f hf
  rwa [Nat.zero_add] at hgoal

end Crew

/-! ## Workers of a plan -/

section Plan

variable {a : Allocator} {p : Plan}

theorem tolerated_retagging : Tolerated a (fun id => .retagging (p.share id))
    fun id => Action.Within (p.share id) := by
  intro id k hne x hx v _ s hs
  rcases hx.pool_eq a v with ⟨calls, h⟩ | h | ⟨t, ht, h⟩
  · rw [h, PoolSlots.blockAt_overwriteAll]
  · rw [h]
  · rw [h]
    exact v.pool.blockAt_emptied_of_ne fun heq => hne (Plan.share_disjoint (heq ▸ ht) hs)

theorem weathered_retagging (schedule : List Turn) :
    Weathered (fun id => .retagging (p.share id)) schedule :=
  fun o _ _ pool s _ => pool.blockAt_overwrite o s

/-- Where only workers take turns there is nothing to reckon with. -/
theorem weathered_of_acts {others : Nat → Interference} {schedule : List Turn}
    (h : ∀ o, .overwrite o ∉ schedule) : Weathered others schedule :=
  fun o ho => absurd ho (h o)

/-- Nothing of the slots changes at all. -/
def Interference.leaving (slots : List Nat) : Interference :=
  .sparing (fun pool s => pool[s]?) slots

theorem tolerated_leaving (hquiet : ∀ id n, a.overwrites (.worker id) n = []) :
    Tolerated a (fun id => .leaving (p.share id)) fun id => Action.Within (p.share id) := by
  intro id k hne x hx v hv s hs
  rcases hx.pool_eq a v with ⟨calls, h⟩ | h | ⟨t, ht, h⟩
  · rw [h, hv, hquiet]
    rfl
  · rw [h]
  · rw [h]
    exact Array.getElem?_setIfInBounds_ne fun heq => hne (Plan.share_disjoint (heq ▸ ht) hs)

/-- The others keep the tags right. -/
def Interference.honest : Interference where
  Allows p q := p.Honest → q.Honest
  refl _ h := h
  trans hpq hqr h := hqr (hpq h)

theorem Action.Within.honest {share : List Nat} {x : Action} (hx : x.Within share)
    {id : Nat} (hquiet : ∀ n, a.overwrites (.worker id) n = []) {v : View}
    (hv : v.journal.thread = .worker id) (h : v.pool.Honest) :
    (x.perform a v).2.pool.Honest := by
  rcases hx.pool_eq a v with ⟨calls, heq⟩ | heq | ⟨t, _, heq⟩
  · rw [heq, hv, hquiet]
    exact h
  · rw [heq]
    exact h
  · rw [heq]
    exact h.emptied t

theorem tolerated_honest (hquiet : ∀ id n, a.overwrites (.worker id) n = []) :
    Tolerated a (fun _ => .honest) fun id => Action.Within (p.share id) :=
  fun id _ _ _ hx _ hv h => hx.honest (hquiet id) hv h

/-- The inbox with which worker `id` starts. -/
def Plan.inboxOf (p : Plan) (id : Nat) : Option Inbox :=
  (if p.foreignTotal = 0 then #[] else p.inboxes.toArray)[id]?

theorem Plan.ahead_inboxOf {id : Nat} (hid : id < p.workers) :
    (p.inboxOf id).elim [] Inbox.ahead = p.share id := by
  unfold inboxOf
  by_cases htotal : p.foreignTotal = 0
  · simp [htotal, share]
  · rw [if_neg htotal, List.getElem?_toArray, getElem?_inboxes hid]
    rfl

theorem Plan.size_members (p : Plan) (a : Allocator) (h : Histogram) (pool : PoolSlots) :
    (p.crew a h pool).members.size = p.workers := by
  simp [crew]

theorem Plan.getElem?_members {h : Histogram} {pool : PoolSlots} {id : Nat} {m : Member}
    (hm : (p.crew a h pool).members[id]? = some m) : id < p.workers
      ∧ m = ⟨Worker.spawn a id p h (p.inboxOf id), { thread := .worker id }⟩ := by
  rw [Array.getElem?_eq_some_iff] at hm
  obtain ⟨hlt, rfl⟩ := hm
  rw [size_members] at hlt
  exact ⟨hlt, by simp [crew, inboxOf]⟩

theorem Plan.confined_spawn {id : Nat} (hid : id < p.workers) (h : Histogram) :
    (Worker.spawn a id p h (p.inboxOf id)).Confined (Action.Within (p.share id))
      (fun _ _ => True) fun _ => True := by
  unfold Worker.spawn
  split
  · refine (Worker.confined_thread id p h fun s hs => ?_).bind fun _ _ => trivial
    rwa [ahead_inboxOf hid] at hs
  · trivial

/-- The workers of a plan at their start, as a crew, if their threads keep their contracts. -/
theorem Plan.sound_crew {h : Histogram} {pool : PoolSlots} {others : Nat → Interference}
    {goal : Nat → Option (Except Error WorkerReport) → View → Prop}
    (hspawn : ∀ id, id < p.workers → (Worker.spawn a id p h (p.inboxOf id)).Ensures a (others id)
      ⟨pool, { thread := .worker id }⟩ (goal id)) :
    (p.crew a h pool).Sound a others (fun id => Action.Within (p.share id)) goal := by
  intro id m hm
  obtain ⟨hid, rfl⟩ := getElem?_members hm
  exact ⟨rfl, confined_spawn hid h, hspawn id hid⟩

/-- What is left of a worker that found this pool: what its thread leaves, if that was started, and
otherwise nothing. -/
def Leaves (a : Allocator) (others : Nat → Interference) (pool : PoolSlots)
    (goal : Nat → Except Error WorkerReport → View → Prop) (id : Nat) :
    Option (Except Error WorkerReport) → View → Prop
  | some result, v => a.starts (.worker id) = .ok () ∧ goal id result v
  | none, v => a.starts (.worker id) ≠ .ok () ∧ (others id).Allows pool v.pool
    ∧ v.journal = { thread := .worker id }

/-- What threads leave that are started is all that there is to prove of a crew. -/
theorem Plan.sound_leaves {h : Histogram} {pool : PoolSlots} {others : Nat → Interference}
    {goal : Nat → Except Error WorkerReport → View → Prop}
    (hthread : ∀ id, id < p.workers → (Worker.thread id p h (p.inboxOf id)).Ensures a (others id)
      ⟨pool, { thread := .worker id }⟩ (goal id)) :
    (p.crew a h pool).Sound a others (fun id => Action.Within (p.share id))
      (Leaves a others pool goal) := by
  refine sound_crew fun id hid => ?_
  unfold Worker.spawn
  cases hstarts : a.starts (.worker id) with
  | ok _ => exact ((hthread id hid).mono fun _ _ hgoal => ⟨hstarts, hgoal⟩).map some
  | error cause =>
      refine Routine.ensures_pure fun _ hpool => ⟨?_, hpool, rfl⟩
      rw [hstarts]
      exact nofun

end Plan

end HeapChurn
