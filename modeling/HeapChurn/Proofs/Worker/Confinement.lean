import HeapChurn.Proofs.Routine.Contract
import HeapChurn.Worker

/-!
# What a worker touches

A worker takes blocks out of its own share of the pool and out of no other slot, and it never stores
one, whatever it is answered. The same walk over the control loop shows when it can report a corrupt
tag: only when it was handed a block that does not name its slot. So the contract below has the
answers that are ruled out as a parameter, and the error is `Excused` by one that is not.
-/

namespace HeapChurn

/-- The action takes nothing but from these slots and stores nothing. -/
def Action.Within (share : List Nat) : Action → Prop
  | .take slot => slot ∈ share
  | .store _ => False
  | _ => True

/-- A corrupt tag is reported of a slot only if its block may come with another tag. -/
def Error.Excused (sane : (x : Action) → x.Answer → Prop) (e : Error) : Prop :=
  ∀ slot found, e = .corruptTag slot found → ∃ b, sane (.take slot) (some b) ∧ b.tag ≠ slot

variable {share : List Nat} {sane : (x : Action) → x.Answer → Prop}

/-- An action that keeps to a share does to the pool what its request overwrites, or empties a slot
of the share. -/
theorem Action.Within.pool_eq {x : Action} (hx : x.Within share)
    (a : Allocator) (v : View) :
    (∃ calls, (x.perform a v).2.pool = v.pool.overwriteAll (a.overwrites v.journal.thread calls))
      ∨ (x.perform a v).2.pool = v.pool
      ∨ ∃ s ∈ share, (x.perform a v).2.pool = v.pool.setIfInBounds s none := by
  cases x with
  | request layout =>
      refine Or.inl ⟨v.journal.calls, ?_⟩
      simp only [Action.perform]
      split <;> rfl
  | take slot => exact Or.inr (Or.inr ⟨slot, hx, rfl⟩)
  | store b => exact hx.elim
  | reserve slots => exact Or.inr (Or.inl rfl)
  | release b => exact Or.inr (Or.inl rfl)
  | note notice => exact Or.inr (Or.inl rfl)
  | count growth => exact Or.inr (Or.inl rfl)

namespace Routine

theorem confined_releaseAll : ∀ blocks : List Block,
    (releaseAll blocks).Confined (Action.Within share) sane fun _ => True
  | [] => trivial
  | b :: rest => (confined_perform (.release b) trivial).bind fun _ _ =>
      confined_releaseAll rest

theorem confined_requestIf (layout? : Option Layout) :
    (requestIf layout?).Confined (Action.Within share) sane fun _ => True := by
  cases layout? with
  | none => trivial
  | some layout => exact ⟨trivial, fun _ _ => trivial⟩

end Routine

namespace LiveSlots

theorem confined_makeRoom (s : LiveSlots) :
    s.makeRoom.Confined (Action.Within share) sane fun _ => True := by
  unfold makeRoom
  cases s.stale? with
  | none => trivial
  | some b => exact ⟨trivial, fun _ _ => ⟨trivial, fun _ _ => trivial⟩⟩

theorem confined_allocate (s : LiveSlots) (size : Nat) :
    (s.allocate size).Confined (Action.Within share) sane fun out =>
      ∀ e, out.1 = .error e → e.Excused sane := by
  unfold allocate
  by_cases hend : s.skipWindow.capacity ≤ s.skipWindow.cursor
  · simp only [if_pos hend]
    refine (Routine.confined_releaseAll _).bind fun _ _ => ?_
    exact ⟨trivial, fun _ _ => nofun⟩
  · simp only [if_neg hend]
    refine (confined_makeRoom _).bind fun t _ => ?_
    refine (Routine.confined_requestIf _).bind fun granted _ => ?_
    cases granted with
    | none =>
        rintro e ⟨⟩
        exact nofun
    | some b => exact ⟨trivial, fun _ _ => nofun⟩

theorem confined_allocateMany (size : Nat) : ∀ (count : Nat) (s : LiveSlots),
    (allocateMany size count s).Confined (Action.Within share) sane fun out =>
      ∀ e, out.1 = .error e → e.Excused sane
  | 0, _ => nofun
  | count + 1, s => by
      unfold allocateMany
      refine (confined_allocate s size).bind ?_
      rintro ⟨result, t⟩ hresult
      cases result with
      | error e =>
          rintro _ ⟨⟩
          exact hresult e rfl
      | ok x => exact confined_allocateMany size count t

theorem confined_releaseAll (s : LiveSlots) :
    s.releaseAll.Confined (Action.Within share) sane fun _ => True :=
  (Routine.confined_releaseAll _).bind fun _ _ => ⟨trivial, fun _ _ => trivial⟩

end LiveSlots

theorem Inbox.confined_drainFrom (worker : Nat) (limit : Option Nat) :
    ∀ (ahead : List Nat) (freed : Nat), (∀ s ∈ ahead, s ∈ share) →
      (drainFrom worker ahead limit freed).Confined (Action.Within share) sane fun out =>
        (∀ e, out.1 = .error e → e.Excused sane) ∧ ∀ s ∈ out.2, s ∈ share
  | [], _, _ => ⟨nofun, nofun⟩
  | slot :: rest, freed, hahead => by
      unfold drainFrom
      by_cases hlimit : limit = some freed
      · rw [if_pos hlimit]
        exact ⟨nofun, hahead⟩
      · rw [if_neg hlimit]
        refine (Routine.confined_perform (.take slot)
          (hahead slot List.mem_cons_self)).bind fun taken htaken => ?_
        cases taken with
        | none => exact ⟨nofun, hahead⟩
        | some b =>
            by_cases htag : b.tag = slot
            · simp only [if_pos htag]
              refine ⟨trivial, fun _ _ => ⟨trivial, fun _ _ => ?_⟩⟩
              exact confined_drainFrom worker limit rest (freed + 1)
                fun s hs => hahead s (List.mem_cons_of_mem _ hs)
            · simp only [if_neg htag]
              refine ⟨trivial, fun _ _ => ⟨?_, hahead⟩⟩
              rintro _ ⟨⟩ _ _ ⟨⟩
              exact ⟨b, htaken, htag⟩

namespace Worker

variable {table : Histogram}

/-- A worker is made, unless its slots are too many for any array. -/
theorem create_cases (id : Nat) (plan : Plan) (table : Histogram) (inbox : Option Inbox) :
    create id plan table inbox = .ok
        { id, plan, inbox, slots := .empty plan.heapSlotsPerWorker, sizes := table.start }
      ∨ create id plan table inbox = .error (.setup .liveSlots) := by
  by_cases h : reservable plan.heapSlotsPerWorker = true
  · refine Or.inl ?_
    simp only [create, LiveSlots.ofCapacity, h, if_true]
    rfl
  · refine Or.inr ?_
    simp only [create, LiveSlots.ofCapacity, h]
    rfl

/-- The slots at which the worker has yet to look. -/
def ahead (w : Worker table) : List Nat := w.inbox.elim [] Inbox.ahead

theorem confined_drain {w : Worker table} (hw : ∀ s ∈ w.ahead, s ∈ share) (limit : Option Nat) :
    (w.drain limit).Confined (Action.Within share) sane fun out =>
      (∀ e, out.1 = .error e → e.Excused sane) ∧ ∀ s ∈ out.2.ahead, s ∈ share := by
  unfold drain
  cases hinbox : w.inbox with
  | none => exact ⟨nofun, hw⟩
  | some inbox =>
      rw [ahead, hinbox] at hw
      have hdrain : (inbox.drain limit).Confined (Action.Within share) sane fun out =>
          (∀ e, out.1 = .error e → e.Excused sane) ∧ ∀ s ∈ out.2.ahead, s ∈ share := by
        unfold Inbox.drain
        exact (Inbox.confined_drainFrom _ limit inbox.ahead 0 hw).bind fun _ hout => hout
      refine hdrain.bind ?_
      rintro ⟨result, inbox'⟩ ⟨hresult, hahead⟩
      cases result with
      | error e =>
          refine ⟨?_, hahead⟩
          rintro _ ⟨⟩
          exact hresult e rfl
      | ok freed => exact ⟨nofun, hahead⟩

theorem confined_iterate {w : Worker table} (hw : ∀ s ∈ w.ahead, s ∈ share) :
    w.iterate.Confined (Action.Within share) sane fun out =>
      (∀ e, out.1 = .error e → e.Excused sane) ∧ ∀ s ∈ out.2.ahead, s ∈ share := by
  unfold iterate
  refine (confined_drain hw _).bind ?_
  rintro ⟨result, w'⟩ ⟨hresult, hahead⟩
  cases result with
  | error e => exact ⟨hresult, hahead⟩
  | ok _ => exact (LiveSlots.confined_allocateMany _ _ _).bind fun _ hout => ⟨hout, hahead⟩

theorem confined_iterations : ∀ (n : Nat) {w : Worker table}, (∀ s ∈ w.ahead, s ∈ share) →
    (iterations n w).Confined (Action.Within share) sane fun out =>
      (∀ e, out.1 = .error e → e.Excused sane) ∧ ∀ s ∈ out.2.ahead, s ∈ share
  | 0, _, hw => ⟨nofun, hw⟩
  | n + 1, w, hw => by
      unfold iterations
      refine (confined_iterate hw).bind ?_
      rintro ⟨result, w'⟩ ⟨hresult, hahead⟩
      cases result with
      | error e => exact ⟨hresult, hahead⟩
      | ok _ => exact confined_iterations n hahead

theorem confined_run {w : Worker table} (hw : ∀ s ∈ w.ahead, s ∈ share) :
    w.run.Confined (Action.Within share) sane fun result =>
      ∀ e, result = .error e → e.Excused sane := by
  have hwork : w.workOff.Confined (Action.Within share) sane fun out =>
      ∀ e, out.1 = .error e → e.Excused sane := by
    unfold workOff
    refine (confined_iterations _ hw).bind ?_
    rintro ⟨result, w'⟩ ⟨hresult, hahead⟩
    cases result with
    | error e => exact hresult
    | ok _ => exact (confined_drain hahead none).mono fun _ hout => hout.1
  unfold run
  refine ⟨trivial, fun _ _ => hwork.bind ?_⟩
  rintro ⟨result, w'⟩ hresult
  refine (LiveSlots.confined_releaseAll _).bind fun _ _ => ?_
  cases result with
  | error e =>
      rintro _ ⟨⟩
      exact hresult e rfl
  | ok _ => exact ⟨trivial, fun _ _ => nofun⟩

theorem confined_attempt (id : Nat) (plan : Plan) (table : Histogram) {inbox : Option Inbox}
    (hinbox : ∀ s ∈ inbox.elim [] Inbox.ahead, s ∈ share) :
    (attempt id plan table inbox).Confined (Action.Within share) sane fun result =>
      ∀ e, result = .error e → e.Excused sane := by
  have hsetup : Error.Excused sane (.setup .liveSlots) := nofun
  unfold attempt
  rcases create_cases id plan table inbox with hcreate | hcreate
  · rw [hcreate]
    refine ⟨trivial, fun reserved _ => ?_⟩
    cases reserved with
    | true => exact confined_run hinbox
    | false =>
        rintro _ ⟨⟩
        exact hsetup
  · rw [hcreate]
    rintro _ ⟨⟩
    exact hsetup

/-- A worker keeps to the slots ahead of it and never reports a corrupt tag without having seen
one. -/
theorem confined_thread (id : Nat) (plan : Plan) (table : Histogram) {inbox : Option Inbox}
    (hinbox : ∀ s ∈ inbox.elim [] Inbox.ahead, s ∈ share) :
    (thread id plan table inbox).Confined (Action.Within share) sane fun result =>
      ∀ e, result = .error e → e.Excused sane := by
  unfold thread
  refine (confined_attempt id plan table hinbox).bind fun result hresult => ?_
  cases result with
  | error e => exact ⟨trivial, fun _ _ => hresult⟩
  | ok r => exact hresult

end Worker

end HeapChurn
