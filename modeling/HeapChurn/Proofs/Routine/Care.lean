import HeapChurn.Allocator

/-!
# What a thread may hand back

A thread learns from the answers that it gets which blocks it may hand back: those that it was
granted, and those that it took out of a pool slot that they name. `Known` is what it has learned,
beside what it has told the log. `Careful` says of a routine that it never goes beyond it, whatever it
is answered: it hands back no other block, and once it has been given a block that names another slot
it takes nothing more.

All answers are allowed for, so what is said holds in every interleaving, with every allocator and
whatever is written over the tags. `Careful.step` and `Careful.run` say what is left of it in the
middle of a run and at the end.
-/

namespace HeapChurn

/-- What the answers to a thread have told it, and what it has told the log. -/
structure Known where
  /-- The blocks that it may hand back. -/
  owned : List Block := []
  /-- A slot that held a block with another tag, and that tag. -/
  corrupt : Option (Nat × Nat) := none
  told : List Notice := []

namespace Known

def learn (k : Known) : (x : Action) → x.Answer → Known
  | .request _, some b => { k with owned := b :: k.owned }
  | .take slot, some b =>
    if b.tag = slot then { k with owned := b.block :: k.owned }
    else { k with corrupt := some (slot, b.tag) }
  | .note notice, _ => { k with told := notice :: k.told }
  | _, _ => k

/-- What a thread may do that knows so much. -/
def Allows (k : Known) : Action → Prop
  | .release b => b ∈ k.owned
  | .take _ => k.corrupt = none
  | _ => True

/-- What is known already stays known: a corrupt tag is the last. -/
theorem corrupt_learn {k : Known} {x : Action} (hx : k.Allows x) (answer : x.Answer)
    {pair : Nat × Nat} (h : k.corrupt = some pair) : (k.learn x answer).corrupt = some pair := by
  cases x with
  | take slot =>
      have hnone : k.corrupt = none := hx
      rw [hnone] at h
      cases h
  | request layout => cases answer <;> exact h
  | reserve slots => exact h
  | release b => exact h
  | store b => exact h
  | note notice => exact h
  | count growth => exact h

/-- The log has heard all that the thread has told it. -/
def Logged (k : Known) (j : Journal) : Prop := ∀ n ∈ k.told, n ∈ j.notices

theorem Logged.perform {k : Known} {v : View} (h : k.Logged v.journal) (a : Allocator)
    (x : Action) : (k.learn x (x.perform a v).1).Logged (x.perform a v).2.journal := by
  cases x with
  | note notice =>
      intro n hn
      rcases List.mem_cons.mp hn with rfl | hn
      · exact Array.mem_push_self
      · exact Array.mem_push_of_mem notice (h n hn)
  | take slot =>
      simp only [Action.perform]
      cases v.pool[slot]?.join with
      | none => exact h
      | some b =>
          by_cases htag : b.tag = slot
          · simpa [learn, htag, Logged] using h
          · simpa [learn, htag, Logged] using h
  | request layout =>
      simp only [Action.perform]
      split
      · exact h
      · exact h
  | reserve slots => exact h
  | release b => exact h
  | store b => exact h
  | count growth => exact h

/-! ## Outcomes -/

/-- The outcome reports the tag that did not fit, and no other; and the log was told of it. -/
structure Reported {α : Type} (k : Known) (worker : Nat) (result : Except Error α) : Prop where
  error_iff : ∀ slot found,
    k.corrupt = some (slot, found) ↔ result = .error (.corruptTag slot found)
  told : ∀ slot found, k.corrupt = some (slot, found) → .tagMismatch worker slot found ∈ k.told

variable {α β : Type} {k : Known} {worker : Nat}

theorem reported_ok (h : k.corrupt = none) (x : α) :
    k.Reported worker (.ok x : Except Error α) := by
  refine ⟨fun slot found => ?_, fun slot found hcorrupt => ?_⟩
  · rw [h]
    exact ⟨nofun, nofun⟩
  · rw [h] at hcorrupt
    cases hcorrupt

theorem reported_error (h : k.corrupt = none) {e : Error}
    (he : ∀ slot found, e ≠ .corruptTag slot found) :
    k.Reported worker (.error e : Except Error α) := by
  refine ⟨fun slot found => ?_, fun slot found hcorrupt => ?_⟩
  · rw [h]
    exact ⟨nofun, fun heq => absurd (Except.error.inj heq) (he slot found)⟩
  · rw [h] at hcorrupt
    cases hcorrupt

theorem Reported.corrupt_of_ok {x : α} (h : k.Reported worker (.ok x : Except Error α)) :
    k.corrupt = none := by
  refine Option.eq_none_iff_forall_ne_some.mpr fun pair hpair => ?_
  cases (h.error_iff pair.1 pair.2).mp hpair

/-- An error is reported whatever a success would have been. -/
theorem Reported.of_error {e : Error} (h : k.Reported worker (.error e : Except Error α)) :
    k.Reported worker (.error e : Except Error β) := by
  refine ⟨fun slot found => (h.error_iff slot found).trans ?_, h.told⟩
  exact ⟨fun heq => congrArg Except.error (Except.error.inj heq),
    fun heq => congrArg Except.error (Except.error.inj heq)⟩

theorem Reported.noted {result : Except Error α} (h : k.Reported worker result)
    (notice : Notice) :
    Reported { k with told := notice :: k.told } worker result :=
  ⟨h.error_iff, fun slot found hcorrupt => List.mem_cons_of_mem notice (h.told slot found hcorrupt)⟩

end Known

namespace Routine

variable {α β : Type}

/-- The routine does only what it may, whatever it is answered, and ends as `Q` says. -/
def Careful : Routine α → Known → (α → Known → Prop) → Prop
  | done result, k, Q => Q result k
  | act action next, k, Q =>
    k.Allows action ∧ ∀ answer, (next answer).Careful (k.learn action answer) Q

theorem Careful.mono {P Q : α → Known → Prop} (himp : ∀ x k, P x k → Q x k) {r : Routine α} :
    ∀ {k : Known}, r.Careful k P → r.Careful k Q := by
  induction r with
  | done x => exact himp x _
  | act action next ih => exact fun h => ⟨h.1, fun answer => ih answer (h.2 answer)⟩

theorem Careful.bind {P : α → Known → Prop} {Q : β → Known → Prop} {next : α → Routine β}
    (hnext : ∀ x k, P x k → (next x).Careful k Q) {r : Routine α} :
    ∀ {k : Known}, r.Careful k P → (r >>= next).Careful k Q := by
  induction r with
  | done x => exact hnext x _
  | act action rest ih => exact fun h => ⟨h.1, fun answer => ih answer (h.2 answer)⟩

theorem careful_perform {k : Known} (action : Action) (h : k.Allows action) :
    (perform action).Careful k fun answer k' => k' = k.learn action answer :=
  ⟨h, fun _ => rfl⟩

theorem careful_releaseAll {k : Known} : ∀ {blocks : List Block}, blocks ⊆ k.owned →
    (releaseAll blocks).Careful k fun _ k' => k' = k
  | [], _ => rfl
  | _ :: _, h => ⟨h List.mem_cons_self, fun _ =>
      careful_releaseAll fun _ hb => h (List.mem_cons_of_mem _ hb)⟩

variable {a : Allocator} {k : Known} {r : Routine α} {Q : α → Known → Prop} {v : View}

theorem Careful.step (h : r.Careful k Q) (hv : k.Logged v.journal) : ∃ k',
    (r.step a v).1.Careful k' Q ∧ k'.Logged (r.step a v).2.journal
      ∧ ∀ pair, k.corrupt = some pair → k'.corrupt = some pair := by
  cases r with
  | done x => exact ⟨k, h, hv, fun _ hpair => hpair⟩
  | act action next =>
      exact ⟨_, h.2 _, hv.perform a action, fun _ hpair => Known.corrupt_learn h.1 _ hpair⟩

theorem Careful.run (h : r.Careful k Q) (hv : k.Logged v.journal) : ∃ k',
    Q (r.run a v).1 k' ∧ k'.Logged (r.run a v).2.journal
      ∧ ∀ pair, k.corrupt = some pair → k'.corrupt = some pair := by
  induction r generalizing k v with
  | done x => exact ⟨k, h, hv, fun _ hpair => hpair⟩
  | act action next ih =>
      obtain ⟨k', hQ, hlogged, hkept⟩ := ih _ (h.2 _) (hv.perform a action)
      exact ⟨k', hQ, hlogged, fun pair hpair => hkept pair (Known.corrupt_learn h.1 _ hpair)⟩

end Routine

end HeapChurn
