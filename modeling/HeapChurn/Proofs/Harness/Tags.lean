import HeapChurn.Proofs.Harness.Release
import HeapChurn.Proofs.Harness.Turns
import HeapChurn.Proofs.Pool.Tags
import HeapChurn.Proofs.Worker.Care

/-!
# Mistagged blocks in a run

What becomes of a block whose tag was overwritten depends on who takes it out of the pool. A worker
that takes it reports it, and it is never handed back, whatever else happens in the run. The main
thread looks at no tag: it hands back the blocks that are left at the end, and those of a pool that it
cannot fill, as they are.
-/

namespace HeapChurn

open Pool (Move Usage populate tearDown)

/-- The member is at a point of the routine of worker `id` where it knows `k`. -/
structure Member.Knows (m : Member) (id : Nat) (k : Known) : Prop where
  careful : m.routine.Careful k fun result k' => k'.Reported id (Worker.ending result)
  logged : k.Logged m.journal

/-- The slot from which the member takes a block next, if that is what it does. -/
def Member.nextTake? (m : Member) : Option Nat :=
  match m.routine with
  | .act (.take slot) _ => some slot
  | _ => none

/-- A member that takes a block which names another slot knows it from then on. -/
theorem Member.Knows.taken {a : Allocator} {m : Member} {id slot : Nat} {k : Known}
    (hk : m.Knows id k) {next : (Action.take slot).Answer → Routine (Option (Except Error WorkerReport))}
    (hroutine : m.routine = .act (.take slot) next) {pool : PoolSlots} {b : TaggedBlock}
    (hb : pool[slot]? = some (some b)) (htag : b.tag ≠ slot) :
    Member.Knows ⟨(m.routine.step a ⟨pool, m.journal⟩).1,
      (m.routine.step a ⟨pool, m.journal⟩).2.journal⟩ id
      { k with corrupt := some (slot, b.tag) } := by
  have hanswer : (pool[slot]?.join : Option TaggedBlock) = some b := by
    rw [hb]
    rfl
  have hcareful := hk.careful
  rw [hroutine] at hcareful ⊢
  have hnext := hcareful.2 (some b)
  simp only [Known.learn, if_neg htag] at hnext
  refine ⟨?_, hk.logged⟩
  simp only [Routine.step, Action.perform, hanswer]
  exact hnext

/-- What a thread that keeps to its share leaves in a slot is what lay there. -/
theorem Action.Within.blockAt_perform {share : List Nat} {x : Action} (hx : x.Within share)
    (a : Allocator) (v : View) (s : Nat) : (x.perform a v).2.pool.blockAt s = none
      ∨ (x.perform a v).2.pool.blockAt s = v.pool.blockAt s := by
  rcases hx.pool_eq a v with ⟨calls, h⟩ | h | ⟨t, -, h⟩
  · rw [h]
    exact Or.inr (v.pool.blockAt_overwriteAll _ s)
  · rw [h]
    exact Or.inr rfl
  · rw [h]
    by_cases hts : t = s
    · subst hts
      exact Or.inl (v.pool.blockAt_emptied_self t)
    · exact Or.inr (v.pool.blockAt_emptied_of_ne hts)

theorem Routine.Confined.blockAt_step {α : Type} {P : α → Prop} {share : List Nat} {r : Routine α}
    (hr : r.Confined (Action.Within share) (fun _ _ => True) P) (a : Allocator) (v : View)
    (s : Nat) : (r.step a v).2.pool.blockAt s = none
      ∨ (r.step a v).2.pool.blockAt s = v.pool.blockAt s := by
  cases r with
  | done result => exact Or.inr rfl
  | act action next => exact hr.1.blockAt_perform a v s

namespace Crew

variable {a : Allocator} {c : Crew} {id : Nat} {m : Member} {k : Known}

/-! ## What a member knows -/

theorem knows_step (hm : c.members[id]? = some m) (hk : m.Knows id k) (j : Nat) :
    ∃ m' k', (c.step a j).members[id]? = some m' ∧ m'.Knows id k'
      ∧ ∀ pair, k.corrupt = some pair → k'.corrupt = some pair := by
  by_cases hj : j = id
  · subst hj
    obtain ⟨k', hcareful, hlogged, hkept⟩ :=
      hk.careful.step (a := a) (v := ⟨c.pool, m.journal⟩) hk.logged
    exact ⟨_, k', getElem?_step_self hm, ⟨hcareful, hlogged⟩, hkept⟩
  · exact ⟨m, k, (getElem?_step_of_ne hj).trans hm, hk, fun _ hpair => hpair⟩

theorem knows_follow : ∀ (schedule : List Turn) {c : Crew} {m : Member} {k : Known},
    c.members[id]? = some m → m.Knows id k →
      ∃ m' k', (c.follow a schedule).members[id]? = some m' ∧ m'.Knows id k'
        ∧ ∀ pair, k.corrupt = some pair → k'.corrupt = some pair
  | [], _, m, k, hm, hk => ⟨m, k, hm, hk, fun _ hpair => hpair⟩
  | .act j :: schedule, _, _, _, hm, hk => by
      obtain ⟨m₁, k₁, hm₁, hk₁, hkept₁⟩ := knows_step (a := a) hm hk j
      obtain ⟨m₂, k₂, hm₂, hk₂, hkept₂⟩ := knows_follow schedule hm₁ hk₁
      exact ⟨m₂, k₂, hm₂, hk₂, fun pair hpair => hkept₂ pair (hkept₁ pair hpair)⟩
  | .overwrite o :: schedule, c, _, _, hm, hk =>
      knows_follow schedule (c := { c with pool := c.pool.overwrite o }) hm hk

/-- A member finishes with some pool before it. -/
theorem getElem?_finish : ∀ (members : List Member) {i : Nat} (pool : PoolSlots),
    members[i]? = some m → ∃ before, (finish a pool members).2[i]?
      = some ⟨(m.routine.run a ⟨before, m.journal⟩).1,
        (m.routine.run a ⟨before, m.journal⟩).2.journal⟩
  | [], _, _, hm => by cases hm
  | n :: rest, 0, pool, hm => by
      obtain rfl := Option.some.inj hm
      exact ⟨pool, rfl⟩
  | n :: rest, i + 1, pool, hm => by
      have hrest : rest[i]? = some m := hm
      exact getElem?_finish rest (n.routine.run a ⟨pool, n.journal⟩).2.pool hrest

theorem knows_outcome (hm : c.members[id]? = some m) (hk : m.Knows id k)
    (schedule : List Turn) : ∃ (f : Finished) (k' : Known), (c.outcome a schedule).2[id]? = some f
      ∧ k'.Reported id (Worker.ending f.result) ∧ k'.Logged f.journal
      ∧ ∀ pair, k.corrupt = some pair → k'.corrupt = some pair := by
  obtain ⟨m', k₁, hm', hk₁, hkept₁⟩ := knows_follow (a := a) schedule hm hk
  rw [← Array.getElem?_toList] at hm'
  obtain ⟨before, hf⟩ := getElem?_finish (a := a) _ (c.follow a schedule).pool hm'
  obtain ⟨k₂, hreported, hlogged, hkept₂⟩ :=
    hk₁.careful.run (a := a) (v := ⟨before, m'.journal⟩) hk₁.logged
  exact ⟨_, k₂, hf, hreported, hlogged, fun pair hpair => hkept₂ pair (hkept₁ pair hpair)⟩

/-! ## Pools only get emptier -/

/-- Every member keeps to its share. -/
def Within (p : Plan) (c : Crew) : Prop := ∀ (id : Nat) (m : Member), c.members[id]? = some m →
  m.routine.Confined (Action.Within (p.share id)) (fun _ _ => True) fun _ => True

variable {p : Plan}

theorem Within.step (hc : c.Within p) (j : Nat) : (c.step a j).Within p
    ∧ ∀ s, (c.step a j).pool.blockAt s = none
      ∨ (c.step a j).pool.blockAt s = c.pool.blockAt s := by
  cases hm : c.members[j]? with
  | none =>
      have hsame : c.step a j = c := by simp only [Crew.step, hm]
      rw [hsame]
      exact ⟨hc, fun _ => Or.inr rfl⟩
  | some m =>
      refine ⟨fun id n hn => ?_, fun s => ?_⟩
      · by_cases hj : j = id
        · subst hj
          rw [getElem?_step_self hm] at hn
          obtain rfl := Option.some.inj hn
          exact (hc j m hm).step _
        · rw [getElem?_step_of_ne hj] at hn
          exact hc id n hn
      · have hpool : (c.step a j).pool = (m.routine.step a ⟨c.pool, m.journal⟩).2.pool := by
          simp only [Crew.step, hm]
        rw [hpool]
        exact (hc j m hm).blockAt_step a ⟨c.pool, m.journal⟩ s

theorem Within.follow : ∀ (schedule : List Turn) {c : Crew}, c.Within p →
    (c.follow a schedule).Within p ∧ ∀ s, (c.follow a schedule).pool.blockAt s = none
      ∨ (c.follow a schedule).pool.blockAt s = c.pool.blockAt s
  | [], _, hc => ⟨hc, fun _ => Or.inr rfl⟩
  | .act j :: schedule, _, hc => by
      obtain ⟨hstep, hblocks⟩ := hc.step (a := a) j
      obtain ⟨hfollow, hrest⟩ := Within.follow schedule hstep
      refine ⟨hfollow, fun s => ?_⟩
      rcases hrest s with h | h
      · exact Or.inl h
      · rcases hblocks s with h' | h'
        · exact Or.inl (h.trans h')
        · exact Or.inr (h.trans h')
  | .overwrite o :: schedule, c, hc => by
      obtain ⟨hfollow, hrest⟩ := Within.follow schedule (c := { c with
        pool := c.pool.overwrite o }) hc
      refine ⟨hfollow, fun s => (hrest s).imp_right fun h => ?_⟩
      exact h.trans (c.pool.blockAt_overwrite o s)

end Crew

namespace Plan

theorem within_crew (p : Plan) (a : Allocator) (h : Histogram) (pool : PoolSlots) :
    (p.crew a h pool).Within p := by
  intro id m hm
  obtain ⟨hid, rfl⟩ := getElem?_members hm
  exact confined_spawn hid h

theorem worker_inboxOf {p : Plan} {id : Nat} {b : Inbox} (h : p.inboxOf id = some b) :
    b.worker = id := by
  unfold inboxOf at h
  by_cases htotal : p.foreignTotal = 0
  · simp [htotal] at h
  · rw [if_neg htotal, List.getElem?_toArray] at h
    have hid : id < p.workers := by
      rw [← p.length_inboxes]
      exact (List.getElem?_eq_some_iff.mp h).1
    rw [getElem?_inboxes hid] at h
    obtain rfl := Option.some.inj h
    rfl

theorem knows_crew {p : Plan} {a : Allocator} {h : Histogram} {pool : PoolSlots} {id : Nat}
    {m : Member} (hm : (p.crew a h pool).members[id]? = some m) : m.Knows id {} := by
  obtain ⟨-, rfl⟩ := getElem?_members hm
  refine ⟨?_, nofun⟩
  unfold Worker.spawn
  split
  · exact (Worker.careful_thread id p h fun _ hb => worker_inboxOf hb).bind
      fun result k hreported => hreported
  · exact Known.reported_error rfl fun _ _ => nofun

end Plan

namespace Harness

variable {a : Allocator} {config : Config} {h : Histogram} {plan : Plan}

/-- The next thing that worker `id` does is to take the block that lies in this slot. -/
def Meets (c : Crew) (id slot : Nat) (b : TaggedBlock) : Prop :=
  c.members[id]?.bind Member.nextTake? = some slot ∧ c.pool[slot]? = some (some b)

instance (c : Crew) (id slot : Nat) (b : TaggedBlock) : Decidable (Meets c id slot b) :=
  inferInstanceAs (Decidable (_ ∧ _))

theorem Meets.exists_member {c : Crew} {id slot : Nat} {b : TaggedBlock} (h : Meets c id slot b) :
    ∃ m next, c.members[id]? = some m ∧ m.routine = .act (.take slot) next := by
  obtain ⟨m, hm, hnext⟩ := Option.bind_eq_some_iff.mp h.1
  unfold Member.nextTake? at hnext
  split at hnext
  · rename_i s next hroutine
    obtain rfl := Option.some.inj hnext
    exact ⟨m, next, hm, hroutine⟩
  · cases hnext

theorem Meets.mem_share {c : Crew} {id slot : Nat} {b : TaggedBlock} (h : Meets c id slot b)
    (hc : c.Within plan) : slot ∈ plan.share id := by
  obtain ⟨m, next, hm, hroutine⟩ := h.exists_member
  have hconfined := hc id m hm
  rw [hroutine] at hconfined
  exact hconfined.1

/-- A worker that takes a mistagged block reports it to the log and as its outcome. -/
theorem reported_of_meets (hok : ((prepare config h).run a start).1 = .ok plan)
    (before after : List Turn) {id slot : Nat} {b : TaggedBlock}
    (hmeets : Meets ((plan.crew a h (populated a config h)).follow a before) id slot b)
    (htag : b.tag ≠ slot) :
    ∃ f, (run a config h (before ++ .act id :: after)).workers[id]? = some f
      ∧ f.result = some (.error (.corruptTag slot b.tag))
      ∧ .tagMismatch id slot b.tag ∈ f.journal.notices := by
  have hb := hmeets.2
  obtain ⟨m, next, hm, hroutine⟩ := hmeets.exists_member
  generalize hcrew : plan.crew a h (populated a config h) = crew at hm hb
  obtain ⟨m₀, hm₀⟩ : ∃ m₀, crew.members[id]? = some m₀ := by
    have hlt := (Array.getElem?_eq_some_iff.mp hm).1
    rw [Crew.size_members_follow] at hlt
    exact ⟨_, Array.getElem?_eq_getElem hlt⟩
  have hstart : m₀.Knows id {} := by
    rw [← hcrew] at hm₀
    exact Plan.knows_crew hm₀
  obtain ⟨m', k, hm', hknows, -⟩ := Crew.knows_follow (a := a) before hm₀ hstart
  obtain rfl : m' = m := Option.some.inj (hm'.symm.trans hm)
  obtain ⟨f, k', hf, hreported, hlogged, hkept⟩ := Crew.knows_outcome (a := a)
    (Crew.getElem?_step_self hm) (hknows.taken hroutine hb htag) after
  have hcorrupt : k'.corrupt = some (slot, b.tag) := hkept _ rfl
  refine ⟨f, ?_, Worker.ending_eq_corruptTag.mp ((hreported.error_iff slot b.tag).mp hcorrupt),
    hlogged _ (hreported.told slot b.tag hcorrupt)⟩
  have houtcome : (run a config h (before ++ .act id :: after)).workers
      = (((crew.follow a before).step a id).outcome a after).2 := by
    rw [run_eq_of_ok hok]
    show ((plan.crew a h (populated a config h)).outcome a _).2 = _
    rw [hcrew, Crew.outcome, Crew.follow_append]
    rfl
  rw [houtcome]
  exact hf

/-- No trace of the run has that block handed back. -/
theorem not_released_of_meets (hok : ((prepare config h).run a start).1 = .ok plan)
    (before after : List Turn) {id slot : Nat} {b : TaggedBlock}
    (hmeets : Meets ((plan.crew a h (populated a config h)).follow a before) id slot b)
    (htag : b.tag ≠ slot) {t : List Event}
    (ht : (run a config h (before ++ .act id :: after)).Traced t) : .released b.block ∉ t := by
  obtain ⟨f, hf, hresult, -⟩ := reported_of_meets hok before after hmeets htag
  rcases (ensures_prepare a config h).run_self with
    ⟨plan', layout, hok', hplan, hreservable, hfilled⟩ | ⟨e, herror, -⟩
  · obtain rfl : plan' = plan := Except.ok.inj (hok'.symm.trans hok)
    obtain ⟨closed, hc⟩ := course_of_ok hok hplan hreservable hfilled (before ++ .act id :: after)
    obtain ⟨hwithin, hblocks⟩ := (plan'.within_crew a h (populated a config h)).follow (a := a) before
    obtain ⟨-, hslot, howner⟩ := Plan.mem_share.mp (hmeets.mem_share hwithin)
    -- no slot is ever filled again, so this is the block that the pool was filled with
    have hblock : b.block = Pool.blockOf layout slot := by
      have hthen := PoolSlots.blockAt_of_getElem? hmeets.2
      rcases hblocks slot with hnone | hsame
      · rw [hnone] at hthen
        cases hthen
      · exact hfilled.toStored.eq_blockOf (hsame.symm.trans hthen)
    obtain ⟨f', gone, lost, hf', hleft, habout⟩ := hc.life_of_slot ht hslot
    rw [howner] at hf' hleft
    obtain rfl : f' = f := Option.some.inj (hf'.symm.trans hf)
    rw [if_pos (hleft.lost_iff.mpr ⟨_, Worker.ending_eq_corruptTag.mpr hresult⟩)] at habout
    intro hmem
    have hreleased : Event.released b.block ∈ Trace.about ⟨.main, slot⟩ t := by
      refine Trace.mem_about.mpr ⟨hmem, ?_⟩
      rw [hblock]
      rfl
    rw [habout] at hreleased
    simp at hreleased
  · rw [hok] at herror
    cases herror

/-- The main thread hands back what is left when the workers are gone, and the log hears of no
tags. -/
theorem closing_unchecked (hok : ((prepare config h).run a start).1 = .ok plan)
    (schedule : List Turn) :
    let r := run a config h schedule
    let left := ((plan.crew a h (populated a config h)).outcome a schedule).1
    (r.closing.events.toList = r.opening.events.toList
        ++ ((List.range plan.foreignTotal).filterMap left.blockAt).map .released)
      ∧ ∀ n ∈ r.closing.notices, n ∈ r.opening.notices ∨ ∃ count, n = .leftoverReleased count := by
  intro r left
  have hr : r = _ := run_eq_of_ok hok schedule
  refine ⟨?_, ?_⟩
  · have hclosing := (Pool.ensures_tearDown (a := a) plan.foreignTotal
      ⟨left, (announced a config h plan).journal⟩).run_self
    rw [hr]
    exact (congrArg Array.toList hclosing).trans (Journal.events_returned _ _)
  · rw [hr]
    exact Pool.notices_tearDown plan.foreignTotal _

/-- A run whose pool cannot be filled hands back what it has obtained for it. -/
theorem released_of_unfilled {e : Error} (herror : ((prepare config h).run a start).1 = .error e)
    (schedule : List Turn) {b : Block}
    (hb : .granted b ∈ (run a config h schedule).opening.events.toList) :
    .released b ∈ (run a config h schedule).opening.events.toList := by
  rw [run_eq_of_error herror] at hb ⊢
  rcases (ensures_prepare a config h).run_self with ⟨plan, layout, hok, -⟩ | ⟨_, -, -, hcustody⟩
  · rw [herror] at hok
    cases hok
  · exact hcustody.released_of_granted hb

end Harness

/-! ## The law -/

/-- What becomes of mistagged blocks in a pool. -/
structure Pool.TagLaw (a : Allocator) : Prop where
  /-- A drain hands back blocks that name their slots. One that does not is reported, and it is not
  handed back then or later. -/
  drain : ∀ {p : Plan} {blockSize : Nat} {before : List Move} {worker : Nat} {inbox : Inbox}
    {limit : Option Nat}, ((populate p blockSize).run a Harness.start).1 = .ok () →
    let u := Usage.follow a p before { view := ((populate p blockSize).run a Harness.start).2 }
    u.inboxes[worker]? = some inbox →
    u.Checked a p inbox.worker (u.move a p (.drain worker limit))
  /-- At its end a pool hands back all that it holds. -/
  ending : ∀ {v : View} {s : Nat} {b : TaggedBlock}, v.pool[s]? = some (some b) →
    .released b.block ∈ ((tearDown v.pool.size).run a v).2.journal.events.toList
  /-- The end of a pool reports no tag. -/
  ending_notices : ∀ (total : Nat) (v : View),
    ∀ n ∈ ((tearDown total).run a v).2.journal.notices,
      n ∈ v.journal.notices ∨ ∃ count, n = .leftoverReleased count
  /-- A pool that cannot be filled hands back all that was obtained for it, and reports no tag. -/
  unfilled : ∀ {p : Plan} {blockSize : Nat} {e : Error},
    ((populate p blockSize).run a Harness.start).1 = .error e →
    let w := ((populate p blockSize).run a Harness.start).2
    (∀ b, .granted b ∈ w.journal.events.toList → .released b ∈ w.journal.events.toList)
      ∧ w.journal.notices = #[]

/-- What becomes of mistagged blocks in a run. -/
structure Harness.TagLaw (a : Allocator) : Prop where
  /-- Whatever a worker is answered, it hands back no block that it took under a wrong tag, and it
  takes no more blocks after that. -/
  worker : ∀ {id : Nat} {plan : Plan} {table : Histogram} {inbox : Option Inbox},
    (∀ b, inbox = some b → b.worker = id) →
    (Worker.thread id plan table inbox).Careful {} fun result k => k.Reported id result
  /-- A mistagged block that a worker takes is reported and never handed back. -/
  meets : ∀ {config : Config} {h : Histogram} {plan : Plan} {before : List Turn} {id slot : Nat}
    {b : TaggedBlock}, ((prepare config h).run a start).1 = .ok plan →
    Meets ((plan.crew a h (populated a config h)).follow a before) id slot b → b.tag ≠ slot →
    ∀ after, let r := run a config h (before ++ .act id :: after)
      (∃ f, r.workers[id]? = some f ∧ f.result = some (.error (.corruptTag slot b.tag))
        ∧ .tagMismatch id slot b.tag ∈ f.journal.notices)
      ∧ ∀ t, r.Traced t → .released b.block ∉ t
  /-- There is a schedule of every run in which all that workers do is done in turns. -/
  turns : ∀ (config : Config) (h : Histogram) (schedule : List Turn), ∃ ids : List Nat,
    run a config h (schedule ++ ids.map .act) = run a config h schedule
      ∧ ∀ plan, ((prepare config h).run a start).1 = .ok plan →
        ∀ m ∈ ((plan.crew a h (populated a config h)).follow a (schedule ++ ids.map .act)).members,
          m.Over
  /-- What is left when the workers are gone is handed back, and no tag is reported. -/
  closing : ∀ {config : Config} {h : Histogram} {plan : Plan},
    ((prepare config h).run a start).1 = .ok plan → ∀ schedule : List Turn,
    let r := run a config h schedule
    let left := ((plan.crew a h (populated a config h)).outcome a schedule).1
    (r.closing.events.toList = r.opening.events.toList
        ++ ((List.range plan.foreignTotal).filterMap left.blockAt).map .released)
      ∧ ∀ n ∈ r.closing.notices, n ∈ r.opening.notices ∨ ∃ count, n = .leftoverReleased count
  /-- A run that cannot fill its pool hands back all that it has obtained. -/
  unfilled : ∀ {config : Config} {h : Histogram} {e : Error},
    ((prepare config h).run a start).1 = .error e → ∀ (schedule : List Turn) (b : Block),
    let r := run a config h schedule
    .granted b ∈ r.opening.events.toList → .released b ∈ r.opening.events.toList

/-- Drains check the tags, and nobody else does: of all the ways out of a pool only a drain keeps
mistagged blocks from being handed back. -/
theorem tags_checked_by_drains (a : Allocator) : Pool.TagLaw a ∧ Harness.TagLaw a := by
  refine ⟨⟨?_, Pool.tearDown_unchecked, Pool.notices_tearDown, Pool.populate_unchecked⟩, ?_⟩
  · intro p blockSize before worker inbox limit hok u hinbox
    obtain ⟨layout, hfilled⟩ := Pool.filled_of_ok hok
    obtain ⟨freed, hkept, -, -⟩ :=
      (Usage.Kept.start hfilled.toStored).follow (a := a) hfilled.toStored before
    exact hkept.drain_checked hfilled hinbox limit
  · refine ⟨Worker.careful_thread _ _ _, fun hok hmeets htag after => ⟨?_, fun t ht => ?_⟩,
      Harness.exists_turns_to_end a, Harness.closing_unchecked,
      fun herror schedule b => Harness.released_of_unfilled herror schedule⟩
    · exact Harness.reported_of_meets hok _ after hmeets htag
    · exact Harness.not_released_of_meets hok _ after hmeets htag ht

/-- Both tags are overwritten. The worker takes the first block, and the main thread is left with the
second. -/
theorem tags_checked_by_drains_two_overwrites :
    let config : Config := ⟨2, 1, 1, 2, some 1⟩
    let h : Histogram := ⟨[⟨8, 1⟩], by decide, by decide⟩
    let before : List Turn :=
      [.overwrite ⟨⟨.main, 0⟩, 7⟩, .overwrite ⟨⟨.main, 1⟩, 9⟩, .act 0, .act 0]
    let r := Harness.run .faultless config h (before ++ .act 0 :: [])
    (∃ f, r.workers[0]? = some f ∧ f.result = some (.error (.corruptTag 0 7))
        ∧ .tagMismatch 0 0 7 ∈ f.journal.notices)
      ∧ .released ⟨⟨.main, 0⟩, ⟨8, 8⟩⟩ ∉ r.oneByOne
      ∧ r.closing.events.toList = r.opening.events.toList ++ [.released ⟨⟨.main, 1⟩, ⟨8, 8⟩⟩] := by
  intro config h before r
  let plan : Plan := {
    workers := 1, heapSlotsPerWorker := 2, iterationsPerWorker := 1
    foreignTotal := 2, foreignQuota := 2, foreignChunk := 2, foreignBurst := some 1 }
  have hok : ((Harness.prepare config h).run .faultless Harness.start).1 = .ok plan := by
    decide +kernel
  have hmeets : Harness.Meets ((plan.crew .faultless h (Harness.populated .faultless config h)).follow
      .faultless before) 0 0 ⟨⟨⟨.main, 0⟩, ⟨8, 8⟩⟩, 7⟩ := by
    decide +kernel
  obtain ⟨-, hlaw⟩ := tags_checked_by_drains .faultless
  obtain ⟨hreported, hkept⟩ := hlaw.meets hok hmeets (by decide) []
  obtain ⟨hclosing, -⟩ := hlaw.closing hok (before ++ .act 0 :: [])
  have hleft : ((List.range plan.foreignTotal).filterMap
      ((plan.crew .faultless h (Harness.populated .faultless config h)).outcome .faultless
        (before ++ .act 0 :: [])).1.blockAt) = [⟨⟨.main, 1⟩, ⟨8, 8⟩⟩] := by
    decide +kernel
  rw [hleft] at hclosing
  exact ⟨hreported, hkept _ r.traced_oneByOne, hclosing⟩

/-- The end of a pool hands back mistagged blocks, and so does a population that fails. -/
theorem mistagged_blocks_handed_back :
    (¬ ∀ (a : Allocator) (p : Plan) (blockSize : Nat) (moves : List Move) (s : Nat)
        (b : TaggedBlock),
        ((populate p blockSize).run a Harness.start).1 = .ok () →
        let u := Usage.follow a p moves { view := ((populate p blockSize).run a Harness.start).2 }
        u.view.pool[s]? = some (some b) → b.tag ≠ s →
        .released b.block ∉ ((tearDown p.foreignTotal).run a u.view).2.journal.events.toList)
      ∧ ¬ ∀ (a : Allocator) (p : Plan) (blockSize : Nat) (s : Nat) (b : TaggedBlock),
        let filled := ((Pool.fill blockSize p.foreignTotal 0).run a Harness.start).2
        filled.pool[s]? = some (some b) → b.tag ≠ s →
        .released b.block
          ∉ ((populate p blockSize).run a Harness.start).2.journal.events.toList := by
  refine ⟨fun hclaim => ?_, fun hclaim => ?_⟩
  · let p : Plan := { workers := 1, foreignTotal := 1, foreignQuota := 1, foreignChunk := 1 }
    exact hclaim .faultless p 8 [.session, .overwrite ⟨⟨.main, 0⟩, 7⟩] 0
      ⟨⟨⟨.main, 0⟩, ⟨8, 8⟩⟩, 7⟩ (by decide +kernel) (by decide +kernel) (by decide)
      (by decide +kernel)
  · -- the second request is refused, and while it is served the first block is written over
    let a : Allocator := {
      refuses := fun _ call _ => call = 1
      overwrites := fun _ call => if call = 1 then [⟨⟨.main, 0⟩, 7⟩] else [] }
    let p : Plan := { workers := 1, foreignTotal := 2, foreignQuota := 2, foreignChunk := 2 }
    exact hclaim a p 8 0 ⟨⟨⟨.main, 0⟩, ⟨8, 8⟩⟩, 7⟩ (by decide +kernel) (by decide)
      (by decide +kernel)

end HeapChurn
