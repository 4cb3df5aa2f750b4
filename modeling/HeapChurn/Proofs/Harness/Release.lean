import HeapChurn.Proofs.Harness.Lives

/-!
# Blocks are released once

The ownership law of whole runs. Whatever the allocator refuses, whatever is written over the tags
and wherever the run breaks off, an allocator sees each block handed back at most once, after it was
obtained and with its layout. The blocks that are never handed back are those that a worker took out
of the pool and found mistagged, and without overwritten tags there are none.
-/

namespace HeapChurn

/-- A slot is only ever answered with a block that names it. -/
def Action.HonestAnswer : (x : Action) → x.Answer → Prop
  | .take slot, answer => ∀ b, answer = some b → b.tag = slot
  | _, _ => True

namespace Harness

theorem honestAnswer_of_honest {share : List Nat} {x : Action} (hx : x.Within share)
    {a : Allocator} {v : View} (h : v.pool.Honest) : x.HonestAnswer (x.perform a v).1 := by
  cases x with
  | take slot =>
      intro b hb
      refine h slot b ?_
      have hjoin : v.pool[slot]?.join = some b := hb
      cases hslot : v.pool[slot]? with
      | none =>
          rw [hslot] at hjoin
          cases hjoin
      | some content =>
          rw [hslot] at hjoin
          exact congrArg some hjoin
  | reserve slots => trivial
  | request layout => trivial
  | release b => trivial
  | store b => exact hx.elim
  | note notice => trivial
  | count growth => trivial

/-- A worker whose block tags nobody overwrites never reports a corrupt tag. -/
theorem ensures_excused {a : Allocator} {p : Plan} {h : Histogram} {id : Nat} {pool : PoolSlots}
    (hid : id < p.workers) (hquiet : ∀ n, a.overwrites (.worker id) n = [])
    (hpool : pool.Honest) :
    (Worker.thread id p h (p.inboxOf id)).Ensures a .honest ⟨pool, { thread := .worker id }⟩
      fun result _ => ∀ e, result = .error e → e.Excused Action.HonestAnswer := by
  have hshare : ∀ s ∈ (p.inboxOf id).elim [] Inbox.ahead, s ∈ p.share id := fun s hs => by
    rwa [Plan.ahead_inboxOf hid] at hs
  have hkept : ∀ x : Action, x.Within (p.share id) → ∀ v : View,
      v.journal.thread = .worker id → v.pool.Honest →
      x.HonestAnswer (x.perform a v).1 ∧ (x.perform a v).2.pool.Honest := fun x hx v hv hhonest =>
    ⟨honestAnswer_of_honest hx hhonest, hx.honest hquiet hv hhonest⟩
  have hothers : ∀ p q, Interference.honest.Allows p q → p.Honest → q.Honest :=
    fun _ _ hpq => hpq
  have hensures := (Worker.confined_thread id p h hshare).ensures (a := a) (v :=
    ⟨pool, { thread := .worker id }⟩) hothers hkept rfl hpool
  exact hensures.mono fun _ _ hresult => hresult.1

theorem not_corrupt {a : Allocator} (hquiet : ∀ thread n, a.overwrites thread n = [])
    (config : Config) (h : Histogram) {schedule : List Turn}
    (hschedule : ∀ o, .overwrite o ∉ schedule) {id : Nat} {f : Crew.Finished}
    (hf : (run a config h schedule).workers[id]? = some f) (slot found : Nat) :
    f.result ≠ some (.error (.corruptTag slot found)) := by
  intro hcorrupt
  rcases (ensures_prepare a config h).run_self with
    ⟨plan, layout, hok, -, -, hfilled⟩ | ⟨e, herror, -, -⟩
  · rw [run_eq_of_ok hok schedule] at hf
    have hsound : (plan.crew a h (populated a config h)).Sound a
        (fun _ => .honest) (fun id => Action.Within (plan.share id))
        (Leaves a (fun _ => .honest) (populated a config h) fun _ result _ =>
          ∀ e, result = .error e → e.Excused Action.HonestAnswer) :=
      Plan.sound_leaves fun id hid => ensures_excused hid (hquiet (.worker id))
        (hfilled.honest (hquiet .main))
    have hleaves := hsound.finished (tolerated_honest fun id => hquiet (.worker id))
      (weathered_of_acts hschedule) hf
    rw [hcorrupt] at hleaves
    obtain ⟨b, hb, htag⟩ := hleaves.2 _ rfl slot found rfl
    exact htag (hb b rfl)
  · rw [run_eq_of_error herror schedule] at hf
    cases hf

/-- The block lies at the start in a slot whose tag a worker reports. -/
def Lost (r : Run) (opened : PoolSlots) (id : BlockId) : Prop :=
  ∃ (k : Nat) (f : Crew.Finished) (slot found : Nat) (b : Block), r.workers[k]? = some f
    ∧ f.result = some (.error (.corruptTag slot found)) ∧ opened.blockAt slot = some b ∧ b.id = id

namespace Course

variable {a : Allocator} {config : Config} {h : Histogram} {r : Run} {plan : Plan}
  {layout : Layout} {opened closed : PoolSlots}
  (hc : Course a config h r plan layout opened closed)

include hc

/-- A worker reports a tag only of its own slots. -/
theorem block_of_corrupt {k slot found : Nat} {f : Crew.Finished} {b : Block}
    (hf : r.workers[k]? = some f) (hcorrupt : f.result = some (.error (.corruptTag slot found)))
    (hb : opened.blockAt slot = some b) :
    slot < plan.foreignTotal ∧ b.id = ⟨.main, slot⟩
      ∧ slot / plan.foreignChunk % plan.workers = k := by
  obtain ⟨gone, lost, hleft⟩ := hc.left hf
  obtain ⟨rest, hshare, hnext⟩ := hleft.share_eq
  have hmem : slot ∈ plan.share k := by
    rw [hshare]
    refine List.mem_append_right gone (List.mem_of_head? (hnext slot ?_))
    exact hleft.lost_iff.mpr ⟨found, Worker.ending_eq_corruptTag.mpr hcorrupt⟩
  have hblock : opened.blockAt slot = _ := blockAt_of_mem_share hc.filled hmem
  rw [hblock] at hb
  cases hb
  exact ⟨(Plan.mem_share.mp hmem).2.1, rfl, (Plan.mem_share.mp hmem).2.2⟩

theorem life_of_main {t : List Event} (ht : r.Traced t) (s : Nat) :
    (Trace.Settled (Trace.about ⟨.main, s⟩ t) ∧ ¬Lost r opened ⟨.main, s⟩)
      ∨ (∃ b, Trace.about ⟨.main, s⟩ t = [.granted b]) ∧ Lost r opened ⟨.main, s⟩ := by
  rcases Nat.lt_or_ge s plan.foreignTotal with hs | hs
  · obtain ⟨f, gone, lost, hf, hleft, hlife⟩ := hc.life_of_slot ht hs
    by_cases hlost : lost = some s
    · refine Or.inr ⟨⟨_, by rw [hlife, if_pos hlost]⟩, ?_⟩
      obtain ⟨found, hcorrupt⟩ := hleft.lost_iff.mp hlost
      exact ⟨_, f, s, found, _, hf, Worker.ending_eq_corruptTag.mp hcorrupt,
        hc.filled.block s hs, rfl⟩
    · refine Or.inl ⟨?_, ?_⟩
      · rw [hlife, if_neg hlost]
        exact .returned _
      · rintro ⟨k, f', slot, found, b, hf', hcorrupt, hb, hid⟩
        obtain ⟨-, hb', hk⟩ := hc.block_of_corrupt hf' hcorrupt hb
        rw [hb', BlockId.mk.injEq] at hid
        obtain ⟨-, rfl⟩ := hid
        rw [hk, hf'] at hf
        cases hf
        exact hlost (hleft.lost_iff.mpr ⟨found, Worker.ending_eq_corruptTag.mpr hcorrupt⟩)
  · refine Or.inl ⟨?_, ?_⟩
    · rw [hc.about_beyond ht hs]
      exact .unknown
    · rintro ⟨k, f', slot, found, b, hf', hcorrupt, hb, hid⟩
      obtain ⟨hlt, hb', -⟩ := hc.block_of_corrupt hf' hcorrupt hb
      rw [hb', BlockId.mk.injEq] at hid
      omega

/-- Every block is settled, or it is held and lost. -/
theorem life {t : List Event} (ht : r.Traced t) (id : BlockId) :
    (Trace.Settled (Trace.about id t) ∧ ¬Lost r opened id)
      ∨ (∃ b, Trace.about id t = [.granted b]) ∧ Lost r opened id := by
  obtain ⟨thread, s⟩ := id
  cases thread with
  | main => exact hc.life_of_main ht s
  | worker k =>
      refine Or.inl ⟨hc.settled_of_worker ht rfl, ?_⟩
      rintro ⟨k', f, slot, found, b, hf, hcorrupt, hb, hid⟩
      rw [(hc.block_of_corrupt hf hcorrupt hb).2.1] at hid
      cases hid

end Course

/-- Every block of every run is settled, or it is held and lost. -/
theorem run_life (a : Allocator) (config : Config) (h : Histogram) (schedule : List Turn)
    {t : List Event} (ht : (run a config h schedule).Traced t) (id : BlockId) :
    (Trace.Settled (Trace.about id t)
        ∧ ¬Lost (run a config h schedule) (populated a config h) id)
      ∨ (∃ b, Trace.about id t = [.granted b])
        ∧ Lost (run a config h schedule) (populated a config h) id := by
  rcases run_course a config h schedule with
    ⟨plan, layout, closed, hc⟩ | ⟨e, -, hworkers, hclosing, hthread, hcustody⟩
  · exact hc.life ht id
  · obtain ⟨mid, hmid, rfl⟩ := ht
    rw [hworkers] at hmid
    have hnil : Trace.about id mid = [] := hmid.filter_eq_nil nofun
    refine Or.inl ⟨?_, ?_⟩
    · rw [Trace.about_append, Trace.about_append, hnil, hclosing, List.drop_length,
        Trace.about_nil, List.append_nil, List.append_nil]
      by_cases hid : id.thread = (run a config h schedule).opening.thread
      · exact hcustody.settled_of_own hid
      · rw [hcustody.about_other hid]
        exact .unknown
    · rintro ⟨k, f, slot, found, b, hf, -⟩
      rw [hworkers] at hf
      cases hf

/-- The law of ownership: blocks are handed back once, after they were obtained and as they were
obtained, and those that are not handed back are the ones that were lost. -/
theorem run_releases_once (a : Allocator) (config : Config) (h : Histogram)
    (schedule : List Turn) {t : List Event} (ht : (run a config h schedule).Traced t) :
    Trace.Orderly t
      ∧ (∀ id, id ∈ Trace.leaked t ↔ Lost (run a config h schedule) (populated a config h) id)
      ∧ ((∀ thread n, a.overwrites thread n = []) → (∀ o, .overwrite o ∉ schedule) →
          Trace.leaked t = []) := by
  have hlife := run_life a config h schedule ht
  have hlives : ∀ id, Trace.Settled (Trace.about id t) ∨ ∃ b, Trace.about id t = [.granted b] :=
    fun id => (hlife id).imp And.left And.left
  have hleaked : ∀ id, id ∈ Trace.leaked t
      ↔ Lost (run a config h schedule) (populated a config h) id := by
    intro id
    rw [Trace.mem_leaked_of_lives (hlives id)]
    rcases hlife id with ⟨hsettled, hkept⟩ | ⟨hheld, hlost⟩
    · refine ⟨?_, fun hlost => absurd hlost hkept⟩
      rintro ⟨b, hb⟩
      rw [hb] at hsettled
      cases hsettled
    · exact ⟨fun _ => hlost, fun _ => hheld⟩
  refine ⟨Trace.orderly_of_lives hlives, hleaked, fun hquiet hschedule => ?_⟩
  refine List.eq_nil_iff_forall_not_mem.mpr fun id hid => ?_
  obtain ⟨k, f, slot, found, b, hf, hcorrupt, -⟩ := (hleaked id).mp hid
  exact not_corrupt hquiet config h hschedule hf slot found hcorrupt

/-- No worker reports: one is refused its second block, one finds its second tag overwritten, one is
denied its slots, and one is not started. -/
theorem run_releases_once_four_failures :
    let a : Allocator := {
      refuses := fun thread call _ => thread = .worker 0 && call = 1
      overwrites := fun _ _ => []
      denies := fun thread _ => thread = .worker 2
      starts := fun thread =>
        if thread = .worker 3 then .error (.other "Resource temporarily unavailable (os error 11)")
        else .ok () }
    let r := run a ⟨8, 8, 4, 17, some 1⟩ ⟨[⟨16, 2⟩], by decide, by decide⟩
      [.act 0, .act 1, .act 1, .overwrite ⟨⟨.main, 5⟩, 9⟩]
    r.Traced r.oneByOne ∧ Trace.Orderly r.oneByOne
      ∧ r.workers.map (·.result) = [some (.error (.outOfMemory 16)),
        some (.error (.corruptTag 5 9)), some (.error (.setup .liveSlots)), none]
      ∧ ⟨.main, 5⟩ ∈ Trace.leaked r.oneByOne := by
  intro a r
  obtain ⟨horderly, hleaked, -⟩ := run_releases_once a ⟨8, 8, 4, 17, some 1⟩
    ⟨[⟨16, 2⟩], by decide, by decide⟩ _ r.traced_oneByOne
  have hresults : r.workers.map (·.result) = [some (.error (.outOfMemory 16)),
      some (.error (.corruptTag 5 9)), some (.error (.setup .liveSlots)), none] := by
    decide +kernel
  refine ⟨r.traced_oneByOne, horderly, hresults, (hleaked _).mpr ?_⟩
  have hsecond := congrArg (·[1]?) hresults
  simp only [List.getElem?_map] at hsecond
  obtain ⟨f, hf, hcorrupt⟩ := Option.map_eq_some_iff.mp hsecond
  exact ⟨1, f, 5, 9, ⟨⟨.main, 5⟩, ⟨16, 8⟩⟩, hf, hcorrupt, by decide +kernel, rfl⟩

end Harness

end HeapChurn
