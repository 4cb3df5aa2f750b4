import HeapChurn.Proofs.Pool.Usage
import HeapChurn.Proofs.Routine.Counting
import HeapChurn.Proofs.Trace.Threads

/-!
# What a pool counts

The counters of a pool's life, from any journal on and whatever the pool holds. Filling counts a
block for each grant, also where a later request fails and all of them are handed back; a drain
counts a block for each return; and the returns of the roll-back and of the pool's end count for
nothing. Each routine says which events it adds and by how much the counters grow.
-/

namespace HeapChurn

open Journal (Gained)

/-- Requests of one thread for foreign blocks of one size. -/
def Event.AsksFor (blockSize : Nat) (thread : Thread) (e : Event) : Prop :=
  e.isReturn = false ∧ e.block.id.thread = thread
    ∧ Layout.forForeign? blockSize = some e.block.layout

namespace Pool

variable {a : Allocator}

theorem gained_fill (blockSize : Nat) : ∀ (count slot : Nat) (v : View), ∃ asked,
    v.journal.Gained ((fill blockSize count slot).run a v).2.journal asked
        (.stores (Trace.grants asked))
      ∧ Trace.grants asked ≤ count
      ∧ ∀ e ∈ asked, e.AsksFor blockSize v.journal.thread
  | 0, _, v => ⟨[], .refl v.journal, Nat.le_refl 0, nofun⟩
  | count + 1, slot, v => by
      unfold fill
      cases hlayout : Layout.forForeign? blockSize with
      | none => exact ⟨[], .refl v.journal, Nat.zero_le _, nofun⟩
      | some layout =>
          obtain ⟨pool, j⟩ := v
          rw [Routine.run_bind]
          simp only [Routine.requestIf, Routine.request, Routine.perform, Routine.run,
            Action.perform]
          cases hanswer : a.refuses j.thread j.calls layout.size with
          | true =>
              refine ⟨[.refused (j.nextBlock layout)], j.gained_refused _, Nat.zero_le _, ?_⟩
              intro e he
              rw [List.mem_singleton.mp he]
              exact ⟨rfl, rfl, hlayout⟩
          | false =>
              have hone := (j.gained_granted (j.nextBlock layout)).trans
                ((j.granted (j.nextBlock layout)).gained_counted .foreignAlloc)
              obtain ⟨asked, hmany, hle, hasked⟩ := gained_fill blockSize count (slot + 1)
                ⟨(pool.overwriteAll (a.overwrites j.thread j.calls)).push
                  (some ⟨j.nextBlock layout, slot⟩),
                  (j.granted (j.nextBlock layout)).counted .foreignAlloc⟩
              have hgrants : Trace.grants (.granted (j.nextBlock layout) :: asked)
                  = 1 + Trace.grants asked := Trace.grants_append [_] asked
              refine ⟨.granted (j.nextBlock layout) :: asked, ?_, ?_, ?_⟩
              · rw [hgrants, Counters.stores_add]
                exact hone.trans hmany
              · omega
              · intro e he
                rcases List.mem_cons.mp he with rfl | he
                · exact ⟨rfl, rfl, hlayout⟩
                · exact hasked e he

theorem gained_reclaim : ∀ (count slot released : Nat) (v : View), ∃ blocks : List Block,
    v.journal.Gained ((reclaim count slot released).run a v).2.journal (blocks.map .released) 0
  | 0, _, _, v => ⟨[], .refl v.journal⟩
  | count + 1, slot, released, v => by
      unfold reclaim
      rw [Routine.run_bind, Routine.run_take]
      cases v.pool[slot]?.join with
      | none =>
          obtain ⟨blocks, hrest⟩ := gained_reclaim count (slot + 1) released
            ⟨v.pool.setIfInBounds slot none, v.journal⟩
          exact ⟨blocks, hrest⟩
      | some b =>
          obtain ⟨blocks, hrest⟩ := gained_reclaim count (slot + 1) (released + 1)
            ⟨v.pool.setIfInBounds slot none, v.journal.recordEvent (.released b.block)⟩
          exact ⟨b.block :: blocks, (v.journal.gained_recorded _).trans hrest⟩

/-- What it takes to fill a pool, or to fail at it. -/
theorem gained_populate (p : Plan) (blockSize : Nat) (v : View) :
    ∃ (asked : List Event) (blocks : List Block),
      v.journal.Gained ((populate p blockSize).run a v).2.journal (asked ++ blocks.map .released)
          (.stores (Trace.grants asked))
        ∧ Trace.grants asked ≤ p.foreignTotal
        ∧ (∀ e ∈ asked, e.AsksFor blockSize v.journal.thread)
        ∧ (((populate p blockSize).run a v).1 = .ok () → blocks = []) := by
  unfold populate
  by_cases hreservable : reservable p.foreignTotal = true
  · rw [if_pos hreservable, Routine.run_bind]
    cases hreserved : ((Routine.reserve p.foreignTotal).run a v).1 with
    | false => exact ⟨[], [], .refl v.journal, Nat.zero_le _, nofun, fun _ => rfl⟩
    | true =>
        obtain ⟨asked, hfill, hle, hasked⟩ := gained_fill (a := a) blockSize p.foreignTotal 0 v
        simp only [if_true, fillUp]
        rw [show ((Routine.reserve p.foreignTotal).run a v).2 = v from rfl, Routine.run_bind]
        generalize (fill blockSize p.foreignTotal 0).run a v = out at hfill
        obtain ⟨missing, w⟩ := out
        cases missing with
        | zero =>
            refine ⟨asked, [], ?_, hle, hasked, fun _ => rfl⟩
            rw [← add_zero (Counters.stores _)]
            exact hfill.trans (w.journal.gained_noted _)
        | succ missing =>
            obtain ⟨blocks, hreclaim⟩ :=
              gained_reclaim (a := a) (p.foreignTotal - (missing + 1)) 0 0 w
            simp only [Routine.run_bind]
            refine ⟨asked, blocks, ?_, hle, hasked, nofun⟩
            rw [← add_zero (Counters.stores _)]
            exact hfill.trans hreclaim
  · rw [if_neg hreservable]
    exact ⟨[], [], .refl v.journal, Nat.zero_le _, nofun, fun _ => rfl⟩

theorem gained_tearDown (total : Nat) (v : View) : ∃ blocks : List Block,
    v.journal.Gained ((tearDown total).run a v).2.journal (blocks.map .released) 0 := by
  obtain ⟨blocks, hreclaim⟩ := gained_reclaim (a := a) total 0 0 v
  unfold tearDown
  rw [Routine.run_bind]
  generalize (reclaim total 0 0).run a v = out at hreclaim
  obtain ⟨leftover, w⟩ := out
  by_cases hleft : 0 < leftover
  · simp only [if_pos hleft]
    refine ⟨blocks, ?_⟩
    have hnoted := hreclaim.trans (w.journal.gained_noted (.leftoverReleased leftover))
    rw [List.append_nil, add_zero] at hnoted
    exact hnoted
  · simp only [if_neg hleft]
    exact ⟨blocks, hreclaim⟩

theorem gained_drainFrom (worker : Nat) (limit : Option Nat) :
    ∀ (ahead : List Nat) (freed : Nat) (v : View), ∃ blocks : List Block,
      v.journal.Gained ((Inbox.drainFrom worker ahead limit freed).run a v).2.journal
        (blocks.map .released) (.drains blocks.length)
  | [], _, v => ⟨[], .refl v.journal⟩
  | slot :: rest, freed, v => by
      unfold Inbox.drainFrom
      by_cases hlimit : limit = some freed
      · rw [if_pos hlimit]
        exact ⟨[], .refl v.journal⟩
      · rw [if_neg hlimit, Routine.run_bind, Routine.run_take]
        cases v.pool[slot]?.join with
        | none => exact ⟨[], .refl v.journal⟩
        | some b =>
            by_cases htag : b.tag = slot
            · simp only [if_pos htag]
              have hone := (v.journal.gained_recorded (.released b.block)).trans
                ((v.journal.recordEvent (.released b.block)).gained_counted .foreignFree)
              obtain ⟨blocks, hmany⟩ := gained_drainFrom worker limit rest (freed + 1)
                ⟨v.pool.setIfInBounds slot none,
                  (v.journal.recordEvent (.released b.block)).counted .foreignFree⟩
              have hdrains : Counters.drains (b.block :: blocks).length
                  = .drains 1 + .drains blocks.length := by
                rw [← Counters.drains_add, List.length_cons, Nat.add_comm]
              refine ⟨b.block :: blocks, ?_⟩
              rw [hdrains]
              exact hone.trans hmany
            · simp only [if_neg htag]
              exact ⟨[], v.journal.gained_noted _⟩

namespace Usage

theorem gained_move (p : Plan) (u : Usage) (m : Move) : ∃ blocks : List Block,
    u.view.journal.Gained (u.move a p m).view.journal (blocks.map .released)
      (.drains blocks.length) := by
  cases m with
  | session => exact ⟨[], .refl _⟩
  | overwrite o => exact ⟨[], .refl _⟩
  | drain worker limit =>
      cases hinbox : u.inboxes[worker]? with
      | none =>
          simp only [move, hinbox]
          exact ⟨[], .refl _⟩
      | some inbox =>
          obtain ⟨blocks, hdrained⟩ :=
            gained_drainFrom (a := a) inbox.worker limit inbox.ahead 0 u.view
          refine ⟨blocks, ?_⟩
          rw [move_drain hinbox]
          exact hdrained

theorem gained_follow (p : Plan) : ∀ (moves : List Move) (u : Usage), ∃ blocks : List Block,
    u.view.journal.Gained (u.follow a p moves).view.journal (blocks.map .released)
      (.drains blocks.length)
  | [], _ => ⟨[], .refl _⟩
  | m :: moves, u => by
      obtain ⟨blocks, hmove⟩ := gained_move (a := a) p u m
      obtain ⟨more, hfollow⟩ := gained_follow p moves (u.move a p m)
      refine ⟨blocks ++ more, ?_⟩
      rw [List.map_append, List.length_append, Counters.drains_add]
      exact hmove.trans hfollow

end Usage

end Pool

end HeapChurn
