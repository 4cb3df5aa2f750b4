import HeapChurn.Proofs.Worker.Stream

/-!
# The request stream decides

What a worker asks the allocator for, and what it reports, in terms of its request stream alone. The
layouts requested are those of the stream with the requests on the retire schedule left out, up to
the first that the allocator does not serve. Neither the burst nor the inbox comes into it, nor the
worker's number, nor what the sizes are.
-/

namespace HeapChurn

namespace Trace

variable {live new : List Event} {blocks : List Block}

/-- Foreign blocks that are handed back are not requests. -/
theorem Woven.filterMap_live {β : Type} {f : Event → Option β} (hf : ∀ b, f (.released b) = none)
    (h : Woven [live, blocks.map .released] new) : new.filterMap f = live.filterMap f := by
  refine h.filterMap_eq (i := 0) rfl fun j k hj hk => ?_
  rcases j with _ | _ | j
  · exact absurd rfl hj
  · obtain rfl := Option.some.inj hk
    simp [hf]
  · cases hk

end Trace

namespace Worker

variable {table : Histogram} {a : Allocator} {w : Worker table} {v : View}

theorem requested_run {live new : List Event} {blocks freed : List Block}
    (h : Trace.Woven [live, blocks.map .released] new) :
    Trace.requested (new ++ freed.map .released) = Trace.requested live := by
  rw [Trace.requested_append, Trace.requested_released, List.append_nil]
  exact h.filterMap_live fun _ => rfl

theorem obtained_run {live new : List Event} {blocks freed : List Block}
    (h : Trace.Woven [live, blocks.map .released] new) :
    Trace.obtained (new ++ freed.map .released) = Trace.obtained live := by
  rw [Trace.obtained_append, Trace.obtained_released, List.append_nil]
  exact h.filterMap_live fun _ => rfl

/-- Either the allocator serves every request of the stream that is not on the retire schedule, and
the worker asks for exactly these, or there is a first one that it does not serve, and the worker
has obtained those before it and fails with its size. -/
theorem run_refines_stream {id : Nat} {plan : Plan} {inbox : Option Inbox}
    (hcreate : create id plan table inbox = .ok w) (htidy : w.Tidy a v) :
    let capacity := plan.heapSlotsPerWorker
    let stream := table.stream plan.iterationsPerWorker
    let served (sizes : List Nat) : Prop := ∀ i size,
      (LiveSlots.kept capacity sizes)[i]? = some size →
        a.Serves v.journal.thread (v.journal.calls + i) size
    ∃ new, (w.run.run a v).2.journal.events.toList = v.journal.events.toList ++ new
      ∧ (served stream
          ∧ (Trace.requested new).map some
            = (LiveSlots.kept capacity stream).map Layout.forLive?
          ∧ Trace.obtained new = Trace.requested new
          ∧ (∃ report, (w.run.run a v).1 = .ok report
            ∧ report.allocations = UInt64.ofNat (LiveSlots.kept capacity stream).length
            ∧ report.retires
              = UInt64.ofNat (stream.length - (LiveSlots.kept capacity stream).length))
        ∨ ∃ done size rest, stream = done ++ size :: rest
          ∧ ¬LiveSlots.Retires capacity (done.length + 1)
          ∧ served done
          ∧ ¬a.Serves v.journal.thread
            (v.journal.calls + (LiveSlots.kept capacity done).length) size
          ∧ (Trace.obtained new).map some = (LiveSlots.kept capacity done).map Layout.forLive?
          ∧ (w.run.run a v).1 = .error (.outOfMemory size)) := by
  obtain rfl := create_eq_ok hcreate
  intro capacity stream served
  obtain ⟨result, w', v', gone, halong, hresult, hevents, -⟩ := run_along htidy rfl rfl rfl
  obtain ⟨live, new, hlive, hnew, hwoven⟩ := halong.woven
  have hserved := halong.served
  refine ⟨new ++ w'.slots.blocks.map .released, by rw [hevents, hnew, List.append_assoc], ?_⟩
  rw [hresult, requested_run hwoven, obtained_run hwoven]
  rcases LiveSlots.alone_cases a capacity v.journal stream with
    ⟨hok, new', htrack⟩ | ⟨done, size, rest, hsplit, herror, new', hbroken⟩
  · obtain rfl : result = .ok () := (congrArg Prod.fst hserved).symm.trans hok
    obtain rfl : live = new' := List.append_cancel_left (hlive.symm.trans htrack.events_eq)
    have hcounts := LiveSlots.counts_requests capacity stream
    have hslots : w'.slots.outline = .requests capacity stream.length (.start capacity) :=
      (congrArg (LiveSlots.outline ∘ Prod.snd) hserved).symm.trans htrack.outline_eq
    rw [← hslots] at hcounts
    refine Or.inl ⟨htrack.serves, ?_, htrack.requested_eq.symm, _, rfl, hcounts⟩
    rw [htrack.requested_eq]
    exact htrack.obtained_eq
  · obtain rfl : result = .error (.outOfMemory size) :=
      (congrArg Prod.fst hserved).symm.trans herror
    obtain rfl : live = new' := List.append_cancel_left (hlive.symm.trans hbroken.events_eq)
    exact Or.inr ⟨done, size, rest, hsplit, hbroken.due, hbroken.serves, hbroken.unserved,
      hbroken.obtained_eq, rfl⟩

/-- The third request is on the retire schedule. The fifth is the first that is refused. -/
theorem run_refines_stream_refused :
    let a : Allocator := { refuses := fun _ call _ => call = 3, overwrites := fun _ _ => [] }
    let table : Histogram := ⟨[⟨16, 2⟩, ⟨8, 0⟩, ⟨24, 3⟩], by decide, by decide⟩
    let plan : Plan := ⟨1, 2, 4, 3, 3, 3, some 1⟩
    let w : Worker table := ⟨0, plan, some ⟨0, [0, 2], [0, 2]⟩, .empty 2, table.start, 0⟩
    let v : View := ⟨#[some ⟨⟨⟨.main, 0⟩, ⟨16, 8⟩⟩, 0⟩, none, none], { thread := .worker 0 }⟩
    create 0 plan table (some ⟨0, [0, 2], [0, 2]⟩) = .ok w ∧ w.Tidy a v
      ∧ (w.run.run a v).1 = .error (.outOfMemory 24)
      ∧ ∃ new done rest, (w.run.run a v).2.journal.events.toList = new
        ∧ table.stream 4 = done ++ 24 :: rest ∧ ¬LiveSlots.Retires 2 (done.length + 1)
        ∧ (Trace.obtained new).map some = (LiveSlots.kept 2 done).map Layout.forLive? := by
  intro a table plan w v
  have hcreate : create 0 plan table (some ⟨0, [0, 2], [0, 2]⟩) = .ok w := rfl
  have htidy : w.Tidy a v := by
    refine ⟨fun _ => rfl, by decide, fun s hs b hb => ?_⟩
    obtain rfl | rfl : s = 0 ∨ s = 2 := by simpa [w, ahead] using hs
    · cases hb
      rfl
    · cases hb
  have hrefused : (w.run.run a v).1 = .error (.outOfMemory 24) := by decide +kernel
  refine ⟨hcreate, htidy, hrefused, ?_⟩
  obtain ⟨new, hnew, ⟨-, -, -, report, hok, -⟩
    | ⟨done, size, rest, hsplit, hdue, -, -, hobtained, herror⟩⟩ := run_refines_stream hcreate htidy
  · rw [hrefused] at hok
    cases hok
  · rw [hrefused] at herror
    cases herror
    exact ⟨new, done, rest, hnew, hsplit, hdue, hobtained⟩

end Worker

end HeapChurn
