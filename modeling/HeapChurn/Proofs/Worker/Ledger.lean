import HeapChurn.Proofs.Histogram.Stream
import HeapChurn.Proofs.LiveSlots.Ledger
import HeapChurn.Proofs.Worker.Standing

/-!
# The ledger of a worker

A worker's run as one history of its buffer: the drains that succeed or stop at a corrupt tag, the
requests of its stream up to the first that fails, and the release of everything at the end. Each
layer of the control loop adds its deeds (`Entered`), and a worker that is done leaves an `Account`,
whatever the other threads did meanwhile and wherever the worker stopped.
-/

namespace HeapChurn

open LiveSlots (Deed Ledger)

/-- The history has gone on with requests for these sizes, up to the first that failed. -/
def LiveSlots.Entered (a : Allocator) (capacity : Nat) (start : Journal) (deeds : List Deed)
    (sizes : List Nat) (complete : Prop) (s : LiveSlots) (j : Journal) : Prop :=
  ∃ more, Ledger a capacity start (deeds ++ more) s j ∧ Ledger.requested more <+: sizes
    ∧ (complete → Ledger.requested more = sizes)

namespace LiveSlots

variable {a : Allocator} {capacity : Nat} {start : Journal} {deeds : List Deed}
  {xs ys : List Nat} {p q : Prop} {s : LiveSlots} {j : Journal}

theorem Entered.nothing (h : Ledger a capacity start deeds s j) :
    Entered a capacity start deeds [] p s j :=
  ⟨[], (List.append_nil deeds).symm ▸ h, List.prefix_refl _, fun _ => rfl⟩

theorem Entered.broken (h : Entered a capacity start deeds xs p s j) (hq : ¬q) (ys : List Nat) :
    Entered a capacity start deeds (xs ++ ys) q s j := by
  obtain ⟨more, hledger, hprefix, -⟩ := h
  exact ⟨more, hledger, hprefix.trans (List.prefix_append xs ys), fun h => absurd h hq⟩

theorem Entered.failed (h : Entered a capacity start deeds xs p s j) (e : Error)
    (ys : List Nat) : Entered a capacity start deeds (xs ++ ys)
      ((.error e : Except Error Unit) = .ok ()) s j :=
  h.broken (fun hok => by cases hok) ys

theorem Entered.resumed {more : List Deed} (hmore : Ledger.requested more = xs)
    (h : Entered a capacity start (deeds ++ more) ys p s j) :
    Entered a capacity start deeds (xs ++ ys) p s j := by
  obtain ⟨rest, hledger, hprefix, hcomplete⟩ := h
  have hrequested : Ledger.requested (more ++ rest) = xs ++ Ledger.requested rest := by
    rw [Ledger.requested_append, hmore]
  refine ⟨more ++ rest, List.append_assoc deeds more rest ▸ hledger, ?_, fun hp => ?_⟩
  · rw [hrequested]
    exact (List.prefix_append_right_inj xs).mpr hprefix
  · rw [hrequested, hcomplete hp]

theorem enter_allocateMany {slots : List Nat} {held : Nat → Option Block} (size : Nat) :
    ∀ (count : Nat) {deeds : List Deed} {s : LiveSlots} {v : View}, v.Holds slots held →
      Ledger a capacity start deeds s v.journal →
      (allocateMany size count s).Ensures a (.retagging slots) v fun out w =>
        Entered a capacity start deeds (List.replicate count size) (out.1 = .ok ()) out.2 w.journal
  | 0, _, _, _, _, h => Routine.ensures_pure fun _ _ => .nothing h
  | count + 1, deeds, s, v, hv, h => by
      obtain ⟨new, hbooks⟩ := h.books
      unfold allocateMany
      refine (ensures_allocate hv hbooks.regular.vacant size).bind ?_
      rintro ⟨answer, s'⟩ w ⟨hw, hserved⟩
      have hledger := h.request hserved
      have hone : Ledger.requested [.request size answer] = [size] := rfl
      rw [show List.replicate (count + 1) size = [size] ++ List.replicate count size from rfl]
      cases answer with
      | error e =>
          refine Routine.ensures_pure fun _ _ => ?_
          exact Entered.failed (p := True) ⟨_, hledger, List.prefix_refl _, fun _ => rfl⟩ e _
      | ok x => exact (enter_allocateMany size count hw hledger).mono fun _ _ => .resumed hone

end LiveSlots

namespace Worker

open LiveSlots (Entered)

variable {table : Histogram} {a : Allocator} {id capacity : Nat} {share : List Nat}
  {held : Nat → Option Block} {start : Journal}

section Walk

variable (hnodup : share.Nodup)
  (hforeign : ∀ s ∈ share, ∀ b, held s = some b → b.id.thread ≠ .worker id)
  (hstart : start.thread = .worker id)

include hnodup hforeign hstart

theorem enter_drain {w : Worker table} {v : View} {gone : List Nat} {deeds : List Deed}
    (hw : w.Standing id capacity share held gone none v)
    (h : Ledger a capacity start deeds w.slots v.journal) (limit : Option Nat) :
    (w.drain limit).Ensures a (.retagging share) v fun out v' =>
      Entered a capacity start deeds [] (out.1 = .ok ()) out.2.slots v'.journal := by
  unfold drain
  cases hinbox : w.inbox with
  | none => exact Routine.ensures_pure fun _ _ => .nothing h
  | some inbox =>
      have hshare : share = gone ++ inbox.ahead := by
        have := hw.share_eq
        rwa [ahead, hinbox] at this
      have hahead : ∀ s ∈ inbox.ahead, s ∈ share := fun s hs =>
        hshare ▸ List.mem_append_right gone hs
      have hholds : v.Holds share (without held gone) := by simpa using hw.holds
      refine (Inbox.ensures_drain hholds (hshare ▸ hnodup) hahead).bind ?_
      rintro ⟨result, slots, worker, rest⟩ u ⟨gone', lost, hrest, -, -, hdrained⟩
      simp only at hrest hdrained
      have hother : ∀ b ∈ gone'.filterMap held, b.id.thread ≠ start.thread := fun b hb => by
        obtain ⟨s, hs, hsb⟩ := List.mem_filterMap.mp hb
        rw [hstart]
        exact hforeign s (hahead s (hrest ▸ List.mem_append_left rest hs)) b hsb
      generalize hjournal : u.journal = j at hdrained
      cases hdrained with
      | stopped hstop =>
          refine Routine.ensures_pure fun _ _ => ?_
          rw [show (View.mk _ u.journal).journal = u.journal from rfl, hjournal]
          exact ⟨[.drain _], h.drained hother, List.prefix_refl _, fun _ => rfl⟩
      | corrupt hslot htag =>
          refine Routine.ensures_pure fun _ _ => ?_
          rw [show (View.mk _ u.journal).journal = u.journal from rfl, hjournal]
          exact ⟨[.drain _], (h.drained hother).noted _, List.prefix_refl _, fun _ => rfl⟩

theorem enter_iterate {w : Worker table} {v : View} {gone : List Nat} {deeds : List Deed}
    (hw : w.Standing id capacity share held gone none v)
    (h : Ledger a capacity start deeds w.slots v.journal) :
    w.iterate.Ensures a (.retagging share) v fun out v' =>
      Entered a capacity start deeds w.sizes.bucket.requests (out.1 = .ok ()) out.2.slots
        v'.journal := by
  unfold iterate
  refine ((ensures_drain hnodup hforeign hw _).and
    (enter_drain hnodup hforeign hstart hw h w.plan.foreignBurst)).bind ?_
  rintro ⟨result, w'⟩ u ⟨⟨gone', lost, hw', -, hsizes, hcase⟩, hentered⟩
  -- a drain that fails ends the iteration before anything of its bucket is asked for
  rcases hcase with ⟨e, rfl, -⟩ | ⟨rfl, rfl, -⟩
  · exact Routine.ensures_pure fun _ _ => hentered.failed e _
  · obtain ⟨more, hledger, -, hmore⟩ := hentered
    have hsizes' : w'.sizes = w.sizes := hsizes
    refine (LiveSlots.enter_allocateMany w'.sizes.bucket.size w'.sizes.bucket.count hw'.holds
      hledger).bind ?_
    rintro ⟨result, slots⟩ x hx
    refine Routine.ensures_pure fun _ _ => ?_
    rw [hsizes'] at hx
    exact hx.resumed (hmore rfl)

theorem enter_iterations : ∀ (n : Nat) {w : Worker table} {v : View} {gone : List Nat}
    {deeds : List Deed}, w.Standing id capacity share held gone none v →
    Ledger a capacity start deeds w.slots v.journal →
    (iterations n w).Ensures a (.retagging share) v fun out v' =>
      Entered a capacity start deeds (w.sizes.stream n) (out.1 = .ok ()) out.2.slots v'.journal
  | 0, _, _, _, _, _, h => Routine.ensures_pure fun _ _ => .nothing h
  | n + 1, w, v, gone, deeds, hw, h => by
      unfold iterations
      refine ((ensures_iterate hnodup hforeign hw).and
        (enter_iterate hnodup hforeign hstart hw h)).bind ?_
      rintro ⟨result, w'⟩ u ⟨⟨gone', lost, hw', hcase⟩, hentered⟩
      rcases hcase with ⟨e, rfl, -⟩ | ⟨rfl, rfl, hsizes, -⟩
      · exact Routine.ensures_pure fun _ _ => hentered.failed e _
      · obtain ⟨more, hledger, -, hmore⟩ := hentered
        have hsizes' : w'.sizes = w.sizes.advance := hsizes
        refine (enter_iterations n hw' hledger).mono fun out x hx => ?_
        rw [hsizes'] at hx
        exact hx.resumed (hmore rfl)

theorem enter_workOff {w : Worker table} {v : View} {gone : List Nat} {deeds : List Deed}
    (hw : w.Standing id capacity share held gone none v)
    (h : Ledger a capacity start deeds w.slots v.journal) :
    w.workOff.Ensures a (.retagging share) v fun out v' =>
      Entered a capacity start deeds (w.sizes.stream w.plan.iterationsPerWorker)
        (out.1 = .ok ()) out.2.slots v'.journal := by
  unfold workOff
  refine ((ensures_iterations hnodup hforeign _ hw).and
    (enter_iterations hnodup hforeign hstart _ hw h)).bind ?_
  rintro ⟨result, w'⟩ u ⟨⟨gone', lost, hw', hcase⟩, hentered⟩
  rcases hcase with ⟨e, rfl, -⟩ | ⟨rfl, rfl, -⟩
  · have hbroken := hentered.broken (q := (Except.error e : Except Error Unit) = .ok ()) nofun []
    rw [List.append_nil] at hbroken
    exact Routine.ensures_pure fun _ _ => hbroken
  · obtain ⟨more, hledger, -, hmore⟩ := hentered
    refine (enter_drain hnodup hforeign hstart hw' hledger none).mono fun out x hx => ?_
    have hall := hx.resumed (hmore rfl)
    rw [List.append_nil] at hall
    exact hall

end Walk

/-- The history of a worker that is done. Its buffer is empty and has the figures of its report. -/
structure Account (a : Allocator) (id : Nat) (plan : Plan) (table : Histogram)
    (result : Except Error WorkerReport) (j : Journal) (deeds : List Deed) : Prop where
  ledger : ∃ s, Ledger a plan.heapSlotsPerWorker { thread := .worker id } deeds s j
    ∧ s.blocks = [] ∧ ∀ report, result = .ok report → report.allocations = s.allocated
      ∧ report.frees = s.freed ∧ report.retires = s.retires
  requested : Ledger.requested deeds <+: table.stream plan.iterationsPerWorker
  complete : ∀ report, result = .ok report →
    Ledger.requested deeds = table.stream plan.iterationsPerWorker

theorem Account.noted {plan : Plan} {result : Except Error WorkerReport} {j : Journal}
    {deeds : List Deed} (h : Account a id plan table result j deeds) (notice : Notice) :
    Account a id plan table result (j.noted notice) deeds := by
  obtain ⟨s, hledger, hempty, hreport⟩ := h.ledger
  exact ⟨⟨s, hledger.noted notice, hempty, hreport⟩, h.requested, h.complete⟩

/-- A worker that fails before it does anything. -/
theorem Account.barren (a : Allocator) (id : Nat) (plan : Plan) (table : Histogram) (e : Error) :
    Account a id plan table (.error e) { thread := .worker id } [] :=
  ⟨⟨_, .opened, LiveSlots.blocks_empty _, nofun⟩, List.nil_prefix, nofun⟩

section Threads

variable (hnodup : share.Nodup)
  (hforeign : ∀ s ∈ share, ∀ b, held s = some b → b.id.thread ≠ .worker id)

include hnodup hforeign

theorem account_run {plan : Plan} {w : Worker table} {v : View}
    (hw : w.Standing id plan.heapSlotsPerWorker share held [] none v) (hplan : w.plan = plan)
    (hsizes : w.sizes = table.start)
    (h : Ledger a plan.heapSlotsPerWorker { thread := .worker id } [] w.slots v.journal) :
    w.run.Ensures a (.retagging share) v fun result v' =>
      ∃ deeds, Account a id plan table result v'.journal deeds := by
  unfold run
  refine (Routine.ensures_note hw.holds _).bind fun _ u ⟨hu, hj⟩ => ?_
  have hstock : LiveSlots.Stock (.worker id) plan.heapSlotsPerWorker [] w.slots u.journal := by
    rw [hj]
    exact hw.stock.noted _
  have hstanding : w.Standing id plan.heapSlotsPerWorker share held [] none u :=
    ⟨hw.id_eq, hw.share_eq, hw.lost_ahead, hw.filled, hu, hstock, hw.foreignFrees⟩
  have hledger : Ledger a plan.heapSlotsPerWorker { thread := .worker id } [] w.slots
      u.journal := by
    rw [hj]
    exact h.noted _
  refine ((ensures_workOff hnodup hforeign hstanding).and
    (enter_workOff hnodup hforeign rfl hstanding hledger)).bind ?_
  rintro ⟨result, w'⟩ x ⟨⟨gone, lost, hw', -⟩, more, hmore, hrequested, hcomplete⟩
  rw [hplan, hsizes, Histogram.stream_start] at hrequested hcomplete
  refine (LiveSlots.ensures_releaseAll hw'.holds).bind ?_
  rintro ⟨_, slots⟩ y ⟨hy, hout, hj'⟩
  obtain ⟨-, rfl⟩ := Prod.mk.inj hout
  have hcleared : Ledger a plan.heapSlotsPerWorker { thread := .worker id } (more ++ [.clear])
      w'.slots.clear y.journal := by
    rw [hj']
    exact hmore.cleared
  have hempty : w'.slots.clear.blocks = [] := LiveSlots.blocks_clear _
  have hsame : Ledger.requested (more ++ [.clear]) = Ledger.requested more := by
    rw [Ledger.requested_append]
    exact List.append_nil _
  cases result with
  | error e => exact Routine.ensures_pure fun _ _ =>
      ⟨_, ⟨_, hcleared, hempty, nofun⟩, hsame ▸ hrequested, nofun⟩
  | ok _ =>
      refine (Routine.ensures_note hy _).bind fun _ z ⟨_, hj''⟩ => ?_
      refine Routine.ensures_pure fun _ _ => ⟨more ++ [.clear], ⟨_, ?_, hempty, ?_⟩,
        hsame ▸ hrequested, fun _ _ => hsame.trans (hcomplete rfl)⟩
      · rw [show (View.mk _ z.journal).journal = z.journal from rfl, hj'']
        exact hcleared.noted _
      · rintro report hreport
        obtain rfl := Except.ok.inj hreport
        exact ⟨rfl, rfl, rfl⟩

theorem account_attempt {plan : Plan} {inbox : Option Inbox} {v : View}
    (hshare : share = inbox.elim [] Inbox.ahead) (hv : v.Holds share held)
    (hj : v.journal = { thread := .worker id }) :
    (attempt id plan table inbox).Ensures a (.retagging share) v fun result v' =>
      ∃ deeds, Account a id plan table result v'.journal deeds := by
  have hholds : v.Holds share (without held []) := by simpa using hv
  unfold attempt
  rcases create_cases id plan table inbox with hcreate | hcreate
  · rw [hcreate]
    refine (Routine.ensures_reserve hholds _).bind ?_
    rintro reserved u ⟨hu, hsame⟩
    rw [hj] at hsame
    cases reserved with
    | true =>
        have hstock : LiveSlots.Stock (.worker id) plan.heapSlotsPerWorker []
            (.empty plan.heapSlotsPerWorker) u.journal := by
          rw [hsame]
          refine ⟨rfl, ?_, LiveSlots.regular_empty _⟩
          rw [LiveSlots.blocks_empty]
          exact .start (.worker id)
        refine account_run hnodup hforeign ⟨rfl, hshare, nofun, nofun, hu, hstock, fun _ => rfl⟩
          rfl rfl ?_
        rw [hsame]
        exact .opened
    | false =>
        refine Routine.ensures_pure fun _ _ => ⟨[], ?_⟩
        rw [show (View.mk _ u.journal).journal = u.journal from rfl, hsame]
        exact .barren a id plan table _
  · rw [hcreate]
    refine Routine.ensures_pure fun _ _ => ⟨[], ?_⟩
    rw [show (View.mk _ v.journal).journal = v.journal from rfl, hj]
    exact .barren a id plan table _

/-- The whole thread of a worker leaves an account, whatever its outcome. -/
theorem account_thread {plan : Plan} {inbox : Option Inbox} {v : View}
    (hshare : share = inbox.elim [] Inbox.ahead) (hv : v.Holds share held)
    (hj : v.journal = { thread := .worker id }) :
    (thread id plan table inbox).Ensures a (.retagging share) v fun result v' =>
      ∃ deeds, Account a id plan table result v'.journal deeds := by
  unfold thread
  refine ((ensures_attempt hnodup hforeign hshare hv hj).and
    (account_attempt hnodup hforeign hshare hv hj)).bind ?_
  rintro result w ⟨⟨gone, lost, hleft⟩, deeds, haccount⟩
  cases result with
  | error e =>
      refine (Routine.ensures_note hleft.holds _).bind fun _ u ⟨_, hj'⟩ => ?_
      refine Routine.ensures_pure fun _ _ => ⟨deeds, ?_⟩
      rw [show (View.mk _ u.journal).journal = u.journal from rfl, hj']
      exact haccount.noted _
  | ok r => exact Routine.ensures_pure fun _ _ => ⟨deeds, haccount⟩

end Threads

end Worker

end HeapChurn
