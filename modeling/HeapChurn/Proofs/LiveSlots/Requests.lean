import HeapChurn.Proofs.LiveSlots.Schedule
import HeapChurn.Proofs.Routine.Run

/-!
# Requests as one stream

Requests of any sizes in a row, as one flat list. However a worker splits its requests, it comes to
this list (`allocateMany_eq`, `requests_append`). What the list comes to is fixed by the retire
schedule and by the answers of the allocator: `Track` says what holds while no request fails, and
`Broken` what holds after the first that does (`run_requests`).

`Trail` is what the two share. It says which blocks the thread obtained, and that whatever the
thread did was about blocks of its own calls since the start.
-/

namespace HeapChurn

namespace Trace

/-- The layouts that were asked for, in order. -/
def requested (events : List Event) : List Layout :=
  events.filterMap fun
    | .granted b => some b.layout
    | .refused b => some b.layout
    | .released _ => none

/-- The layouts that were asked for and granted, in order. -/
def obtained (events : List Event) : List Layout :=
  events.filterMap fun
    | .granted b => some b.layout
    | _ => none

theorem requested_append (s t : List Event) : requested (s ++ t) = requested s ++ requested t :=
  List.filterMap_append

theorem obtained_append (s t : List Event) : obtained (s ++ t) = obtained s ++ obtained t :=
  List.filterMap_append

theorem requested_released (blocks : List Block) : requested (blocks.map .released) = [] := by
  simp [requested]

theorem obtained_released (blocks : List Block) : obtained (blocks.map .released) = [] := by
  simp [obtained]

end Trace

/-- Is the block made by a call of the thread after this point? -/
def Journal.precedes (j : Journal) (b : Block) : Bool :=
  b.id.thread = j.thread && j.calls ≤ b.id.call

/-- The allocator grants the live block that this call asks for. -/
def Allocator.Serves (a : Allocator) (thread : Thread) (call size : Nat) : Prop :=
  ∃ layout, Layout.forLive? size = some layout ∧ a.refuses thread call layout.size = false

namespace LiveSlots

/-- Requests for blocks of these sizes, up to the first that fails. -/
def requests : List Nat → LiveSlots → Routine (Except Error Unit × LiveSlots)
  | [], s => return (.ok (), s)
  | size :: rest, s => do
    match ← s.allocate size with
    | (.error e, s) => return (.error e, s)
    | (.ok _, s) => requests rest s

theorem allocateMany_eq (size : Nat) : ∀ (count : Nat) (s : LiveSlots),
    allocateMany size count s = requests (List.replicate count size) s
  | 0, _ => rfl
  | count + 1, s => by
      rw [List.replicate_succ, allocateMany, requests]
      refine bind_congr fun out => ?_
      obtain ⟨result, t⟩ := out
      cases result with
      | error e => rfl
      | ok x => exact allocateMany_eq size count t

theorem requests_append : ∀ (xs ys : List Nat) (s : LiveSlots),
    requests (xs ++ ys) s = do
      match ← requests xs s with
      | (.error e, s) => return (.error e, s)
      | (.ok _, s) => requests ys s
  | [], _, _ => rfl
  | size :: xs, ys, s => by
      rw [List.cons_append, requests, requests, bind_assoc]
      refine bind_congr fun out => ?_
      obtain ⟨result, t⟩ := out
      cases result with
      | error e => rfl
      | ok x => exact requests_append xs ys t

/-! ## What the stream comes to -/

variable {a : Allocator} {capacity : Nat} {start : Journal} {sizes done : List Nat}
  {new : List Event} {s : LiveSlots} {j : Journal}

/-- What a thread with this buffer has done since `start`. `sizes` are those of the blocks that it
obtained. -/
structure Trail (start : Journal) (sizes : List Nat) (new : List Event) (s : LiveSlots)
    (j : Journal) : Prop where
  thread_eq : j.thread = start.thread
  calls_le : start.calls ≤ j.calls
  events_eq : j.events.toList = start.events.toList ++ new
  obtained_eq : (Trace.obtained new).map some = sizes.map Layout.forLive?
  precedes_new : ∀ e ∈ new, start.precedes e.block = true
  precedes_blocks : ∀ b ∈ s.blocks, start.precedes b = true

/-- A buffer that was empty at `start`, after requests of these sizes of which none failed. -/
structure Track (a : Allocator) (capacity : Nat) (start : Journal) (done : List Nat)
    (new : List Event) (s : LiveSlots) (j : Journal) : Prop extends
    Trail start (kept capacity done) new s j where
  regular : Regular capacity s
  outline_eq : s.outline = .requests capacity done.length (.start capacity)
  calls_eq : j.calls = start.calls + (kept capacity done).length
  requested_eq : Trace.requested new = Trace.obtained new
  serves : ∀ i size, (kept capacity done)[i]? = some size →
    a.Serves start.thread (start.calls + i) size

/-- The same buffer after one more request that failed. -/
structure Broken (a : Allocator) (capacity : Nat) (start : Journal) (done : List Nat) (size : Nat)
    (new : List Event) (s : LiveSlots) (j : Journal) : Prop extends
    Trail start (kept capacity done) new s j where
  due : ¬Retires capacity (done.length + 1)
  unserved : ¬a.Serves start.thread (start.calls + (kept capacity done).length) size
  serves : ∀ i size, (kept capacity done)[i]? = some size →
    a.Serves start.thread (start.calls + i) size

namespace Trail

theorem skipWindow (h : Trail start sizes new s j) : Trail start sizes new s.skipWindow j :=
  ⟨h.thread_eq, h.calls_le, h.events_eq, h.obtained_eq, h.precedes_new, by
    rw [blocks_skipWindow]
    exact h.precedes_blocks⟩

theorem counted (h : Trail start sizes new s j) (growth : Counters) :
    Trail start sizes new s (j.counted growth) :=
  ⟨h.thread_eq, h.calls_le, h.events_eq, h.obtained_eq, h.precedes_new, h.precedes_blocks⟩

/-- Handing back blocks of the buffer, all but those of `t`. -/
theorem returned (h : Trail start sizes new s j) {blocks : List Block} {t : LiveSlots}
    (hparted : s.blocks.Perm (blocks ++ t.blocks)) :
    Trail start sizes (new ++ blocks.map .released) t (j.returned blocks) := by
  have hblocks : ∀ b ∈ blocks ++ t.blocks, start.precedes b = true := fun b hb =>
    h.precedes_blocks b (hparted.mem_iff.mpr hb)
  refine ⟨(j.thread_returned _).trans h.thread_eq, ?_, ?_, ?_, ?_, ?_⟩
  · rw [j.calls_returned]
    exact h.calls_le
  · rw [j.events_returned, h.events_eq, List.append_assoc]
  · rw [Trace.obtained_append, Trace.obtained_released, List.append_nil]
    exact h.obtained_eq
  · intro e he
    rcases List.mem_append.mp he with he | he
    · exact h.precedes_new e he
    · obtain ⟨b, hb, rfl⟩ := List.mem_map.mp he
      exact hblocks b (List.mem_append_left _ hb)
  · exact fun b hb => hblocks b (List.mem_append_right _ hb)

theorem precedes_nextBlock (h : Trail start sizes new s j) (layout : Layout) :
    start.precedes (j.nextBlock layout) = true := by
  simp [Journal.precedes, Journal.nextBlock, h.thread_eq, h.calls_le]

theorem refused (h : Trail start sizes new s j) (layout : Layout) :
    Trail start sizes (new ++ [.refused (j.nextBlock layout)]) s
      (j.refused (j.nextBlock layout)) := by
  refine ⟨h.thread_eq, Nat.le_succ_of_le h.calls_le, ?_, ?_, ?_, h.precedes_blocks⟩
  · rw [← List.append_assoc, ← h.events_eq]
    exact Array.toList_push
  · rw [Trace.obtained_append, ← h.obtained_eq]
    simp [Trace.obtained]
  · intro e he
    rcases List.mem_append.mp he with he | he
    · exact h.precedes_new e he
    · obtain rfl := List.mem_singleton.mp he
      exact h.precedes_nextBlock layout

theorem granted (h : Trail start sizes new s j) {size : Nat} {layout : Layout} {t : LiveSlots}
    (hsize : Layout.forLive? size = some layout)
    (hstored : t.blocks.Perm (j.nextBlock layout :: s.blocks)) :
    Trail start (sizes ++ [size]) (new ++ [.granted (j.nextBlock layout)]) t
      (j.granted (j.nextBlock layout)) := by
  refine ⟨h.thread_eq, Nat.le_succ_of_le h.calls_le, ?_, ?_, ?_, ?_⟩
  · rw [← List.append_assoc, ← h.events_eq]
    exact Array.toList_push
  · rw [Trace.obtained_append, List.map_append, h.obtained_eq, List.map_append]
    simp [Trace.obtained, hsize, Journal.nextBlock]
  · intro e he
    rcases List.mem_append.mp he with he | he
    · exact h.precedes_new e he
    · obtain rfl := List.mem_singleton.mp he
      exact h.precedes_nextBlock layout
  · intro b hb
    rcases List.mem_cons.mp (hstored.mem_iff.mp hb) with rfl | hb
    · exact h.precedes_nextBlock layout
    · exact h.precedes_blocks b hb

end Trail

theorem run_allocate (hs : Regular capacity s) (size : Nat) (v : View) :
    Served a s size v.journal ((s.allocate size).run a v).1
      ((s.allocate size).run a v).2.journal := by
  have hv : v.Holds [] fun _ => none := nofun
  exact (ensures_allocate hv hs.vacant size).run_self.2

namespace Track

theorem empty (a : Allocator) (capacity : Nat) (j : Journal) :
    Track a capacity j [] [] (.empty capacity) j where
  thread_eq := rfl
  calls_le := Nat.le_refl _
  events_eq := (List.append_nil _).symm
  obtained_eq := rfl
  precedes_new := nofun
  precedes_blocks b hb := by
    rw [blocks_empty] at hb
    cases hb
  regular := regular_empty capacity
  outline_eq := rfl
  calls_eq := rfl
  requested_eq := rfl
  serves := nofun

theorem retires_iff (h : Track a capacity start done new s j) :
    Retires capacity (done.length + 1) ↔ s.capacity ≤ s.skipWindow.cursor := by
  rw [LiveSlots.retires_iff, ← h.outline_eq, cursor_skipWindow, h.regular.capacity_eq]

theorem outline_concat {s' : LiveSlots} (h : Track a capacity start done new s j) (size : Nat)
    (houtline : s'.outline = s.outline.request s.capacity) :
    s'.outline = .requests capacity (done ++ [size]).length (.start capacity) := by
  rw [houtline, h.outline_eq, h.regular.capacity_eq, List.length_append]
  rfl

/-- One more request that was granted. -/
theorem serves_concat (h : Track a capacity start done new s j) {size : Nat} {layout : Layout}
    (hsize : Layout.forLive? size = some layout)
    (hanswer : a.refuses j.thread j.calls layout.size = false) (i n : Nat)
    (hi : (kept capacity done ++ [size])[i]? = some n) :
    a.Serves start.thread (start.calls + i) n := by
  rcases Nat.lt_trichotomy i (kept capacity done).length with hlt | rfl | hlt
  · rw [List.getElem?_append_left hlt] at hi
    exact h.serves i n hi
  · rw [List.getElem?_concat_length] at hi
    cases hi
    rw [← h.calls_eq, ← h.thread_eq]
    exact ⟨layout, hsize, hanswer⟩
  · rw [List.getElem?_eq_none_iff.mpr (by simpa using Nat.succ_le_of_lt hlt)] at hi
    cases hi

theorem succeed {size : Nat} {x : Step} {s' : LiveSlots} {j' : Journal}
    (h : Track a capacity start done new s j) (hserved : Served a s size j (.ok x, s') j') :
    ∃ new', Track a capacity start (done ++ [size]) new' s' j' := by
  have hregular := hserved.regular h.regular
  have houtline := h.outline_concat size hserved.outline_eq
  generalize hout : (Except.ok x, s') = out at hserved
  cases hserved with
  | retired hend =>
      obtain ⟨-, rfl⟩ := Prod.mk.inj hout
      -- a request on the schedule makes no call
      have hkept : kept capacity (done ++ [size]) = kept capacity done := by
        rw [kept_concat, if_pos (h.retires_iff.mpr hend)]
      refine ⟨_, ⟨hkept ▸ (h.skipWindow.returned s.skipWindow.perm_retire).counted _, hregular,
        houtline, ?_, ?_, hkept ▸ h.serves⟩⟩
      · rw [hkept, ← h.calls_eq]
        exact j.calls_returned _
      · rw [Trace.requested_append, Trace.obtained_append, h.requested_eq,
          Trace.requested_released, Trace.obtained_released]
  | noLayout _ _ => cases hout
  | refused _ _ _ => cases hout
  | stored hroom hsize hanswer =>
      obtain ⟨-, rfl⟩ := Prod.mk.inj hout
      have hkept : kept capacity (done ++ [size]) = kept capacity done ++ [size] := by
        rw [kept_concat, if_neg (h.retires_iff.not.mpr (Nat.not_le.mpr hroom))]
      rw [← capacity_skipWindow] at hroom
      have hstored := perm_store (b := j.nextBlock ‹Layout›) hroom h.regular.vacant
      refine ⟨_, ⟨hkept ▸ (h.skipWindow.granted hsize hstored).counted _, hregular, houtline,
        ?_, ?_, ?_⟩⟩
      · rw [hkept, List.length_append]
        exact congrArg (· + 1) h.calls_eq
      · rw [Trace.requested_append, Trace.obtained_append, h.requested_eq]
        rfl
      · rw [hkept]
        exact h.serves_concat hsize hanswer

theorem fail {size : Nat} {e : Error} {s' : LiveSlots} {j' : Journal}
    (h : Track a capacity start done new s j) (hserved : Served a s size j (.error e, s') j') :
    e = .outOfMemory size ∧ ∃ new', Broken a capacity start done size new' s' j' := by
  refine ⟨hserved.error_eq rfl, ?_⟩
  generalize hout : (Except.error e, s') = out at hserved
  cases hserved with
  | retired _ => cases hout
  | stored _ _ _ => cases hout
  | noLayout hroom hsize =>
      obtain ⟨-, rfl⟩ := Prod.mk.inj hout
      refine ⟨_, ⟨h.skipWindow, h.retires_iff.not.mpr (Nat.not_le.mpr hroom), ?_, h.serves⟩⟩
      rintro ⟨layout, hlayout, -⟩
      rw [hsize] at hlayout
      cases hlayout
  | refused hroom hsize hanswer =>
      obtain ⟨-, rfl⟩ := Prod.mk.inj hout
      refine ⟨_, ⟨h.skipWindow.refused _, h.retires_iff.not.mpr (Nat.not_le.mpr hroom), ?_,
        h.serves⟩⟩
      rintro ⟨layout, hlayout, hgranted⟩
      rw [hsize, Option.some.injEq] at hlayout
      rw [← hlayout, ← h.calls_eq, ← h.thread_eq, hanswer] at hgranted
      cases hgranted

end Track

/-- A stream of requests comes to its end or to the first request that the allocator does not
serve. -/
theorem run_requests : ∀ (sizes : List Nat) {done : List Nat} {new : List Event} {s : LiveSlots}
    {v : View}, Track a capacity start done new s v.journal →
    ((requests sizes s).run a v).1.1 = .ok ()
        ∧ (∃ new', Track a capacity start (done ++ sizes) new' ((requests sizes s).run a v).1.2
          ((requests sizes s).run a v).2.journal)
      ∨ ∃ part size rest, sizes = part ++ size :: rest
        ∧ ((requests sizes s).run a v).1.1 = .error (.outOfMemory size)
        ∧ ∃ new', Broken a capacity start (done ++ part) size new'
          ((requests sizes s).run a v).1.2 ((requests sizes s).run a v).2.journal
  | [], done, new, s, v, h => by
      rw [List.append_nil]
      exact Or.inl ⟨rfl, new, h⟩
  | size :: rest, done, new, s, v, h => by
      have hserved := run_allocate (a := a) h.regular size v
      rw [requests, Routine.run_bind]
      generalize (s.allocate size).run a v = out at hserved
      obtain ⟨⟨result, s'⟩, v'⟩ := out
      cases result with
      | error e =>
          obtain ⟨rfl, new', hbroken⟩ := h.fail hserved
          refine Or.inr ⟨[], size, rest, rfl, rfl, new', ?_⟩
          rw [List.append_nil]
          exact hbroken
      | ok x =>
          obtain ⟨new', htrack⟩ := h.succeed hserved
          rcases run_requests rest htrack with ⟨hok, hend⟩ | ⟨part, n, rest', hsplit, hend⟩
          · rw [List.append_assoc] at hend
            exact Or.inl ⟨hok, hend⟩
          · rw [List.append_assoc] at hend
            exact Or.inr ⟨size :: part, n, rest', congrArg _ hsplit, hend⟩

/-! ## A stream alone -/

/-- A buffer that serves a stream of requests on a thread that does nothing else. -/
def alone (a : Allocator) (capacity : Nat) (start : Journal) (sizes : List Nat) :
    (Except Error Unit × LiveSlots) × View :=
  (requests sizes (.empty capacity)).run a ⟨#[], start⟩

theorem alone_append_ok {xs : List Nat} (h : (alone a capacity start xs).1 = (.ok (), s))
    (ys : List Nat) :
    alone a capacity start (xs ++ ys) = (requests ys s).run a (alone a capacity start xs).2 := by
  unfold alone at h ⊢
  rw [requests_append, Routine.run_bind, h]

theorem alone_append_error {e : Error} {xs : List Nat}
    (h : (alone a capacity start xs).1 = (.error e, s)) (ys : List Nat) :
    alone a capacity start (xs ++ ys) = alone a capacity start xs := by
  unfold alone at h ⊢
  rw [requests_append, Routine.run_bind, h]
  exact Prod.ext h.symm rfl

theorem alone_cases (a : Allocator) (capacity : Nat) (start : Journal) (sizes : List Nat) :
    (alone a capacity start sizes).1.1 = .ok ()
        ∧ (∃ new, Track a capacity start sizes new (alone a capacity start sizes).1.2
          (alone a capacity start sizes).2.journal)
      ∨ ∃ done size rest, sizes = done ++ size :: rest
        ∧ (alone a capacity start sizes).1.1 = .error (.outOfMemory size)
        ∧ ∃ new, Broken a capacity start done size new (alone a capacity start sizes).1.2
          (alone a capacity start sizes).2.journal :=
  @run_requests a capacity start sizes [] [] (.empty capacity) ⟨#[], start⟩
    (.empty a capacity start)

theorem alone_trail (a : Allocator) (capacity : Nat) (start : Journal) (sizes : List Nat) :
    ∃ obtained new, Trail start obtained new (alone a capacity start sizes).1.2
      (alone a capacity start sizes).2.journal := by
  rcases alone_cases a capacity start sizes with
    ⟨-, new, htrack⟩ | ⟨done, size, rest, -, -, new, hbroken⟩
  · exact ⟨_, new, htrack.toTrail⟩
  · exact ⟨_, new, hbroken.toTrail⟩

end LiveSlots

end HeapChurn
