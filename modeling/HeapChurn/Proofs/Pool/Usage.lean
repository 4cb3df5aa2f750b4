import HeapChurn.Proofs.Inbox.Outcome
import HeapChurn.Proofs.Inbox.Partition
import HeapChurn.Proofs.Pool.Population

/-!
# A pool in use

Between its filling and its end a pool may go through any number of sessions. Each session makes all
inboxes anew, so an inbox looks at the first slot of its share again, also where an earlier session
has emptied that slot; and a drain that fails leaves a hole without moving on. What survives any mix
of sessions, limits and failures is the shape of a share: the slots whose blocks were taken come
first in it (`Front`), and an inbox stands either where they end or in front of an empty slot
(`Stance`), and then it gets nowhere. `Kept` puts this beside the books of the pool, and each move
keeps it.
-/

namespace HeapChurn

namespace Pool

/-- What can happen to a pool. -/
inductive Move where
  /-- A session begins: all inboxes are made anew. -/
  | session
  | drain (worker : Nat) (limit : Option Nat)
  /-- A block is written over. -/
  | overwrite (o : Overwrite)
  deriving Repr, DecidableEq

/-- A pool in use, with the inboxes of the session and what the drains have answered so far. -/
structure Usage where
  view : View
  inboxes : List Inbox := []
  answers : List (Except Error Nat) := []

namespace Usage

def move (a : Allocator) (p : Plan) (u : Usage) : Move → Usage
  | .session => { u with inboxes := p.inboxes }
  | .drain worker limit =>
    match u.inboxes[worker]? with
    | none => u
    | some inbox =>
      let ((answer, inbox), view) := (inbox.drain limit).run a u.view
      { view
        inboxes := u.inboxes.set worker inbox
        answers := u.answers ++ [answer] }
  | .overwrite o => { u with view := { u.view with pool := u.view.pool.overwrite o } }

def follow (a : Allocator) (p : Plan) (moves : List Move) (u : Usage) : Usage :=
  moves.foldl (move a p) u

/-- The slots whose blocks were lost to a corrupt tag. -/
def lost (u : Usage) : List Nat :=
  u.answers.filterMap fun
    | .error (.corruptTag slot _) => some slot
    | _ => none

/-- The slots of the share that were taken come first in it. -/
def Front (share taken : List Nat) : Prop :=
  ∃ past rest, share = past ++ rest ∧ ∀ s ∈ share, s ∈ taken ↔ s ∈ past

/-- Where an inbox stands in its share. -/
inductive Stance (share taken lost : List Nat) : List Nat → Prop
  /-- Behind the slots that were taken, with none of their blocks lost. -/
  | inStep {past ahead : List Nat} (hsplit : share = past ++ ahead)
      (htaken : ∀ s ∈ share, s ∈ taken ↔ s ∈ past) (hlost : ∀ s ∈ lost, s ∉ share) :
      Stance share taken lost ahead
  /-- In front of a slot that was taken. -/
  | stuck {s : Nat} {rest : List Nat} (hs : s ∈ taken) : Stance share taken lost (s :: rest)

/-- A pool that was opened as `opened` shows. `freed` are the slots whose blocks drains have handed
back, in order. -/
structure Kept (p : Plan) (opened : View) (u : Usage) (freed : List Nat) : Prop where
  events : u.view.journal.events.toList = opened.journal.events.toList
    ++ (freed.filterMap opened.pool.blockAt).map .released
  blockAt : u.view.pool.blockAt = without opened.pool.blockAt (freed ++ u.lost)
  size : u.view.pool.size = opened.pool.size
  filled : ∀ s ∈ freed ++ u.lost, (opened.pool.blockAt s).isSome
  nodup : (freed ++ u.lost).Nodup
  pending : freed.length + u.lost.length + u.view.pool.pending = p.foreignTotal
  front : ∀ k, Front (p.share k) (freed ++ u.lost)
  lost_le : ∀ k, (u.lost.filter (· ∈ p.share k)).length ≤ 1
  suffix : ∀ k b, u.inboxes[k]? = some b → b.ahead <:+ p.share k
  stance : ∀ k b, u.inboxes[k]? = some b → Stance (p.share k) (freed ++ u.lost) u.lost b.ahead

variable {a : Allocator} {p : Plan} {opened : View} {u : Usage} {freed : List Nat}

/-! ## Lists of slots -/

section Slots

variable {share taken taken' lost lost' more ahead : List Nat}

/-- To take slots of another share is of no account. -/
theorem Front.other (h : Front share taken) (hmem : ∀ s, s ∈ taken' ↔ s ∈ taken ∨ s ∈ more)
    (hmore : ∀ s ∈ more, s ∉ share) : Front share taken' := by
  obtain ⟨past, rest, hsplit, htaken⟩ := h
  refine ⟨past, rest, hsplit, fun s hs => ?_⟩
  rw [hmem, ← htaken s hs]
  exact or_iff_left fun hs' => hmore s hs' hs

theorem Stance.other (h : Stance share taken lost ahead)
    (hmem : ∀ s, s ∈ taken' ↔ s ∈ taken ∨ s ∈ more) (hmore : ∀ s ∈ more, s ∉ share)
    (hlost' : ∀ s ∈ lost', s ∈ lost ∨ s ∈ more) : Stance share taken' lost' ahead := by
  cases h with
  | inStep hsplit htaken hlost =>
      refine .inStep hsplit (fun s hs => ?_) fun s hs => ?_
      · rw [hmem, ← htaken s hs]
        exact or_iff_left fun hs' => hmore s hs' hs
      · exact (hlost' s hs).elim (hlost s) (hmore s)
  | stuck hs => exact .stuck ((hmem _).mpr (Or.inl hs))

/-- An inbox of a new session stands before the whole share. -/
theorem Front.stance (h : Front share taken) (hlost : ∀ s ∈ lost, s ∈ taken) :
    Stance share taken lost share := by
  obtain ⟨past, rest, hsplit, htaken⟩ := h
  cases past with
  | nil =>
      refine Stance.inStep (List.nil_append share).symm htaken fun s hs hshare => ?_
      cases (htaken s hshare).mp (hlost s hs)
  | cons s past =>
      have hs : s ∈ taken := (htaken s (hsplit ▸ List.mem_cons_self)).mpr List.mem_cons_self
      rw [hsplit]
      exact .stuck hs

/-- From behind the taken slots an inbox takes slots one after the other, and if it loses the last of
them it stays in front of it. -/
theorem Stance.take {gone new rest : List Nat} (hsplit : ∃ past, share = past ++ (gone ++ rest)
      ∧ ∀ s ∈ share, s ∈ taken ↔ s ∈ past)
    (hlost : ∀ s ∈ lost, s ∉ share)
    (hnew : new = [] ∨ ∃ s rest', rest = s :: rest' ∧ new = [s])
    (hmem : ∀ s, s ∈ taken' ↔ s ∈ taken ∨ s ∈ gone ++ new) :
    Front share taken' ∧ Stance share taken' (lost ++ new) rest := by
  obtain ⟨past, hshare, htaken⟩ := hsplit
  -- a slot whose block is lost is taken, but the inbox stays in front of it
  rcases hnew with rfl | ⟨s, rest', rfl, rfl⟩
  · have htaken' : ∀ t ∈ share, t ∈ taken' ↔ t ∈ past ++ gone := by
      intro t ht
      rw [hmem, htaken t ht, List.append_nil, List.mem_append]
    have hshare' : share = (past ++ gone) ++ rest := by rw [hshare, List.append_assoc]
    refine ⟨⟨past ++ gone, rest, hshare', htaken'⟩, .inStep hshare' htaken' ?_⟩
    rw [List.append_nil]
    exact hlost
  · refine ⟨⟨past ++ (gone ++ [s]), rest', ?_, fun t ht => ?_⟩, .stuck ((hmem s).mpr ?_)⟩
    · rw [hshare]
      simp
    · rw [hmem, htaken t ht, ← List.mem_append]
    · exact Or.inr (List.mem_append_right gone List.mem_cons_self)

end Slots

/-! ## One move -/

theorem Kept.start {layout : Layout} (hfilled : Stored layout p.foreignTotal opened) :
    Kept p opened { view := opened } [] where
  events := (List.append_nil _).symm
  blockAt := (without_nil _).symm
  size := rfl
  filled := nofun
  nodup := List.nodup_nil
  pending := by
    have hall : ∀ slot ∈ opened.pool, slot.isSome = true := by
      intro slot hslot
      obtain ⟨s, hs, rfl⟩ := Array.mem_iff_getElem.mp hslot
      have hblock := hfilled.block s (hfilled.size ▸ hs)
      rw [PoolSlots.blockAt, Array.getElem?_eq_getElem hs] at hblock
      cases hcontent : opened.pool[s] with
      | none => rw [hcontent] at hblock; cases hblock
      | some b => rfl
    have hcount : opened.pool.pending = p.foreignTotal :=
      (Array.countP_eq_size.mpr hall).trans hfilled.size
    simpa [lost] using hcount
  front k := ⟨[], p.share k, rfl, fun _ _ => Iff.rfl⟩
  lost_le _ := Nat.zero_le _
  suffix _ _ h := by cases h
  stance _ _ h := by cases h

theorem Kept.session (h : Kept p opened u freed) : Kept p opened (u.move a p .session) freed := by
  have hinbox : ∀ k b, p.inboxes[k]? = some b → b.ahead = p.share k := by
    intro k b hb
    have hk : k < p.workers := by
      rw [← p.length_inboxes]
      exact (List.getElem?_eq_some_iff.mp hb).1
    rw [Plan.getElem?_inboxes hk] at hb
    cases hb
    rfl
  refine ⟨h.events, h.blockAt, h.size, h.filled, h.nodup, h.pending, h.front, h.lost_le, ?_, ?_⟩
  · intro k b hb
    exact hinbox k b hb ▸ List.suffix_refl _
  · intro k b hb
    rw [hinbox k b hb]
    exact (h.front k).stance fun s hs => List.mem_append_right freed hs

theorem Kept.overwrite (h : Kept p opened u freed) (o : Overwrite) :
    Kept p opened (u.move a p (.overwrite o)) freed := by
  refine ⟨h.events, ?_, ?_, h.filled, h.nodup, ?_, h.front, h.lost_le, h.suffix, h.stance⟩
  · funext s
    exact (u.view.pool.blockAt_overwrite o s).trans (congrFun h.blockAt s)
  · exact Array.size_map.trans h.size
  · exact (congrArg _ (u.view.pool.pending_overwrite o)).trans h.pending

theorem Kept.fresh (h : Kept p opened u freed) {s : Nat}
    (hs : (u.view.pool.blockAt s).isSome = true) : s ∉ freed ++ u.lost := by
  intro hmem
  rw [h.blockAt, without, if_pos hmem] at hs
  cases hs

/-- A drain of inbox `k`, which was `b` and is `b'` then, hands back the blocks of `gone` and loses
those of `new`. -/
structure Drawn (u : Usage) (k : Nat) (b : Inbox) (gone new : List Nat) (b' : Inbox) (u' : Usage) :
    Prop where
  inbox : u.inboxes[k]? = some b
  ahead : b.ahead = gone ++ b'.ahead
  new_cases : new = [] ∨ ∃ s rest, b'.ahead = s :: rest ∧ new = [s]
  filled : ∀ s ∈ gone ++ new, (u.view.pool.blockAt s).isSome
  pool : u'.view.pool = u.view.pool.emptied (gone ++ new)
  events : u'.view.journal.events.toList = u.view.journal.events.toList
    ++ (gone.filterMap u.view.pool.blockAt).map .released
  inboxes : u'.inboxes = u.inboxes.set k b'
  lost : u'.lost = u.lost ++ new

theorem move_drain {k : Nat} {b : Inbox} (hb : u.inboxes[k]? = some b) (limit : Option Nat) :
    u.move a p (.drain k limit)
      = { view := ((Inbox.drainFrom b.worker b.ahead limit 0).run a u.view).2
          inboxes := u.inboxes.set k
            { b with ahead := ((Inbox.drainFrom b.worker b.ahead limit 0).run a u.view).1.2 }
          answers := u.answers
            ++ [((Inbox.drainFrom b.worker b.ahead limit 0).run a u.view).1.1] } := by
  simp only [move, hb, Inbox.drain, Routine.run_bind]
  rfl

theorem exists_drawn {k : Nat} {b : Inbox} (hb : u.inboxes[k]? = some b) (hnodup : b.ahead.Nodup)
    (limit : Option Nat) :
    ∃ b' gone new, Drawn u k b gone new b' (u.move a p (.drain k limit)) := by
  obtain ⟨gone, hahead, hnames, -, hout⟩ :=
    @Inbox.outcome_drainFrom a b.worker limit b.ahead 0 u.view hnodup
  rw [move_drain hb limit]
  generalize (Inbox.drainFrom b.worker b.ahead limit 0).run a u.view = out at hahead hout
  cases hout with
  | @stopped rest hstop =>
      refine ⟨{ b with ahead := rest }, gone, [], hb, hahead, Or.inl rfl, ?_, ?_, ?_, rfl, ?_⟩
      · intro s hs
        rw [List.append_nil] at hs
        exact (hnames s hs).isSome
      · rw [List.append_nil]
      · exact Journal.events_drained _ _
      · simp [lost]
  | @mistagged s c rest hlimit hc htag =>
      refine ⟨{ b with ahead := s :: rest }, gone, [s], hb, hahead, Or.inr ⟨s, rest, rfl, rfl⟩,
        ?_, rfl, ?_, rfl, ?_⟩
      · intro t ht
        rcases List.mem_append.mp ht with ht | ht
        · exact (hnames t ht).isSome
        · rw [List.mem_singleton.mp ht, PoolSlots.blockAt_of_getElem? hc]
          rfl
      · exact Journal.events_drained _ _
      · simp [lost]

section Drawn

variable {k : Nat} {b b' : Inbox} {gone new : List Nat} {u' : Usage}
  (hd : Drawn u k b gone new b' u') (h : Kept p opened u freed)

include hd

theorem Drawn.mem_ahead {s : Nat} (hs : s ∈ gone ++ new) : s ∈ b.ahead := by
  rw [hd.ahead]
  rcases List.mem_append.mp hs with hs | hs
  · exact List.mem_append_left _ hs
  · rcases hd.new_cases with rfl | ⟨t, rest, hrest, rfl⟩
    · cases hs
    · rw [List.mem_singleton.mp hs, hrest]
      exact List.mem_append_right _ List.mem_cons_self

/-- An inbox in front of an empty slot draws nothing. -/
theorem Drawn.of_empty {s : Nat} {rest : List Nat} (hahead : b.ahead = s :: rest)
    (hs : u.view.pool.blockAt s = none) : gone = [] ∧ new = [] := by
  have hfilled : s ∉ gone ++ new := fun hmem => by
    have := hd.filled s hmem
    rw [hs] at this
    cases this
  rw [hd.ahead] at hahead
  cases gone with
  | cons t gone =>
      obtain ⟨rfl, -⟩ := List.cons.inj hahead
      exact absurd (List.mem_append_left _ List.mem_cons_self) hfilled
  | nil =>
      refine ⟨rfl, ?_⟩
      rcases hd.new_cases with hnil | ⟨t, rest', hrest, rfl⟩
      · exact hnil
      · rw [List.nil_append, hrest] at hahead
        obtain ⟨rfl, -⟩ := List.cons.inj hahead
        exact absurd (List.mem_singleton.mpr rfl) hfilled

theorem Drawn.inbox_cases {j : Nat} {c : Inbox} (hc : u'.inboxes[j]? = some c) :
    (j = k ∧ c = b') ∨ (j ≠ k ∧ u.inboxes[j]? = some c) := by
  rw [hd.inboxes] at hc
  by_cases hj : j = k
  · subst hj
    rw [List.getElem?_set_self (List.getElem?_eq_some_iff.mp hd.inbox).1] at hc
    exact Or.inl ⟨rfl, (Option.some.inj hc).symm⟩
  · rw [List.getElem?_set_ne (Ne.symm hj)] at hc
    exact Or.inr ⟨hj, hc⟩

theorem Drawn.mem_taken (s : Nat) : s ∈ freed ++ gone ++ u'.lost
    ↔ s ∈ freed ++ u.lost ∨ s ∈ gone ++ new := by
  simp only [hd.lost, List.mem_append]
  tauto

include h

theorem Drawn.mem_share {s : Nat} (hs : s ∈ gone ++ new) : s ∈ p.share k :=
  (h.suffix k b hd.inbox).subset (hd.mem_ahead hs)

theorem Drawn.notMem_share {j : Nat} (hj : j ≠ k) : ∀ s ∈ gone ++ new, s ∉ p.share j :=
  fun _ hs hs' => hj (Plan.share_disjoint hs' (hd.mem_share h hs))

theorem Drawn.nodup : (gone ++ new).Nodup := by
  have hahead : b.ahead.Nodup := (h.suffix k b hd.inbox).sublist.nodup (p.nodup_share k)
  rw [hd.ahead] at hahead
  rcases hd.new_cases with rfl | ⟨s, rest, hrest, rfl⟩
  · rw [List.append_nil]
    exact (List.nodup_append.mp hahead).1
  · rw [hrest, ← List.singleton_append, ← List.append_assoc] at hahead
    exact (List.nodup_append.mp hahead).1

theorem Drawn.fresh : ∀ s ∈ gone ++ new, s ∉ freed ++ u.lost :=
  fun s hs => h.fresh (hd.filled s hs)

/-- The share that is drawn from. -/
theorem Drawn.own : Front (p.share k) (freed ++ gone ++ u'.lost)
    ∧ Stance (p.share k) (freed ++ gone ++ u'.lost) u'.lost b'.ahead
    ∧ (u'.lost.filter (· ∈ p.share k)).length ≤ 1 := by
  have hstance := h.stance k b hd.inbox
  -- only an inbox that is in step gets anywhere, and then its share has lost no block yet
  generalize hlist : b.ahead = ahead at hstance
  cases hstance with
  | inStep hsplit htaken hnone =>
      rw [← hlist, hd.ahead] at hsplit
      obtain ⟨hfront, hstance⟩ := Stance.take ⟨_, hsplit, htaken⟩ hnone hd.new_cases hd.mem_taken
      refine ⟨hfront, hd.lost ▸ hstance, ?_⟩
      have hnil : u.lost.filter (· ∈ p.share k) = [] :=
        List.filter_eq_nil_iff.mpr fun s hs => by simpa using hnone s hs
      rw [hd.lost, List.filter_append, hnil, List.nil_append]
      refine (List.length_filter_le _ _).trans ?_
      rcases hd.new_cases with rfl | ⟨s, rest, -, rfl⟩
      · exact Nat.zero_le 1
      · exact Nat.le_refl 1
  | @stuck s rest hs =>
      have hempty : u.view.pool.blockAt s = none := by
        rw [h.blockAt, without, if_pos hs]
      obtain ⟨rfl, rfl⟩ := hd.of_empty hlist hempty
      rw [hd.lost, List.append_nil, List.append_nil]
      refine ⟨h.front k, ?_, h.lost_le k⟩
      have hsame : b.ahead = b'.ahead := hd.ahead
      rw [← hsame, hlist]
      exact .stuck hs

theorem Drawn.nodup_taken : (freed ++ gone ++ u'.lost).Nodup := by
  have hperm : (freed ++ gone ++ u'.lost).Perm (freed ++ u.lost ++ (gone ++ new)) := by
    rw [hd.lost, List.append_assoc, List.append_assoc]
    refine List.Perm.append_left freed ?_
    rw [← List.append_assoc, ← List.append_assoc]
    exact List.Perm.append_right new List.perm_append_comm
  rw [hperm.nodup_iff, List.nodup_append]
  refine ⟨h.nodup, hd.nodup h, ?_⟩
  rintro s hs t ht rfl
  exact hd.fresh h s ht hs

theorem Drawn.blockAt :
    u'.view.pool.blockAt = without opened.pool.blockAt (freed ++ gone ++ u'.lost) := by
  funext s
  rw [hd.pool, PoolSlots.blockAt_emptied, h.blockAt]
  simp only [without, hd.mem_taken]
  by_cases hs : s ∈ gone ++ new
  · rw [if_pos hs, if_pos (Or.inr hs)]
  · rw [if_neg hs]
    simp only [hs, or_false]

theorem Drawn.events_opened : u'.view.journal.events.toList = opened.journal.events.toList
    ++ ((freed ++ gone).filterMap opened.pool.blockAt).map .released := by
  have hsame : gone.filterMap u.view.pool.blockAt = gone.filterMap opened.pool.blockAt := by
    refine List.filterMap_congr fun s hs => ?_
    rw [h.blockAt, without_of_notMem (hd.fresh h s (List.mem_append_left _ hs))]
  rw [hd.events, h.events, hsame, List.filterMap_append, List.map_append, List.append_assoc]

theorem Drawn.front (j : Nat) : Front (p.share j) (freed ++ gone ++ u'.lost) := by
  by_cases hj : j = k
  · exact hj ▸ (hd.own h).1
  · exact (h.front j).other hd.mem_taken (hd.notMem_share h hj)

theorem Drawn.stance {j : Nat} {c : Inbox} (hc : u'.inboxes[j]? = some c) :
    Stance (p.share j) (freed ++ gone ++ u'.lost) u'.lost c.ahead := by
  rcases hd.inbox_cases hc with ⟨rfl, rfl⟩ | ⟨hj, hc⟩
  · exact (hd.own h).2.1
  · refine (h.stance j c hc).other hd.mem_taken (hd.notMem_share h hj) fun s hs => ?_
    rw [hd.lost, List.mem_append] at hs
    exact hs.imp_right (List.mem_append_right gone)

theorem Drawn.lost_le (j : Nat) : (u'.lost.filter (· ∈ p.share j)).length ≤ 1 := by
  by_cases hj : j = k
  · exact hj ▸ (hd.own h).2.2
  · have hnil : new.filter (· ∈ p.share j) = [] := by
      refine List.filter_eq_nil_iff.mpr fun s hs => ?_
      simpa using hd.notMem_share h hj s (List.mem_append_right gone hs)
    rw [hd.lost, List.filter_append, hnil, List.append_nil]
    exact h.lost_le j

theorem Kept.drawn : Kept p opened u' (freed ++ gone) where
  events := hd.events_opened h
  blockAt := hd.blockAt h
  size := by rw [hd.pool, PoolSlots.size_emptied, h.size]
  filled s hs := by
    rcases (hd.mem_taken s).mp hs with hs | hs
    · exact h.filled s hs
    · have hsome := hd.filled s hs
      rwa [h.blockAt, without_of_notMem (hd.fresh h s hs)] at hsome
  nodup := hd.nodup_taken h
  pending := by
    have hpending := PoolSlots.pending_emptied (hd.nodup h) hd.filled
    have := h.pending
    rw [← hd.pool, List.length_append] at hpending
    rw [hd.lost, List.length_append, List.length_append]
    omega
  front := hd.front h
  lost_le := hd.lost_le h
  suffix j c hc := by
    rcases hd.inbox_cases hc with ⟨rfl, rfl⟩ | ⟨-, hc⟩
    · have hrest : c.ahead <:+ b.ahead := hd.ahead ▸ List.suffix_append gone c.ahead
      exact hrest.trans (h.suffix j b hd.inbox)
    · exact h.suffix j c hc
  stance _ _ hc := hd.stance h hc

end Drawn

end Usage

end Pool

end HeapChurn
