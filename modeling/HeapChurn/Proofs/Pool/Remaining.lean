import HeapChurn.Proofs.Plan.Hands
import HeapChurn.Proofs.Pool.Sessions

/-!
# What remains for an inbox

The figure that an inbox calls remaining is made of slots when its session begins, and each block
that is freed takes one away. So it is the number of blocks yet to be freed as long as every slot held one
at the beginning. A later session over a share that was begun before counts the empty slots too, and it
never gets past them, since the first of them is the first slot of the share.

`Since` says how an inbox stands to the pool of its session's beginning and to the pool of now: it has
followed its own frees, or it has not moved. Each move keeps it as long as no tag is damaged, and
`remaining_eq` reads the figure off it.
-/

namespace HeapChurn

namespace Pool

/-- How many of the slots hold a block. -/
def filledIn (held : Nat → Option Block) (slots : List Nat) : Nat :=
  slots.countP fun s => (held s).isSome

/-- How many of the slots are empty. -/
def vacantIn (held : Nat → Option Block) (slots : List Nat) : Nat :=
  slots.countP fun s => (held s).isNone

section Figures

variable {held : Nat → Option Block} {slots : List Nat}

theorem filledIn_add_vacantIn (held : Nat → Option Block) (slots : List Nat) :
    filledIn held slots + vacantIn held slots = slots.length := by
  rw [filledIn, vacantIn, List.length_eq_countP_add_countP fun s => (held s).isSome]
  congr 1
  refine List.countP_congr fun s _ => ?_
  simp

theorem filledIn_eq_length (h : ∀ s ∈ slots, (held s).isSome) : filledIn held slots = slots.length :=
  List.countP_eq_length.mpr h

theorem filledIn_eq_zero (h : ∀ s ∈ slots, held s = none) : filledIn held slots = 0 := by
  refine List.countP_eq_zero.mpr fun s hs => ?_
  simp [h s hs]

theorem vacantIn_eq_zero_iff : vacantIn held slots = 0 ↔ ∀ s ∈ slots, (held s).isSome := by
  rw [vacantIn, List.countP_eq_zero]
  refine forall₂_congr fun s _ => ?_
  cases held s <;> simp

theorem filledIn_congr {now : Nat → Option Block} (h : ∀ s ∈ slots, now s = held s) :
    filledIn now slots = filledIn held slots :=
  List.countP_congr fun s hs => by rw [h s hs]

/-- The blocks of a pool, counted by their slots. -/
theorem filledIn_range (pool : PoolSlots) :
    filledIn pool.blockAt (List.range pool.size) = pool.pending := by
  rw [← length_occupied, occupied, filledIn, List.countP_eq_length_filter]

/-- What is counted share by share is counted over the whole pool. -/
theorem sum_countP_share {p : Plan} (hchunk : p.foreignChunk ≠ 0) (hworkers : p.workers ≠ 0)
    (ok : Nat → Bool) : ((List.range p.workers).map fun k => (p.share k).countP ok).sum
      = (List.range p.foreignTotal).countP ok := by
  have hsum := Plan.sum_length_filter (f := (· / p.foreignChunk % p.workers)) (n := p.workers)
    ((List.range p.foreignTotal).filter ok) fun s _ => Nat.mod_lt _ (Nat.pos_of_ne_zero hworkers)
  rw [← List.countP_eq_length_filter] at hsum
  rw [← hsum]
  congr 1
  refine List.map_congr_left fun k _ => ?_
  rw [Plan.share, if_neg hchunk, List.countP_eq_length_filter, List.filter_comm]

end Figures

/-! ## An inbox since its session began -/

/-- How an inbox with these slots ahead stands in its share. `first` are the blocks at the beginning
of the session, `now` the blocks by now. -/
inductive Since (share : List Nat) (first now : Nat → Option Block) : List Nat → Prop
  /-- The share was whole, and the inbox has freed it up to where it stands. -/
  | whole {past ahead : List Nat} (hsplit : share = past ++ ahead)
      (hfirst : ∀ s ∈ share, (first s).isSome) (hpast : ∀ s ∈ past, now s = none)
      (hahead : ∀ s ∈ ahead, (now s).isSome) : Since share first now ahead
  /-- The share was begun before, and the inbox is where it was. -/
  | begun {s : Nat} {rest : List Nat} (hshare : share = s :: rest) (hfirst : first s = none)
      (hsame : ∀ t ∈ share, now t = first t) : Since share first now share

namespace Since

variable {share ahead : List Nat} {first now : Nat → Option Block}

theorem length_ahead (h : Since share first now ahead) :
    ahead.length = filledIn now share + vacantIn first share := by
  cases h with
  | @whole past _ hsplit hfirst hpast hahead =>
      have hfilled : filledIn now share = filledIn now past + filledIn now ahead := by
        rw [hsplit]
        exact List.countP_append
      rw [hfilled, filledIn_eq_zero hpast, filledIn_eq_length hahead,
        vacantIn_eq_zero_iff.mpr hfirst]
      omega
  | begun hshare hfirst hsame =>
      rw [filledIn_congr hsame, filledIn_add_vacantIn]

theorem isSuffix (h : Since share first now ahead) : ahead <:+ share := by
  cases h with
  | whole hsplit hfirst hpast hahead =>
      rw [hsplit]
      exact List.suffix_append _ _
  | begun hshare hfirst hsame => exact List.suffix_refl _

/-- What happens elsewhere in the pool does not matter. -/
theorem elsewhere (h : Since share first now ahead) {later : Nat → Option Block}
    (hsame : ∀ s ∈ share, later s = now s) : Since share first later ahead := by
  cases h with
  | whole hsplit hfirst hpast hahead =>
      refine .whole hsplit hfirst (fun s hs => ?_) fun s hs => ?_
      · rw [hsame s (hsplit ▸ List.mem_append_left _ hs)]
        exact hpast s hs
      · rw [hsame s (hsplit ▸ List.mem_append_right _ hs)]
        exact hahead s hs
  | begun hshare hfirst hsame' =>
      exact .begun hshare hfirst fun t ht => (hsame t ht).trans (hsame' t ht)

/-- The slots of `gone` are freed, and they are the next ones. -/
theorem freed {gone rest : List Nat} (h : Since share first now ahead) (hnodup : share.Nodup)
    (hahead : ahead = gone ++ rest) (hgone : ∀ s ∈ gone, (now s).isSome) :
    Since share first (without now gone) rest := by
  cases h with
  | @whole past _ hsplit hfirst hpast hahead' =>
      rw [hahead] at hsplit hahead'
      have hsplit' : share = (past ++ gone) ++ rest := by rw [hsplit, List.append_assoc]
      refine .whole hsplit' hfirst ?_ ?_
      · intro s hs
        by_cases hmem : s ∈ gone
        · rw [without, if_pos hmem]
        · rw [without_of_notMem hmem]
          exact hpast s ((List.mem_append.mp hs).resolve_right hmem)
      · intro s hs
        rw [hsplit, List.nodup_append, List.nodup_append] at hnodup
        have hmem : s ∉ gone := fun hmem => hnodup.2.1.2.2 s hmem s hs rfl
        rw [without_of_notMem hmem]
        exact hahead' s (List.mem_append_right gone hs)
  | @begun s tail hshare hfirst hsame =>
      cases gone with
      | nil =>
          rw [without_nil, ← show share = rest from hahead]
          exact .begun hshare hfirst hsame
      | cons t gone =>
          -- the slot in front is empty
          obtain rfl : s = t := by
            rw [hshare] at hahead
            exact (List.cons.inj hahead).1
          have hfilled := hgone s List.mem_cons_self
          rw [hsame s (hshare ▸ List.mem_cons_self), hfirst] at hfilled
          cases hfilled

end Since

namespace Usage

variable {a : Allocator} {p : Plan} {opened : View} {layout : Layout} {u : Usage} {freed : List Nat}

/-- No move writes over a tag. -/
def Undamaged (moves : List Move) : Prop := ∀ o, .overwrite o ∉ moves

/-- All tags are right, and none was ever found wrong. -/
structure Intact (u : Usage) : Prop where
  honest : u.view.pool.Honest
  lost_eq : u.lost = []

/-- The inboxes of the session list the shares of the plan, and each stands in its share as `Since`
says. -/
structure Abreast (p : Plan) (first : Nat → Option Block) (u : Usage) : Prop where
  slots : u.inboxes.map (·.slots) = (List.range p.workers).map p.share
  since : ∀ k b, u.inboxes[k]? = some b → Since (p.share k) first u.view.pool.blockAt b.ahead

/-! ## One move -/

theorem Drawn.honest {k : Nat} {b b' : Inbox} {gone new : List Nat} {u' : Usage}
    (hd : Drawn u k b gone new b' u') (h : u.view.pool.Honest) : u'.view.pool.Honest := by
  rw [hd.pool]
  generalize gone ++ new = slots
  generalize u.view.pool = pool at h
  induction slots generalizing pool with
  | nil => exact h
  | cons s slots ih => exact ih _ (h.emptied s)

/-- A drain finds no wrong tag where there is none. -/
theorem Intact.drain (h : u.Intact) (hkept : Kept p opened u freed) {k : Nat} {b : Inbox}
    (hb : u.inboxes[k]? = some b) (limit : Option Nat) :
    (u.move a p (.drain k limit)).Intact
      ∧ ∃ b' gone, Drawn u k b gone [] b' (u.move a p (.drain k limit)) := by
  have hnodup : b.ahead.Nodup := (hkept.suffix k b hb).sublist.nodup (p.nodup_share k)
  obtain ⟨b', gone, new, hd⟩ := exists_drawn (a := a) (p := p) hb hnodup limit
  obtain ⟨pool, hrun, -⟩ := @Inbox.run_drainFrom a b.worker limit b.ahead 0 u.view hnodup
    (fun s _ c hc => h.honest s c hc) fun _ _ => Nat.zero_le _
  have hlost : (u.move a p (.drain k limit)).lost = [] := by
    rw [move_drain hb, hrun]
    simp only [lost, List.filterMap_append]
    exact (congrArg (· ++ []) h.lost_eq).trans rfl
  have hnew : new = [] := by
    have hempty := hd.lost
    rw [hlost, h.lost_eq, List.nil_append] at hempty
    exact hempty.symm
  subst hnew
  exact ⟨⟨hd.honest h.honest, hlost⟩, b', gone, hd⟩

/-- A drain lists the slots of no inbox anew. -/
theorem slots_drain {k : Nat} {b : Inbox} (hb : u.inboxes[k]? = some b) (limit : Option Nat) :
    (u.move a p (.drain k limit)).inboxes.map (·.slots) = u.inboxes.map (·.slots) := by
  obtain ⟨hk, hget⟩ := List.getElem?_eq_some_iff.mp hb
  have hk' : k < (u.inboxes.map (·.slots)).length := by
    rw [List.length_map]
    exact hk
  have hslots : (u.inboxes.map (·.slots))[k] = b.slots := by rw [List.getElem_map, hget]
  rw [move_drain hb, List.map_set, ← hslots]
  exact List.set_getElem_self hk'

theorem Intact.move (h : u.Intact) (hkept : Kept p opened u freed) {m : Move}
    (hm : ∀ o, m ≠ .overwrite o) : (u.move a p m).Intact := by
  cases m with
  | session => exact ⟨h.honest, h.lost_eq⟩
  | overwrite o => exact absurd rfl (hm o)
  | drain k limit =>
      cases hb : u.inboxes[k]? with
      | none =>
          have hsame : u.move a p (.drain k limit) = u := by simp only [Usage.move, hb]
          rw [hsame]
          exact h
      | some b => exact (h.drain hkept hb limit).1

theorem Abreast.move {first : Nat → Option Block} (h : Abreast p first u)
    (hkept : Kept p opened u freed) (hintact : u.Intact) {m : Move}
    (hm : ∀ o, m ≠ .overwrite o) (hsession : m ≠ .session) :
    Abreast p first (u.move a p m) := by
  cases m with
  | session => exact absurd rfl hsession
  | overwrite o => exact absurd rfl (hm o)
  | drain k limit =>
      cases hb : u.inboxes[k]? with
      | none =>
          have hsame : u.move a p (.drain k limit) = u := by simp only [Usage.move, hb]
          rw [hsame]
          exact h
      | some b =>
          obtain ⟨-, b', gone, hd⟩ := hintact.drain (a := a) hkept hb limit
          have hpool : (u.move a p (.drain k limit)).view.pool.blockAt
              = without u.view.pool.blockAt gone := by
            rw [hd.pool, PoolSlots.blockAt_emptied, List.append_nil]
          refine ⟨(slots_drain hb limit).trans h.slots, fun j c hc => ?_⟩
          rw [hpool]
          rcases hd.inbox_cases hc with ⟨rfl, rfl⟩ | ⟨hj, hc⟩
          · refine (h.since j b hb).freed (p.nodup_share j) hd.ahead fun s hs => ?_
            exact hd.filled s (List.mem_append_left _ hs)
          · refine (h.since j c hc).elsewhere fun s hs => without_of_notMem fun hgone => ?_
            exact hd.notMem_share hkept hj s (List.mem_append_left _ hgone) hs

section Steps

variable (hfilled : Stored layout p.foreignTotal opened)

include hfilled

/-- A new session stands in front of every share. -/
theorem Kept.abreast (h : Kept p opened u freed) :
    Abreast p u.view.pool.blockAt (u.move a p .session) := by
  refine ⟨?_, fun k b hb => ?_⟩
  · refine List.ext_getElem? fun k => ?_
    show (p.inboxes.map (·.slots))[k]? = _
    rcases Nat.lt_or_ge k p.workers with hk | hk
    · simp [Plan.getElem?_inboxes hk, hk]
    · simp [p.length_inboxes, hk]
  · have hk : k < p.workers := by
      rw [← p.length_inboxes]
      exact (List.getElem?_eq_some_iff.mp hb).1
    have hfresh : b = ⟨k, p.share k, p.share k⟩ :=
      Option.some.inj (hb.symm.trans (Plan.getElem?_inboxes hk))
    rw [hfresh]
    obtain ⟨taken, left, hsplit, htaken, hleft⟩ := h.exists_split hfilled k
    cases taken with
    | nil =>
        have hwhole : ∀ s ∈ p.share k, (u.view.pool.blockAt s).isSome := fun s hs => by
          rw [hsplit] at hs
          exact hleft s hs
        exact .whole (List.nil_append _).symm hwhole nofun hwhole
    | cons s taken => exact .begun hsplit (htaken s List.mem_cons_self) fun _ _ => rfl

/-! ## Many moves -/

theorem Intact.follow : ∀ (moves : List Move) {u : Usage} {freed : List Nat}, u.Intact →
    Kept p opened u freed → Undamaged moves → (u.follow a p moves).Intact
  | [], _, _, h, _, _ => h
  | m :: moves, u, freed, h, hkept, hm => by
      obtain ⟨more, hkept', -, -⟩ := hkept.move (a := a) hfilled m
      have hstep : (u.move a p m).Intact := h.move hkept fun o heq =>
        hm o (heq ▸ List.mem_cons_self)
      exact hstep.follow moves hkept' fun o ho => hm o (List.mem_cons_of_mem m ho)

theorem Abreast.follow {first : Nat → Option Block} : ∀ (moves : List Move) {u : Usage}
    {freed : List Nat}, Abreast p first u → Kept p opened u freed → u.Intact →
    Undamaged moves → .session ∉ moves → Abreast p first (u.follow a p moves)
  | [], _, _, h, _, _, _, _ => h
  | m :: moves, u, freed, h, hkept, hintact, hm, hsession => by
      have hfirst : ∀ o, m ≠ .overwrite o := fun o heq => hm o (heq ▸ List.mem_cons_self)
      have hdrain : m ≠ .session := fun heq => hsession (heq ▸ List.mem_cons_self)
      obtain ⟨more, hkept', -, -⟩ := hkept.move (a := a) hfilled m
      have hstep : Abreast p first (u.move a p m) := h.move hkept hintact hfirst hdrain
      exact hstep.follow moves hkept' (hintact.move hkept hfirst)
        (fun o ho => hm o (List.mem_cons_of_mem m ho)) fun hs =>
          hsession (List.mem_cons_of_mem m hs)

end Steps

/-! ## What the figure says -/

/-- A drain of the inbox under this limit frees so many blocks. -/
def Frees (a : Allocator) (b : Inbox) (limit : Option Nat) (v : View) (n : Nat) : Prop :=
  ((b.drain limit).run a v).1.1 = .ok n
    ∧ ∃ blocks : List Block, blocks.length = n
      ∧ ((b.drain limit).run a v).2.journal.events.toList
        = v.journal.events.toList ++ blocks.map .released

/-- The inboxes tell how many blocks they have yet to free. -/
def Tells (a : Allocator) (p : Plan) (u : Usage) : Prop :=
  (∀ b ∈ u.inboxes, b.remaining = filledIn u.view.pool.blockAt b.slots
      ∧ Frees a b none u.view b.remaining)
    ∧ (p.workers ≠ 0 → p.foreignChunk ≠ 0 →
      (u.inboxes.map Inbox.remaining).sum = u.view.pool.pending)

section Figure

variable {first : Nat → Option Block}

theorem Abreast.exists_since (h : Abreast p first u) {b : Inbox} (hb : b ∈ u.inboxes) :
    ∃ k, b.slots = p.share k ∧ Since (p.share k) first u.view.pool.blockAt b.ahead := by
  obtain ⟨k, hk⟩ := List.mem_iff_getElem?.mp hb
  have hslots := congrArg (·[k]?) h.slots
  simp only [List.getElem?_map, hk, Option.map_some] at hslots
  obtain ⟨j, hj, hshare⟩ := Option.map_eq_some_iff.mp hslots.symm
  obtain ⟨hlt, hjk⟩ := List.getElem?_eq_some_iff.mp hj
  rw [List.getElem_range] at hjk
  subst hjk
  exact ⟨k, hshare.symm, h.since k b hk⟩

theorem Abreast.remaining_eq (h : Abreast p first u) {b : Inbox} (hb : b ∈ u.inboxes) :
    b.remaining = filledIn u.view.pool.blockAt b.slots + vacantIn first b.slots := by
  obtain ⟨k, hslots, hsince⟩ := h.exists_since hb
  rw [hslots]
  exact hsince.length_ahead

/-- A drain frees as many blocks as it reaches. -/
theorem frees_reach {b : Inbox} {v : View} (hnodup : b.ahead.Nodup)
    (hlabelled : v.pool.Labelled b.ahead) :
    Frees a b none v (Inbox.reach v.pool none 0 b.ahead).length := by
  obtain ⟨pool, hrun, -⟩ := @Inbox.run_drainFrom a b.worker none b.ahead 0 v hnodup hlabelled
    fun _ hl => by cases hl
  have hfilled : ∀ s ∈ Inbox.reach v.pool none 0 b.ahead, (v.pool.blockAt s).isSome := by
    intro s hs
    have hsome := List.mem_takeWhile_imp hs
    exact hsome
  rw [Frees, Inbox.drain, Routine.run_bind, hrun]
  refine ⟨congrArg Except.ok (Nat.zero_add _), _, ?_, Journal.events_drained _ _⟩
  rw [List.length_filterMap_eq_countP]
  exact List.countP_eq_length.mpr hfilled

/-- How far a drain without a limit gets: to the end if the share was whole, and nowhere if not. -/
theorem length_reach {share ahead : List Nat} {pool : PoolSlots}
    (h : Since share first pool.blockAt ahead) : (Inbox.reach pool none 0 ahead).length
      = if vacantIn first share = 0 then ahead.length else 0 := by
  cases h with
  | whole hsplit hfirst hpast hahead =>
      rw [if_pos (vacantIn_eq_zero_iff.mpr hfirst), Inbox.reach_of_filled hahead]
      rfl
  | @begun s rest hshare hfirst hsame =>
      have hs : s ∈ share := hshare ▸ List.mem_cons_self
      have hvacant : vacantIn first share ≠ 0 := fun hzero => by
        have hsome := vacantIn_eq_zero_iff.mp hzero s hs
        rw [hfirst] at hsome
        cases hsome
      have hreach : Inbox.reach pool none 0 (s :: rest) = [] := by
        rw [Inbox.reach_cons (fun _ hl => by cases hl) (by simp), hsame s hs, hfirst]
        rfl
      rw [if_neg hvacant, hshare, hreach]
      rfl

/-- A drain frees what the inbox calls remaining if its share was whole, and nothing if not. -/
theorem Abreast.frees (h : Abreast p first u) (hintact : u.Intact) {b : Inbox}
    (hb : b ∈ u.inboxes) :
    Frees a b none u.view (if vacantIn first b.slots = 0 then b.remaining else 0) := by
  obtain ⟨k, hslots, hsince⟩ := h.exists_since hb
  have hnodup : b.ahead.Nodup := hsince.isSuffix.sublist.nodup (p.nodup_share k)
  have hfrees : Frees a b none u.view (Inbox.reach u.view.pool none 0 b.ahead).length :=
    frees_reach hnodup fun s _ c hc => hintact.honest s c hc
  rw [length_reach hsince, ← hslots] at hfrees
  exact hfrees

/-- What is counted inbox by inbox is counted over the whole pool. -/
theorem Abreast.sum_countP (h : Abreast p first u) (hchunk : p.foreignChunk ≠ 0)
    (hworkers : p.workers ≠ 0) (ok : Nat → Bool) :
    (u.inboxes.map fun b => b.slots.countP ok).sum = (List.range p.foreignTotal).countP ok := by
  have hmap : (u.inboxes.map fun b => b.slots.countP ok)
      = (u.inboxes.map (·.slots)).map (List.countP ok) := by
    rw [List.map_map]
    rfl
  rw [hmap, h.slots, List.map_map]
  exact sum_countP_share hchunk hworkers ok

/-- What the inboxes call remaining, all together. -/
theorem Abreast.sum_remaining (h : Abreast p first u) (hchunk : p.foreignChunk ≠ 0)
    (hworkers : p.workers ≠ 0) :
    (u.inboxes.map Inbox.remaining).sum
      = filledIn u.view.pool.blockAt (List.range p.foreignTotal)
        + vacantIn first (List.range p.foreignTotal) := by
  have hmap : u.inboxes.map Inbox.remaining = u.inboxes.map fun b =>
      filledIn u.view.pool.blockAt b.slots + vacantIn first b.slots :=
    List.map_congr_left fun b hb => h.remaining_eq hb
  rw [hmap, List.sum_map_add]
  exact congrArg₂ (· + ·) (h.sum_countP hchunk hworkers _) (h.sum_countP hchunk hworkers _)

theorem Abreast.sum_remaining_add {pool : PoolSlots} (h : Abreast p pool.blockAt u)
    (hpool : pool.size = p.foreignTotal) (hsize : u.view.pool.size = p.foreignTotal)
    (hchunk : p.foreignChunk ≠ 0) (hworkers : p.workers ≠ 0) :
    (u.inboxes.map Inbox.remaining).sum + pool.pending
      = u.view.pool.pending + p.foreignTotal := by
  have hslots : filledIn pool.blockAt (List.range p.foreignTotal)
      + vacantIn pool.blockAt (List.range p.foreignTotal) = p.foreignTotal := by
    rw [filledIn_add_vacantIn, List.length_range]
  have hfirst := filledIn_range pool
  have hnow := filledIn_range u.view.pool
  rw [hpool] at hfirst
  rw [hsize] at hnow
  rw [h.sum_remaining hchunk hworkers]
  omega

/-- The inboxes tell the truth just when every share of theirs was whole at the beginning. -/
theorem Abreast.tells_iff (h : Abreast p first u) (hintact : u.Intact)
    (hsize : u.view.pool.size = p.foreignTotal) :
    u.Tells a p ↔ ∀ b ∈ u.inboxes, vacantIn first b.slots = 0 := by
  refine ⟨fun htells b hb => ?_, fun hwhole => ⟨fun b hb => ?_, fun hworkers hchunk => ?_⟩⟩
  · have hcount := (htells.1 b hb).1
    have heq := h.remaining_eq hb
    omega
  · refine ⟨by rw [h.remaining_eq hb, hwhole b hb, Nat.add_zero], ?_⟩
    have hfrees := h.frees (a := a) hintact hb
    rwa [if_pos (hwhole b hb)] at hfrees
  · have hvacant : vacantIn first (List.range p.foreignTotal) = 0 := by
      rw [vacantIn, ← h.sum_countP hchunk hworkers]
      refine List.sum_eq_zero fun n hn => ?_
      obtain ⟨b, hb, rfl⟩ := List.mem_map.mp hn
      exact hwhole b hb
    rw [h.sum_remaining hchunk hworkers, hvacant, ← hsize, filledIn_range, Nat.add_zero]

end Figure

/-- Without inboxes nothing is drained. -/
theorem follow_of_no_session : ∀ (moves : List Move) {u : Usage}, u.inboxes = [] →
    Undamaged moves → .session ∉ moves → u.follow a p moves = u
  | [], _, _, _, _ => rfl
  | m :: moves, u, hnone, hm, hsession => by
      have hstep : u.move a p m = u := by
        cases m with
        | session => exact absurd List.mem_cons_self hsession
        | overwrite o => exact absurd List.mem_cons_self (hm o)
        | drain k limit => simp [Usage.move, hnone]
      show (u.move a p m).follow a p moves = u
      rw [hstep]
      exact follow_of_no_session moves hnone (fun o ho => hm o (List.mem_cons_of_mem m ho))
        fun hs => hsession (List.mem_cons_of_mem m hs)

end Usage

/-- What the inboxes of a session call remaining, at every moment of it, after any sessions before:
the blocks that their slots hold and the slots that were empty when the session began. A drain frees
that many blocks from a share that was whole then and none from any other, so the inboxes tell what
they have yet to free just when every share was whole. In the first session all are. -/
theorem remaining_through_sessions {a : Allocator} {p : Plan} {blockSize : Nat}
    (hok : (made a p blockSize).1 = .ok ()) (hquiet : ∀ call, a.overwrites .main call = [])
    {before after : List Move} (hbefore : Usage.Undamaged before)
    (hafter : Usage.Undamaged after) (hsession : .session ∉ after) :
    let first := Usage.follow a p before { view := (made a p blockSize).2 }
    let u := (first.move a p .session).follow a p after
    (∀ b ∈ u.inboxes,
        b.remaining = filledIn u.view.pool.blockAt b.slots
            + vacantIn first.view.pool.blockAt b.slots
          ∧ Usage.Frees a b none u.view
            (if vacantIn first.view.pool.blockAt b.slots = 0 then b.remaining else 0))
      ∧ (p.workers ≠ 0 → p.foreignChunk ≠ 0 →
        (u.inboxes.map Inbox.remaining).sum + first.view.pool.pending
          = u.view.pool.pending + p.foreignTotal)
      ∧ (u.Tells a p ↔ ∀ b ∈ u.inboxes, vacantIn first.view.pool.blockAt b.slots = 0)
      ∧ (.session ∉ before → u.Tells a p) := by
  intro first u
  obtain ⟨layout, hopened⟩ := filled_of_ok hok
  have hfilled := hopened.toStored
  have hstart := Usage.Kept.start hfilled
  have hintact : Usage.Intact { view := (made a p blockSize).2 } :=
    ⟨hopened.honest hquiet, rfl⟩
  obtain ⟨freed, hfirst, -, -⟩ := hstart.follow (a := a) hfilled before
  have hintact' : first.Intact := hintact.follow hfilled before hstart hbefore
  have habreast := hfirst.abreast (a := a) hfilled
  have hintact'' : (first.move a p .session).Intact := ⟨hintact'.honest, hintact'.lost_eq⟩
  obtain ⟨more, hkept, -, -⟩ := hfirst.session.follow (a := a) hfilled after
  have hnow : Usage.Abreast p first.view.pool.blockAt u :=
    habreast.follow hfilled after hfirst.session hintact'' hafter hsession
  have hintact_now : u.Intact := hintact''.follow hfilled after hfirst.session hafter
  have hsize : u.view.pool.size = p.foreignTotal := hkept.size.trans hfilled.size
  have htells := hnow.tells_iff (a := a) hintact_now hsize
  refine ⟨fun b hb => ⟨hnow.remaining_eq hb, hnow.frees hintact_now hb⟩,
    fun hworkers hchunk => ?_, htells, fun hnone => htells.mpr fun b hb => ?_⟩
  · have hfirst_size : first.view.pool.size = p.foreignTotal := hfirst.size.trans hfilled.size
    exact hnow.sum_remaining_add hfirst_size hsize hchunk hworkers
  · obtain ⟨k, hslots, -⟩ := hnow.exists_since hb
    have hsame : first = { view := (made a p blockSize).2 } :=
      Usage.follow_of_no_session before rfl hbefore hnone
    refine vacantIn_eq_zero_iff.mpr fun s hs => ?_
    rw [hslots] at hs
    rw [hsame]
    exact Option.isSome_of_eq_some (hfilled.block s (Plan.mem_share.mp hs).2.1)

/-- One worker with two blocks frees one of them in the first session. In the second session it
calls both remaining, one of which is there, and frees none. -/
theorem remaining_through_sessions_two :
    let p : Plan := { workers := 1, foreignTotal := 2, foreignQuota := 2, foreignChunk := 2 }
    let first := Usage.follow .faultless p [.session, .drain 0 (some 1)]
      { view := (made .faultless p 8).2 }
    let u := (first.move .faultless p .session).follow .faultless p [.drain 0 none]
    u.inboxes.map Inbox.remaining = [2] ∧ u.view.pool.pending = 1
      ∧ (∀ b ∈ u.inboxes, Usage.Frees .faultless b none u.view
        (if vacantIn first.view.pool.blockAt b.slots = 0 then b.remaining else 0))
      ∧ (u.inboxes.map Inbox.remaining).sum + first.view.pool.pending
        = u.view.pool.pending + p.foreignTotal := by
  intro p first u
  have hok : (made .faultless p 8).1 = .ok () := by decide +kernel
  have hbefore : Usage.Undamaged [.session, .drain 0 (some 1)] := fun o h => by simp at h
  have hafter : Usage.Undamaged [.drain 0 none] := fun o h => by simp at h
  have hlaw := remaining_through_sessions hok (fun _ => rfl) hbefore hafter (by simp)
  exact ⟨by decide +kernel, by decide +kernel, fun b hb => (hlaw.1 b hb).2,
    hlaw.2.1 (by decide) (by decide)⟩

/-- Sessions that begin over shares begun before do not tell what is yet to be freed. -/
theorem not_tells_in_second_session : ¬∀ (a : Allocator) (p : Plan) (blockSize : Nat)
    (before after : List Move), (made a p blockSize).1 = .ok () →
      (∀ call, a.overwrites .main call = []) → Usage.Undamaged before →
      Usage.Undamaged after → .session ∉ after →
      Usage.Tells a p (((Usage.follow a p before { view := (made a p blockSize).2 }).move a p
        .session).follow a p after) := by
  intro h
  have htells := h .faultless
    { workers := 1, foreignTotal := 2, foreignQuota := 2, foreignChunk := 2 } 8
    [.session, .drain 0 (some 1)] [] (by decide +kernel) (fun _ => rfl) (fun o h => by simp at h)
    (fun o h => by simp at h) (by simp)
  have hsum := htells.2 (by decide) (by decide)
  revert hsum
  decide +kernel

end Pool

end HeapChurn
