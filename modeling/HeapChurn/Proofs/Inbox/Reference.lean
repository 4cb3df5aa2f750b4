import HeapChurn.Proofs.Inbox.Outcome
import HeapChurn.Proofs.Plan.Hands
import Mathlib.Order.Bounds.Basic

/-!
# A drain by its reference

What a drain comes to, told without its loop. An inbox stands at a place of its list of slots. The
drain halts after as many slots as are needed for the first of four reasons: the list is at its end,
the limit is reached, the next slot is empty, or its block names another slot (`Halts`). `reference`
says what it comes to then, and the last reason makes it fail only if it is the only one.

`drain_eq_reference` is about inboxes and about hands, whose place is the number of a chunk with an
offset into it. Two drains in a row that both succeed are one drain with the sum of their limits;
this is shown along the loop (`run_drainFrom_add`).
-/

namespace HeapChurn

namespace Inbox

/-- The inbox at a place of its list of slots. -/
def seek (b : Inbox) (place : Nat) : Inbox := { b with ahead := b.slots.drop place }

@[simp] theorem remaining_seek (b : Inbox) (place : Nat) :
    (b.seek place).remaining = b.slots.length - place :=
  List.length_drop

/-- A drain from this place has a reason to halt after `t` slots. -/
inductive Halts (pool : PoolSlots) (slots : List Nat) (place : Nat) (limit : Option Nat) (t : Nat) :
    Prop
  | finished (hend : place + t = slots.length)
  | limited (hlimit : limit = some t)
  | vacant {s : Nat} (hs : slots[place + t]? = some s) (hnone : pool.blockAt s = none)
  | mistagged {s : Nat} {found : TaggedBlock} (hs : slots[place + t]? = some s)
      (hfound : pool[s]? = some (some found)) (htag : found.tag ≠ s)

/-- The slot after `m` others and its block, unless the drain halts because of the limit, because
there is no such slot or because the slot is empty. -/
def suspect? (pool : PoolSlots) (slots : List Nat) (place : Nat) (limit : Option Nat) (m : Nat) :
    Option (Nat × TaggedBlock) :=
  if limit = some m then none
  else slots[place + m]?.bind fun s => pool[s]?.join.map fun found => (s, found)

/-- What a drain from this place comes to that halts after `m` slots. -/
def reference (b : Inbox) (place : Nat) (limit : Option Nat) (m : Nat) (v : View) :
    (Except Error Nat × Inbox) × View :=
  let gone := (b.slots.drop place).take m
  let journal := v.journal.drained (gone.filterMap v.pool.blockAt)
  match suspect? v.pool b.slots place limit m with
  | none => ((.ok m, b.seek (place + m)), ⟨v.pool.emptied gone, journal⟩)
  | some (s, found) =>
    ((.error (.corruptTag s found.tag), b.seek (place + m)),
      ⟨v.pool.emptied (gone ++ [s]), journal.noted (.tagMismatch b.worker s found.tag)⟩)

variable {a : Allocator} {worker place m : Nat} {limit : Option Nat} {slots gone rest : List Nat}
  {v : View}

/-! ## One drain -/

theorem drop_of_ahead (hahead : slots.drop place = gone ++ rest) :
    slots.drop (place + gone.length) = rest := by
  rw [← List.drop_drop, hahead, List.drop_left]

/-- The slot after those that are gone. -/
theorem next_of_ahead (hahead : slots.drop place = gone ++ rest) :
    slots[place + gone.length]? = rest.head? := by
  rw [← drop_of_ahead hahead, List.head?_drop]

theorem Outcome.halts {out : Except Error Nat × List Nat} {w : View}
    (h : Outcome worker limit 0 gone v (out, w)) (hahead : slots.drop place = gone ++ out.2)
    (hplace : place ≤ slots.length) : Halts v.pool slots place limit gone.length := by
  have hnext := next_of_ahead hahead
  cases h with
  | stopped hstop =>
      rcases hstop with hnil | hlimit | ⟨s, hs, hnone⟩
      · have hlength := congrArg List.length hahead
        rw [List.length_drop, List.length_append, hnil, List.length_nil] at hlength
        exact .finished (by omega)
      · exact .limited (hlimit.trans (congrArg some (Nat.zero_add _)))
      · exact .vacant (hnext.trans hs) hnone
  | mistagged hlimit hb htag => exact .mistagged hnext hb htag

/-- Before that there is no reason to halt. -/
theorem not_halts_of_lt {t : Nat} (hahead : slots.drop place = gone ++ rest)
    (hplace : place ≤ slots.length) (hnames : ∀ s ∈ gone, v.pool.Names s)
    (hlimit : ∀ l, limit = some l → gone.length ≤ l) (ht : t < gone.length) :
    ¬Halts v.pool slots place limit t := by
  have hlength := congrArg List.length hahead
  rw [List.length_drop, List.length_append] at hlength
  have hgone : ∀ {s}, slots[place + t]? = some s → v.pool.Names s := by
    intro s hs
    rw [← List.getElem?_drop, hahead, List.getElem?_append_left ht] at hs
    exact hnames s (List.mem_of_getElem? hs)
  intro hhalts
  cases hhalts with
  | finished hend => omega
  | limited hl =>
      have := hlimit t hl
      omega
  | vacant hs hnone =>
      have hfilled := (hgone hs).isSome
      rw [hnone] at hfilled
      cases hfilled
  | @mistagged s found hs hfound htag =>
      obtain ⟨b, hb, hnamed⟩ := hgone hs
      rw [hfound] at hb
      cases hb
      exact htag hnamed

theorem suspect?_eq_none {pool : PoolSlots}
    (h : slots.length ≤ place + m ∨ limit = some m
      ∨ ∃ s, slots[place + m]? = some s ∧ pool.blockAt s = none) :
    suspect? pool slots place limit m = none := by
  unfold suspect?
  split
  · rfl
  · rename_i hlimit
    rcases h with hend | hreached | ⟨s, hs, hnone⟩
    · rw [List.getElem?_eq_none hend]
      rfl
    · exact absurd hreached hlimit
    · rw [PoolSlots.blockAt, Option.map_eq_none_iff] at hnone
      rw [hs, Option.bind_some, hnone]
      rfl

theorem suspect?_eq_some {pool : PoolSlots} {s : Nat} {found : TaggedBlock}
    (hlimit : limit ≠ some m) (hs : slots[place + m]? = some s)
    (hfound : pool[s]? = some (some found)) :
    suspect? pool slots place limit m = some (s, found) := by
  rw [suspect?, if_neg hlimit, hs, Option.bind_some, hfound]
  rfl

theorem Outcome.eq_reference {b : Inbox} {out : Except Error Nat × List Nat} {w : View}
    (h : Outcome b.worker limit 0 gone v (out, w)) (hahead : b.slots.drop place = gone ++ out.2) :
    ((out.1, { b.seek place with ahead := out.2 }), w) = b.reference place limit gone.length v := by
  have hrest := drop_of_ahead hahead
  have hnext := next_of_ahead hahead
  have hseek : { b.seek place with ahead := out.2 } = b.seek (place + gone.length) := by
    rw [← hrest]
    rfl
  have hgone : (b.slots.drop place).take gone.length = gone := by
    rw [hahead, List.take_left]
  rw [hseek, reference, hgone]
  cases h with
  | stopped hstop =>
      rw [suspect?_eq_none]
      · rw [Nat.zero_add]
      · rcases hstop with hnil | hlimit | ⟨s, hs, hnone⟩
        · rw [hnil, List.drop_eq_nil_iff] at hrest
          exact Or.inl hrest
        · exact Or.inr (Or.inl (hlimit.trans (congrArg some (Nat.zero_add _))))
        · exact Or.inr (Or.inr ⟨s, hnext.trans hs, hnone⟩)
  | mistagged hlimit hb htag =>
      rw [Nat.zero_add] at hlimit
      rw [suspect?_eq_some hlimit hnext hb]

theorem run_drain (b : Inbox) (limit : Option Nat) (v : View) :
    (b.drain limit).run a v
      = ((((drainFrom b.worker b.ahead limit 0).run a v).1.1,
          { b with ahead := ((drainFrom b.worker b.ahead limit 0).run a v).1.2 }),
        ((drainFrom b.worker b.ahead limit 0).run a v).2) := by
  rw [drain, Routine.run_bind]
  rfl

theorem inbox_reference (b : Inbox) (place : Nat) (limit : Option Nat) (m : Nat) (v : View) :
    (b.reference place limit m v).1.2 = b.seek (place + m) := by
  unfold reference
  split <;> rfl

/-- Where the drain of an inbox halts, and what it comes to. -/
structure Referenced (a : Allocator) (b : Inbox) (place : Nat) (limit : Option Nat) (v : View)
    (m : Nat) : Prop where
  least : IsLeast {t | Halts v.pool b.slots place limit t} m
  /-- Each slot up to there holds a block that names it. -/
  names : ∀ s ∈ (b.slots.drop place).take m, v.pool.Names s
  run_eq : ((b.seek place).drain limit).run a v = b.reference place limit m v
  remaining_eq : (((b.seek place).drain limit).run a v).1.2.remaining = b.slots.length - place - m

theorem referenced_drain {b : Inbox} (hnodup : b.slots.Nodup) (hplace : place ≤ b.slots.length)
    (limit : Option Nat) (v : View) : ∃ m, Referenced a b place limit v m := by
  obtain ⟨gone, hahead, hnames, hlimit, hout⟩ := @outcome_drainFrom a b.worker limit
    (b.slots.drop place) 0 v (hnodup.sublist (List.drop_sublist place _))
  have hrun : ((b.seek place).drain limit).run a v = b.reference place limit gone.length v := by
    rw [← hout.eq_reference hahead, run_drain]
    rfl
  have hle : ∀ l, limit = some l → gone.length ≤ l := by
    intro l hl
    have := hlimit l hl (Nat.zero_le l)
    omega
  refine ⟨gone.length, ⟨hout.halts hahead hplace, ?_⟩, ?_, hrun, ?_⟩
  · intro t ht
    by_contra hlt
    exact not_halts_of_lt hahead hplace hnames hle (Nat.lt_of_not_le hlt) ht
  · rw [hahead, List.take_left]
    exact hnames
  · rw [hrun, inbox_reference, remaining_seek]
    omega

/-! ## Two drains in a row -/

variable {s freed : Nat} {found : TaggedBlock}

theorem run_drainFrom_of_vacant (hnone : v.pool.blockAt s = none) :
    (drainFrom worker (s :: rest) limit freed).run a v = ((.ok freed, s :: rest), v) := by
  unfold drainFrom
  split
  · rfl
  · have htaken : v.pool[s]?.join = none := Option.map_eq_none_iff.mp hnone
    rw [Routine.run_bind, Routine.run_take, htaken, PoolSlots.setIfInBounds_of_blockAt hnone]
    rfl

theorem run_drainFrom_of_names (hlimit : limit ≠ some freed)
    (hfound : v.pool[s]? = some (some found)) (htag : found.tag = s) :
    (drainFrom worker (s :: rest) limit freed).run a v
      = (drainFrom worker rest limit (freed + 1)).run a ⟨v.pool.setIfInBounds s none,
          (v.journal.recordEvent (.released found.block)).counted .foreignFree⟩ := by
  rw [drainFrom, if_neg hlimit, Routine.run_bind, Routine.run_take, hfound]
  simp only [Option.join_some, if_pos htag]
  rfl

theorem run_drainFrom_of_mistagged (hlimit : limit ≠ some freed)
    (hfound : v.pool[s]? = some (some found)) (htag : found.tag ≠ s) :
    ((drainFrom worker (s :: rest) limit freed).run a v).1.1
      = .error (.corruptTag s found.tag) := by
  rw [drainFrom, if_neg hlimit, Routine.run_bind, Routine.run_take, hfound]
  simp only [Option.join_some, if_neg htag]
  rfl

/-- Blocks that were freed before add to the limit and to the answer, and to nothing else. -/
theorem drainFrom_shift (worker n : Nat) (limit : Option Nat) : ∀ (ahead : List Nat) (freed : Nat),
    drainFrom worker ahead (limit.map (· + n)) (freed + n)
      = (fun out => (out.1.map (· + n), out.2)) <$> drainFrom worker ahead limit freed
  | [], freed => rfl
  | s :: rest, freed => by
      have hlimit : limit.map (· + n) = some (freed + n) ↔ limit = some freed := by
        cases limit with
        | none => simp
        | some l => simp
      unfold drainFrom
      by_cases hstop : limit = some freed
      · rw [if_pos hstop, if_pos (hlimit.mpr hstop)]
        rfl
      · rw [if_neg hstop, if_neg fun h => hstop (hlimit.mp h), map_bind]
        refine bind_congr fun taken => ?_
        cases taken with
        | none => rfl
        | some found =>
            by_cases htag : found.tag = s
            · simp only [if_pos htag, map_bind]
              refine bind_congr fun _ => bind_congr fun _ => ?_
              rw [Nat.add_right_comm]
              exact drainFrom_shift worker n limit rest (freed + 1)
            · simp only [if_neg htag, map_bind]
              rfl

/-- Two drains in a row that succeed are one with the sum of their limits. -/
theorem run_drainFrom_add {x y m₁ m₂ : Nat} : ∀ {ahead : List Nat} {freed : Nat} {v : View},
    freed ≤ x →
    let first := (drainFrom worker ahead (some x) freed).run a v
    let second := (drainFrom worker first.1.2 (some y) 0).run a first.2
    first.1.1 = .ok m₁ → second.1.1 = .ok m₂ →
    (drainFrom worker ahead (some (x + y)) freed).run a v
      = ((.ok (m₁ + m₂), second.1.2), second.2)
  | [], freed, v, _, hfirst, hsecond => by
      cases hfirst
      cases hsecond
      rfl
  | s :: rest, freed, v, hle, hfirst, hsecond => by
      by_cases hreached : x = freed
      · subst hreached
        have hstop : (drainFrom worker (s :: rest) (some x) x).run a v
            = ((.ok x, s :: rest), v) := by
          rw [drainFrom, if_pos rfl]
          rfl
        rw [hstop] at hfirst hsecond ⊢
        cases hfirst
        have hshift := drainFrom_shift worker x (some y) (s :: rest) 0
        rw [Option.map_some, Nat.zero_add, Nat.add_comm y x] at hshift
        rw [hshift, Routine.run_map, hsecond, Nat.add_comm x m₂]
        rfl
      · have hx : some x ≠ some freed := fun h => hreached (Option.some.inj h)
        have hsum : some (x + y) ≠ some freed := fun h => by
          have := Option.some.inj h
          omega
        cases htaken : v.pool[s]?.join with
        | none =>
            have hnone : v.pool.blockAt s = none := Option.map_eq_none_iff.mpr htaken
            simp only [run_drainFrom_of_vacant hnone] at hfirst hsecond ⊢
            cases hfirst
            cases hsecond
            rfl
        | some found =>
            have hfound : v.pool[s]? = some (some found) := Option.join_eq_some_iff.mp htaken
            by_cases htag : found.tag = s
            · rw [run_drainFrom_of_names hx hfound htag] at hfirst hsecond ⊢
              rw [run_drainFrom_of_names hsum hfound htag]
              exact run_drainFrom_add (by omega) hfirst hsecond
            · rw [run_drainFrom_of_mistagged hx hfound htag] at hfirst
              cases hfirst

/-- So are two drains of an inbox. -/
theorem run_drain_add {b : Inbox} {x y m₁ m₂ : Nat} {v : View} :
    let first := (b.drain (some x)).run a v
    let second := (first.1.2.drain (some y)).run a first.2
    first.1.1 = .ok m₁ → second.1.1 = .ok m₂ →
    (b.drain (some (x + y))).run a v = ((.ok (m₁ + m₂), second.1.2), second.2) := by
  intro first second hfirst hsecond
  simp only [first, second, run_drain] at hfirst hsecond ⊢
  rw [run_drainFrom_add (Nat.zero_le x) hfirst hsecond]

end Inbox

namespace Hand

variable {b : Inbox} {h : Hand}

/-- A hand that fits can stand at every place of its inbox. -/
theorem exists_seek (hfit : h.Fit) (hstart : h.inbox = b.seek 0) : ∀ place ≤ b.slots.length,
    ∃ h' : Hand, h'.Fit ∧ h'.inbox = b.seek place
  | 0, _ => ⟨h, hfit, hstart⟩
  | place + 1, hplace => by
      obtain ⟨h', hfit', hinbox⟩ := exists_seek hfit hstart place (by omega)
      have hahead : h'.toBookmark.ahead h'.pieces = b.slots.drop place :=
        congrArg Inbox.ahead hinbox
      have hremaining := hfit'.remaining_eq
      rw [hahead, List.length_drop, show b.slots.length - place = b.slots.length - (place + 1) + 1
        by omega] at hremaining
      have hfit'' : h'.toBookmark.Fit h'.pieces (b.slots.length - (place + 1) + 1) :=
        hremaining ▸ hfit'
      obtain ⟨c, -, -, hnext, hthere⟩ := hfit''.next
      refine ⟨{ h' with
        toBookmark := h'.toBookmark.next c, remaining := b.slots.length - (place + 1) }, hthere, ?_⟩
      have hrest : (h'.toBookmark.next c).ahead h'.pieces = b.slots.drop (place + 1) := by
        rw [← List.drop_drop, ← hahead, hnext]
        rfl
      rw [inbox, hrest]
      exact congrArg (fun i => Inbox.mk i.worker i.slots (b.slots.drop (place + 1))) hinbox

/-- A hand that fits drains as its inbox does, and fits again. -/
theorem run_drain (a : Allocator) (hfit : h.Fit) (limit : Option Nat) (v : View) :
    let out := (h.inbox.drain limit).run a v
    ∃ h' : Hand, (h.drain limit).run a v = ((some out.1.1, h'), out.2)
      ∧ h'.Fit ∧ h'.inbox = out.1.2 ∧ h'.remaining = out.1.2.remaining := by
  intro out
  have hsame := congrArg (Routine.run a · v) (inbox_drain hfit limit)
  simp only [Routine.run_map, Prod.mk.injEq] at hsame
  obtain ⟨⟨hresult, hinbox⟩, hview⟩ := hsame
  have hfit' := ((confined_drain hfit limit).run_result (a := a) v).2.1
  refine ⟨((h.drain limit).run a v).1.2, ?_, hfit', hinbox, ?_⟩
  · exact Prod.ext (Prod.ext hresult rfl) hview
  · rw [← hinbox]
    exact hfit'.remaining_eq

end Hand

/-- Whatever the pool holds and whatever the blocks in it name: a drain halts at the first reason
for it and comes to what its reference says, and two that succeed are one with the sum of their
limits. A hand at the same place drains in the same way. -/
theorem drain_eq_reference (p : Plan) {b : Inbox} (hb : b ∈ p.inboxes) {place : Nat}
    (hplace : place ≤ b.slots.length) (a : Allocator) (v : View) :
    (∀ limit, ∃ m, b.Referenced a place limit v m)
      ∧ (∃ h : Hand, h.Fit ∧ h.inbox = b.seek place)
      ∧ (∀ h : Hand, h.Fit → h.inbox = b.seek place → ∀ limit,
          let out := ((b.seek place).drain limit).run a v
          ∃ h' : Hand, (h.drain limit).run a v = ((some out.1.1, h'), out.2)
            ∧ h'.Fit ∧ h'.inbox = out.1.2 ∧ h'.remaining = out.1.2.remaining)
      ∧ ∀ x y m₁ m₂,
          let first := ((b.seek place).drain (some x)).run a v
          let second := (first.1.2.drain (some y)).run a first.2
          first.1.1 = .ok m₁ → second.1.1 = .ok m₂ →
          ((b.seek place).drain (some (x + y))).run a v
            = ((.ok (m₁ + m₂), second.1.2), second.2) := by
  obtain ⟨h, hh, hinbox⟩ := List.mem_map.mp (p.inbox_hands.symm ▸ hb)
  have hfit := (Plan.hand_of_mem (Array.mem_toList_iff.mp hh)).2.2.2
  obtain ⟨k, hk⟩ := List.mem_iff_getElem?.mp hb
  have hlt : k < p.workers := p.length_inboxes ▸ (List.getElem?_eq_some_iff.mp hk).1
  rw [Plan.getElem?_inboxes hlt] at hk
  cases hk
  have hstart : h.inbox = Inbox.seek ⟨k, p.share k, p.share k⟩ 0 := hinbox
  refine ⟨?_, Hand.exists_seek hfit hstart place hplace, ?_, ?_⟩
  · intro limit
    exact Inbox.referenced_drain (p.nodup_share k) hplace limit v
  · intro h hfit hinbox limit
    rw [← hinbox]
    exact Hand.run_drain a hfit limit v
  · intro x y m₁ m₂
    exact Inbox.run_drain_add

/-- Seven blocks in chunks of two for two workers, and a first worker that has freed one of its
four. The last of them does not name its slot. Two drains of one block each stop in front of it, and
so does one of two blocks. Without a limit the drain fails there. -/
theorem drain_eq_reference_seven :
    let p : Plan := ⟨2, 1, 1, 7, 2, 2, none⟩
    let b : Inbox := ⟨0, [0, 1, 4, 5], [0, 1, 4, 5]⟩
    let block (s tag : Nat) : Option TaggedBlock := some ⟨⟨⟨.main, s⟩, ⟨8, 8⟩⟩, tag⟩
    let v : View :=
      ⟨#[none, block 1 1, block 2 2, block 3 3, block 4 4, block 5 9, block 6 6],
        { thread := .worker 0 }⟩
    let first := ((b.seek 1).drain (some 1)).run .faultless v
    let second := (first.1.2.drain (some 1)).run .faultless first.2
    b ∈ p.inboxes ∧ 1 ≤ b.slots.length
      ∧ (∃ m, b.Referenced .faultless 1 none v m)
      ∧ (((b.seek 1).drain none).run .faultless v).1 = (.error (.corruptTag 5 9), b.seek 3)
      ∧ first.1 = (.ok 1, b.seek 2) ∧ second.1 = (.ok 1, b.seek 3)
      ∧ ((b.seek 1).drain (some (1 + 1))).run .faultless v
        = ((.ok (1 + 1), second.1.2), second.2) := by
  intro p b block v first second
  have hb : b ∈ p.inboxes := by decide +kernel
  have hplace : 1 ≤ b.slots.length := by decide
  obtain ⟨hlaw, -, -, hadd⟩ := drain_eq_reference p hb hplace .faultless v
  exact ⟨hb, hplace, hlaw none, rfl, rfl, rfl, hadd 1 1 1 1 rfl rfl⟩

end HeapChurn
