import HeapChurn.Inbox
import HeapChurn.Proofs.Routine.Action

/-!
# What a drain does

A drain frees the blocks of a first part of the slots ahead, in their order, and says why it went no
further: the limit is reached, no slot is left, the next slot is empty, or its block names another
slot. In the last case alone the block is lost: it was taken out of the pool to be looked at, and
it is not handed back. `Drained` lists the two outcomes, and `ensures_drainFrom` holds for every
limit and whatever other threads write over the tags meanwhile.
-/

namespace HeapChurn

namespace Inbox

/-- What becomes of a drain that freed the blocks of the slots `gone`. `lost` is the slot whose
block did not name it. -/
inductive Drained (held : Nat → Option Block) (worker : Nat) (limit : Option Nat) (freed : Nat)
    (gone : List Nat) (j : Journal) : Except Error Nat × List Nat → Option Nat → Journal → Prop
  | stopped {rest : List Nat}
      (hstop : rest = [] ∨ limit = some (freed + gone.length)
        ∨ ∃ s, rest.head? = some s ∧ held s = none) :
      Drained held worker limit freed gone j (.ok (freed + gone.length), rest) none
        (j.drained (gone.filterMap held))
  | corrupt {s tag : Nat} {rest : List Nat} (hfilled : (held s).isSome) (htag : tag ≠ s) :
      Drained held worker limit freed gone j (.error (.corruptTag s tag), s :: rest) (some s)
        ((j.drained (gone.filterMap held)).noted (.tagMismatch worker s tag))

variable {a : Allocator} {slots : List Nat} {held : Nat → Option Block} {worker : Nat}
  {limit : Option Nat}

theorem Drained.cons {freed : Nat} {gone : List Nat} {j : Journal} {s : Nat} {b : Block}
    {out : Except Error Nat × List Nat} {lost : Option Nat} {j' : Journal} (hs : held s = some b)
    (h : Drained held worker limit (freed + 1) gone
      ((j.recordEvent (.released b)).counted .foreignFree) out lost j') :
    Drained held worker limit freed (s :: gone) j out lost j' := by
  have hjournal : j.drained ((s :: gone).filterMap held)
      = ((j.recordEvent (.released b)).counted .foreignFree).drained (gone.filterMap held) := by
    rw [List.filterMap_cons_some hs]
    rfl
  have hcount : freed + 1 + gone.length = freed + (s :: gone).length := by
    rw [List.length_cons]
    omega
  cases h with
  | stopped hstop =>
      rw [hcount] at hstop ⊢
      rw [← hjournal]
      exact .stopped hstop
  | corrupt hfilled htag =>
      rw [← hjournal]
      exact .corrupt hfilled htag

theorem ensures_drainFrom : ∀ (ahead : List Nat) (freed : Nat) {past : List Nat} {v : View},
    v.Holds slots (without held past) → (past ++ ahead).Nodup → (∀ s ∈ ahead, s ∈ slots) →
    (drainFrom worker ahead limit freed).Ensures a (.retagging slots) v fun out w =>
      ∃ gone lost, ahead = gone ++ out.2 ∧ (∀ s ∈ gone, (held s).isSome)
        ∧ w.Holds slots (without held (past ++ gone ++ lost.toList))
        ∧ Drained held worker limit freed gone v.journal out lost w.journal
  | [], freed, past, v, hv, _, _ => by
      refine Routine.ensures_pure fun _ hpool => ⟨[], none, rfl, nofun, ?_, .stopped (Or.inl rfl)⟩
      simpa using hv.shift hpool
  | s :: rest, freed, past, v, hv, hnodup, hslots => by
      have hs : s ∉ past := by
        have := (List.nodup_append.mp hnodup).2.2
        exact fun hmem => this s hmem s List.mem_cons_self rfl
      unfold drainFrom
      by_cases hlimit : limit = some freed
      · rw [if_pos hlimit]
        refine Routine.ensures_pure fun _ hpool =>
          ⟨[], none, rfl, nofun, ?_, .stopped (Or.inr (Or.inl hlimit))⟩
        simpa using hv.shift hpool
      · rw [if_neg hlimit]
        refine (Routine.ensures_take hv (hslots s List.mem_cons_self)).bind
          fun taken w ⟨htaken, hw, hj⟩ => ?_
        rw [update_without] at hw
        rw [without_of_notMem hs] at htaken
        cases taken with
        | none =>
            have hnone : held s = none := htaken.symm
            have hsame : without held (past ++ [s]) = without held past := by
              rw [← update_without, Function.update_eq_self_iff, without_of_notMem hs, hnone]
            rw [hsame] at hw
            refine Routine.ensures_pure fun _ hpool => ⟨[], none, rfl, nofun, ?_, ?_⟩
            · simpa using hw.shift hpool
            · rw [hj]
              exact .stopped (Or.inr (Or.inr ⟨s, rfl, hnone⟩))
        | some b =>
            have hsome : held s = some b.block := htaken.symm
            by_cases htag : b.tag = s
            · simp only [if_pos htag]
              refine (Routine.ensures_release hw b.block).bind fun _ u ⟨hu, hj'⟩ => ?_
              refine (Routine.ensures_count hu .foreignFree).bind fun _ x ⟨hx, hj''⟩ => ?_
              have hnodup' : (past ++ [s] ++ rest).Nodup := by simpa using hnodup
              refine (ensures_drainFrom rest (freed + 1) hx hnodup'
                fun t ht => hslots t (List.mem_cons_of_mem _ ht)).mono ?_
              rintro out y ⟨gone, lost, hahead, hfilled, hy, hdrained⟩
              refine ⟨s :: gone, lost, by rw [hahead]; rfl, ?_, ?_, ?_⟩
              · intro t ht
                rcases List.mem_cons.mp ht with rfl | ht
                · rw [hsome]
                  rfl
                · exact hfilled t ht
              · simpa using hy
              · rw [hj'', hj', hj] at hdrained
                exact hdrained.cons hsome
            · simp only [if_neg htag]
              refine (Routine.ensures_note hw _).bind fun _ u ⟨hu, hj'⟩ => ?_
              refine Routine.ensures_pure fun _ hpool => ⟨[], some s, rfl, nofun, ?_, ?_⟩
              · simpa using hu.shift hpool
              · rw [hj', hj]
                exact .corrupt (by rw [hsome]; rfl) htag

theorem ensures_drain {b : Inbox} {past : List Nat} {v : View}
    (hv : v.Holds slots (without held past)) (hnodup : (past ++ b.ahead).Nodup)
    (hslots : ∀ s ∈ b.ahead, s ∈ slots) :
    (b.drain limit).Ensures a (.retagging slots) v fun out w =>
      ∃ gone lost, b.ahead = gone ++ out.2.ahead ∧ (∀ s ∈ gone, (held s).isSome)
        ∧ w.Holds slots (without held (past ++ gone ++ lost.toList))
        ∧ Drained held b.worker limit 0 gone v.journal (out.1, out.2.ahead) lost w.journal := by
  unfold drain
  refine (ensures_drainFrom b.ahead 0 hv hnodup hslots).bind ?_
  rintro ⟨result, rest⟩ w ⟨gone, lost, hrest, hfilled, hw, hdrained⟩
  exact Routine.ensures_pure fun _ hpool => ⟨gone, lost, hrest, hfilled, hw.shift hpool, hdrained⟩

end Inbox

end HeapChurn
