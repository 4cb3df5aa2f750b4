import HeapChurn.Proofs.Routine.Action
import HeapChurn.Proofs.Routine.Run
import HeapChurn.Inbox
import Mathlib.Data.List.Basic
import Mathlib.Data.List.TakeWhile

/-!
# How far a drain reaches

A drain of distinct slots whose blocks all name their slots, with nobody in between. It frees the
blocks of the slots that it reaches, which are the first ones ahead, up to the limit and up to the
first that is empty, and it touches no other slot (`run_drainFrom`). It never fails.
-/

namespace HeapChurn

/-- The blocks in these slots name their slots. -/
def PoolSlots.Labelled (pool : PoolSlots) (slots : List Nat) : Prop :=
  ∀ s ∈ slots, ∀ b, pool[s]? = some (some b) → b.tag = s

namespace Inbox

/-- The slots at which a drain looks that has freed so many blocks before. -/
def upTo (limit : Option Nat) (freed : Nat) (ahead : List Nat) : List Nat :=
  limit.elim ahead fun l => ahead.take (l - freed)

/-- The slots whose blocks it frees. -/
def reach (pool : PoolSlots) (limit : Option Nat) (freed : Nat) (ahead : List Nat) : List Nat :=
  (upTo limit freed ahead).takeWhile fun s => (pool.blockAt s).isSome

variable {a : Allocator} {worker : Nat} {limit : Option Nat} {pool : PoolSlots} {freed s : Nat}
  {ahead : List Nat}

theorem upTo_isPrefix (limit : Option Nat) (freed : Nat) (ahead : List Nat) :
    upTo limit freed ahead <+: ahead := by
  cases limit with
  | none => exact List.prefix_refl _
  | some l => exact List.take_prefix _ _

theorem reach_isPrefix (pool : PoolSlots) (limit : Option Nat) (freed : Nat) (ahead : List Nat) :
    reach pool limit freed ahead <+: ahead :=
  (List.takeWhile_prefix _).trans (upTo_isPrefix limit freed ahead)

theorem reach_nil : reach pool limit freed [] = [] :=
  List.prefix_nil.mp (reach_isPrefix pool limit freed [])

theorem reach_append_drop (pool : PoolSlots) (limit : Option Nat) (freed : Nat)
    (ahead : List Nat) : reach pool limit freed ahead
      ++ ahead.drop (reach pool limit freed ahead).length = ahead :=
  List.prefix_iff_eq_append.mp (reach_isPrefix pool limit freed ahead)

theorem upTo_of_limit (h : limit = some freed) : upTo limit freed ahead = [] := by
  rw [h]
  simp [upTo]

theorem upTo_cons (hle : ∀ l, limit = some l → freed ≤ l) (hlimit : limit ≠ some freed) :
    upTo limit freed (s :: ahead) = s :: upTo limit (freed + 1) ahead := by
  cases limit with
  | none => rfl
  | some l =>
      have hlt : freed < l := Nat.lt_of_le_of_ne (hle l rfl) fun h => hlimit (h ▸ rfl)
      show (s :: ahead).take (l - freed) = s :: ahead.take (l - (freed + 1))
      rw [show l - freed = l - (freed + 1) + 1 by omega, List.take_succ_cons]

theorem reach_of_limit (h : limit = some freed) : reach pool limit freed ahead = [] := by
  rw [reach, upTo_of_limit h]
  rfl

theorem reach_cons (hle : ∀ l, limit = some l → freed ≤ l) (hlimit : limit ≠ some freed) :
    reach pool limit freed (s :: ahead)
      = if (pool.blockAt s).isSome then s :: reach pool limit (freed + 1) ahead else [] := by
  rw [reach, upTo_cons hle hlimit, List.takeWhile_cons]
  rfl

/-- What a drain reaches depends on the slots at which it looks. -/
theorem reach_congr {q : PoolSlots} (h : ∀ s ∈ ahead, q[s]? = pool[s]?) :
    reach q limit freed ahead = reach pool limit freed ahead := by
  have hsome : ∀ s ∈ upTo limit freed ahead,
      (q.blockAt s).isSome = (pool.blockAt s).isSome := by
    intro s hs
    rw [PoolSlots.blockAt, PoolSlots.blockAt, h s ((upTo_isPrefix limit freed ahead).subset hs)]
  unfold reach
  generalize upTo limit freed ahead = l at hsome
  induction l with
  | nil => rfl
  | cons s l ih =>
      rw [List.takeWhile_cons, List.takeWhile_cons, hsome s List.mem_cons_self,
        ih fun t ht => hsome t (List.mem_cons_of_mem s ht)]

theorem reach_of_filled (h : ∀ s ∈ ahead, (pool.blockAt s).isSome) :
    reach pool limit freed ahead = upTo limit freed ahead :=
  List.takeWhile_eq_self_iff.mpr fun s hs => h s ((upTo_isPrefix limit freed ahead).subset hs)

theorem getElem?_emptied_of_blockAt (h : pool.blockAt s = none) (t : Nat) :
    (pool.setIfInBounds s none)[t]? = pool[t]? := by
  rw [Array.getElem?_setIfInBounds]
  split
  · subst t
    rw [PoolSlots.blockAt, Option.map_eq_none_iff] at h
    split
    · rename_i hs
      rw [Array.getElem?_eq_getElem hs] at h ⊢
      exact congrArg some h.symm
    · rename_i hs
      rw [Array.getElem?_eq_none (Nat.not_lt.mp hs)]
  · rfl

theorem run_drainFrom : ∀ {ahead : List Nat} {freed : Nat} {v : View}, ahead.Nodup →
    v.pool.Labelled ahead → (∀ l, limit = some l → freed ≤ l) →
    ∃ pool, (drainFrom worker ahead limit freed).run a v
        = ((.ok (freed + (reach v.pool limit freed ahead).length),
            ahead.drop (reach v.pool limit freed ahead).length),
          ⟨pool, v.journal.drained ((reach v.pool limit freed ahead).filterMap v.pool.blockAt)⟩)
      ∧ ∀ s ∉ reach v.pool limit freed ahead, pool[s]? = v.pool[s]?
  | [], freed, v, _, _, _ => by
      rw [reach_nil]
      exact ⟨v.pool, rfl, fun _ _ => rfl⟩
  | s :: rest, freed, v, hnodup, hlabelled, hle => by
      unfold drainFrom
      by_cases hlimit : limit = some freed
      · rw [if_pos hlimit, reach_of_limit hlimit]
        exact ⟨v.pool, rfl, fun _ _ => rfl⟩
      · rw [if_neg hlimit, Routine.run_bind, Routine.run_take, reach_cons hle hlimit]
        cases htaken : v.pool[s]?.join with
        | none =>
            have hnone : v.pool.blockAt s = none := by
              rw [PoolSlots.blockAt, htaken]
              rfl
            rw [hnone]
            exact ⟨_, rfl, fun t _ => getElem?_emptied_of_blockAt hnone t⟩
        | some b =>
            have hsome : v.pool.blockAt s = some b.block := by
              rw [PoolSlots.blockAt, htaken]
              rfl
            have hslot : v.pool[s]? = some (some b) := Option.join_eq_some_iff.mp htaken
            have htag : b.tag = s := hlabelled s List.mem_cons_self b hslot
            -- the rest of the drain meets what it would have met without this step
            have hnew : ∀ t ∈ rest, s ≠ t := fun t ht heq =>
              (List.nodup_cons.mp hnodup).1 (heq ▸ ht)
            have hsame : ∀ t ∈ rest, (v.pool.setIfInBounds s none)[t]? = v.pool[t]? :=
              fun t ht => Array.getElem?_setIfInBounds_ne (hnew t ht)
            have hle' : ∀ l, limit = some l → freed + 1 ≤ l := fun l hl =>
              Nat.lt_of_le_of_ne (hle l hl) fun heq => hlimit (heq ▸ hl)
            obtain ⟨pool, hrun, hpool⟩ := @run_drainFrom rest (freed + 1)
              ⟨v.pool.setIfInBounds s none,
                (v.journal.recordEvent (.released b.block)).counted .foreignFree⟩
              (List.nodup_cons.mp hnodup).2
              (fun t ht c hc => hlabelled t (List.mem_cons_of_mem s ht) c (hsame t ht ▸ hc)) hle'
            simp only [reach_congr hsame] at hrun hpool
            have hblocks : (reach v.pool limit (freed + 1) rest).filterMap
                (PoolSlots.blockAt (v.pool.setIfInBounds s none))
                = (reach v.pool limit (freed + 1) rest).filterMap v.pool.blockAt := by
              refine List.filterMap_congr fun t ht => ?_
              exact v.pool.blockAt_emptied_of_ne (hnew t ((reach_isPrefix _ _ _ _).subset ht))
            rw [hblocks] at hrun
            rw [if_pos (Option.isSome_of_eq_some hsome)]
            refine ⟨pool, ?_, fun t ht => ?_⟩
            · simp only [if_pos htag]
              refine hrun.trans ?_
              rw [List.filterMap_cons_some hsome, List.length_cons, List.drop_succ_cons,
                Nat.add_right_comm, Nat.add_assoc freed]
              rfl
            · rw [hpool t fun hmem => ht (List.mem_cons_of_mem s hmem)]
              exact Array.getElem?_setIfInBounds_ne fun heq : s = t => ht (heq ▸ List.mem_cons_self)

end Inbox

end HeapChurn
