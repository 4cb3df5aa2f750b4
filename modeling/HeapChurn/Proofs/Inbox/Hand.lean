import HeapChurn.Inbox
import HeapChurn.Proofs.Routine.Contract
import HeapChurn.Proofs.Routine.Run
import Mathlib.Algebra.Ring.Nat

/-!
# Inboxes by index

An inbox as an array program has it: the chunks of a worker with a place among them, which is the
number of a chunk and an offset into it, and a count of the blocks that remain. The three numbers
are moved on one by one and nothing ties them to the chunks. `Hand.drain` answers nothing where an
index would leave its bounds.

`Hand.Fit` is what ties them: the offset lies inside its chunk, and the count is the number of
slots from the place on. A drain keeps it whatever it is answered (`Hand.confined_drain`), so that
no index ever leaves its bounds. A hand that fits drains as the inbox does that lists its slots
(`Hand.inbox_drain`).
-/

namespace HeapChurn

structure Piece where
  base : Nat
  size : Nat
  deriving Repr, DecidableEq

def Piece.slots (c : Piece) : List Nat := List.range' c.base c.size

/-- A place among chunks: the number of a chunk and an offset into it. -/
structure Bookmark where
  piece : Nat := 0
  offset : Nat := 0
  deriving Repr, DecidableEq

/-- What one worker has to free, chunk by chunk. -/
structure Hand extends Bookmark where
  worker : Nat
  pieces : Array Piece := #[]
  /-- Blocks the worker has yet to free, if its slots are all filled. -/
  remaining : Nat := 0
  deriving Repr, DecidableEq

/-- The place after one in chunk `c`. -/
def Bookmark.next (l : Bookmark) (c : Piece) : Bookmark :=
  if l.offset + 1 = c.size then ⟨l.piece + 1, 0⟩ else ⟨l.piece, l.offset + 1⟩

/-- The slots from a place on. -/
def Bookmark.ahead (l : Bookmark) (pieces : Array Piece) : List Nat :=
  ((pieces.toList.drop l.piece).flatMap Piece.slots).drop l.offset

namespace Hand

def slots (h : Hand) : List Nat := h.pieces.toList.flatMap Piece.slots

/-- The inbox that lists the slots of a hand. -/
def inbox (h : Hand) : Inbox where
  worker := h.worker
  slots := h.slots
  ahead := h.toBookmark.ahead h.pieces

def receive (h : Hand) (c : Piece) : Hand :=
  { h with pieces := h.pieces.push c, remaining := h.remaining + c.size }

/-- Frees blocks from a place on while some remain and the limit is not reached. Answers nothing if
an index is out of bounds. -/
def drainFrom (worker : Nat) (pieces : Array Piece) (limit : Option Nat) :
    Nat → Bookmark → Nat → Routine (Option (Except Error Nat) × Bookmark × Nat)
  | 0, l, freed => return (some (.ok freed), l, 0)
  | remaining + 1, l, freed => do
    if limit.any (· ≤ freed) then return (some (.ok freed), l, remaining + 1)
    match pieces[l.piece]? with
    | none => return (none, l, remaining + 1)
    | some c =>
      if l.offset < c.size then
        match ← Routine.take (c.base + l.offset) with
        | none => return (some (.ok freed), l, remaining + 1)
        | some b =>
          if b.tag = c.base + l.offset then
            Routine.release b.block
            Routine.count .foreignFree
            drainFrom worker pieces limit remaining (l.next c) (freed + 1)
          else
            Routine.note (.tagMismatch worker (c.base + l.offset) b.tag)
            return (some (.error (.corruptTag (c.base + l.offset) b.tag)), l, remaining + 1)
      else return (none, l, remaining + 1)

/-- Frees pending blocks in order, at most `limit` of them; `none` sets no limit. -/
def drain (h : Hand) (limit : Option Nat) : Routine (Option (Except Error Nat) × Hand) := do
  let (result, l, remaining) ← drainFrom h.worker h.pieces limit h.remaining h.toBookmark 0
  return (result, { h with toBookmark := l, remaining })

/-- Drains one after the other, whether the drains before succeeded or not. -/
def drains : List (Option Nat) → Hand → Routine (Option Hand)
  | [], h => return some h
  | limit :: rest, h => do
    match ← h.drain limit with
    | (none, _) => return none
    | (some _, h) => drains rest h

end Hand

/-! ## Places -/

/-- A place inside its chunk, with as many blocks remaining as there are slots from there on. -/
structure Bookmark.Fit (l : Bookmark) (pieces : Array Piece) (remaining : Nat) : Prop where
  pos : ∀ c ∈ pieces, 0 < c.size
  inside : ∀ c, pieces[l.piece]? = some c → l.offset < c.size
  remaining_eq : remaining = (l.ahead pieces).length

namespace Bookmark

variable {l : Bookmark} {pieces : Array Piece} {c : Piece} {n : Nat}

theorem ahead_eq_append (hc : pieces[l.piece]? = some c) (hl : l.offset < c.size) :
    l.ahead pieces = List.range' (c.base + l.offset) (c.size - l.offset)
      ++ (pieces.toList.drop (l.piece + 1)).flatMap Piece.slots := by
  obtain ⟨hlt, hget⟩ := List.getElem?_eq_some_iff.mp (Array.getElem?_toList ▸ hc)
  have hlength : l.offset ≤ c.slots.length := by
    rw [Piece.slots, List.length_range']
    omega
  rw [ahead, List.drop_eq_getElem_cons hlt, hget, List.flatMap_cons,
    List.drop_append_of_le_length hlength, Piece.slots, List.drop_range', Nat.mul_one]

theorem ahead_of_getElem? (hc : pieces[l.piece]? = some c) (hl : l.offset < c.size) :
    l.ahead pieces = (c.base + l.offset) :: (l.next c).ahead pieces := by
  rw [ahead_eq_append hc hl, show c.size - l.offset = c.size - (l.offset + 1) + 1 by omega,
    List.range'_succ, List.cons_append]
  congr 1
  unfold next
  split
  · rename_i hend
    rw [hend, Nat.sub_self]
    rfl
  · rename_i hend
    rw [ahead_eq_append (l := ⟨l.piece, l.offset + 1⟩) hc (by dsimp only; omega)]
    rfl

theorem Fit.next (h : l.Fit pieces (n + 1)) : ∃ c, pieces[l.piece]? = some c
    ∧ l.offset < c.size ∧ l.ahead pieces = (c.base + l.offset) :: (l.next c).ahead pieces
    ∧ (l.next c).Fit pieces n := by
  cases hc : pieces[l.piece]? with
  | none =>
      -- past the last chunk nothing is ahead
      have hend := h.remaining_eq
      rw [Array.getElem?_eq_none_iff] at hc
      rw [ahead, List.drop_of_length_le (i := l.piece) (by rwa [Array.length_toList])] at hend
      simp at hend
  | some c =>
      have hl := h.inside c hc
      have hahead := ahead_of_getElem? hc hl
      refine ⟨c, rfl, hl, hahead, h.pos, fun d hd => ?_, ?_⟩
      · unfold Bookmark.next at hd ⊢
        split at hd
        · rename_i hend
          rw [if_pos hend]
          exact h.pos d (Array.mem_of_getElem? hd)
        · rename_i hend
          rw [if_neg hend]
          rw [show (⟨l.piece, l.offset + 1⟩ : Bookmark).piece = l.piece from rfl, hc] at hd
          cases hd
          show l.offset + 1 < c.size
          omega
      · have hremaining := h.remaining_eq
        rw [hahead, List.length_cons] at hremaining
        omega

end Bookmark

namespace Hand

/-! ## Drains -/

/-- A drain by index is a drain of the slots from the place on. -/
theorem drainFrom_eq {worker : Nat} {pieces : Array Piece} {limit : Option Nat} :
    ∀ {remaining : Nat} {l : Bookmark} {freed : Nat}, l.Fit pieces remaining →
      (∀ n, limit = some n → freed ≤ n) →
      (fun out => (out.1, out.2.1.ahead pieces)) <$>
          drainFrom worker pieces limit remaining l freed
        = (fun out => (some out.1, out.2)) <$>
          Inbox.drainFrom worker (l.ahead pieces) limit freed
  | 0, l, freed, h, _ => by
      have hnil : l.ahead pieces = [] := List.eq_nil_of_length_eq_zero h.remaining_eq.symm
      rw [hnil, drainFrom, Inbox.drainFrom, map_pure, map_pure, hnil]
  | remaining + 1, l, freed, h, hfreed => by
      obtain ⟨c, hc, hl, hahead, hnext⟩ := h.next
      have hlimit : limit.any (· ≤ freed) = true ↔ limit = some freed := by
        cases limit with
        | none => simp
        | some n =>
            have := hfreed n rfl
            simp
            omega
      rw [hahead]
      unfold drainFrom Inbox.drainFrom
      by_cases hstop : limit = some freed
      · rw [if_pos (hlimit.mpr hstop), if_pos hstop, map_pure, map_pure, hahead]
      · rw [if_neg fun h => hstop (hlimit.mp h), if_neg hstop, hc]
        simp only [if_pos hl, map_bind]
        refine bind_congr fun taken => ?_
        cases taken with
        | none => simp only [map_pure, hahead]
        | some b =>
            by_cases htag : b.tag = c.base + l.offset
            · simp only [if_pos htag, map_bind]
              refine bind_congr fun _ => bind_congr fun _ => drainFrom_eq hnext fun n hn => ?_
              have hne : n ≠ freed := fun heq => hstop (heq ▸ hn)
              have := hfreed n hn
              omega
            · simp only [if_neg htag, map_bind, map_pure, hahead]

/-- What a drain does to the pool: it takes blocks from these slots. -/
def Draining (slots : List Nat) : Action → Prop
  | .take slot => slot ∈ slots
  | .release _ | .count _ | .note _ => True
  | _ => False

/-- The three numbers of a hand agree with its chunks. -/
def Fit (h : Hand) : Prop := h.toBookmark.Fit h.pieces h.remaining

theorem confined_drainFrom {worker : Nat} {pieces : Array Piece} {limit : Option Nat}
    {slots : List Nat} : ∀ {remaining : Nat} {l : Bookmark} {freed : Nat},
      l.Fit pieces remaining → (∀ s ∈ l.ahead pieces, s ∈ slots) →
      (drainFrom worker pieces limit remaining l freed).Confined (Draining slots)
        (fun _ _ => True) fun out => out.1.isSome ∧ out.2.1.Fit pieces out.2.2
          ∧ ∀ s ∈ out.2.1.ahead pieces, s ∈ slots
  | 0, l, freed, h, hslots => ⟨rfl, h, hslots⟩
  | remaining + 1, l, freed, h, hslots => by
      obtain ⟨c, hc, hl, hahead, hnext⟩ := h.next
      have hhere : c.base + l.offset ∈ slots := hslots _ (hahead ▸ List.mem_cons_self)
      have hthere : ∀ s ∈ (l.next c).ahead pieces, s ∈ slots := fun s hs =>
        hslots s (hahead ▸ List.mem_cons_of_mem _ hs)
      unfold drainFrom
      by_cases hstop : limit.any (· ≤ freed) = true
      · rw [if_pos hstop]
        exact ⟨rfl, h, hslots⟩
      · rw [if_neg hstop, hc]
        simp only [if_pos hl]
        refine (Routine.confined_perform (.take _) hhere).bind fun taken _ => ?_
        cases taken with
        | none => exact ⟨rfl, h, hslots⟩
        | some b =>
            by_cases htag : b.tag = c.base + l.offset
            · simp only [if_pos htag]
              exact ⟨trivial, fun _ _ => ⟨trivial, fun _ _ => confined_drainFrom hnext hthere⟩⟩
            · simp only [if_neg htag]
              exact ⟨trivial, fun _ _ => ⟨rfl, h, hslots⟩⟩

theorem ahead_subset (h : Hand) : ∀ s ∈ h.toBookmark.ahead h.pieces, s ∈ h.slots := by
  intro s hs
  obtain ⟨c, hc, hsc⟩ := List.mem_flatMap.mp (List.mem_of_mem_drop hs)
  exact List.mem_flatMap.mpr ⟨c, List.mem_of_mem_drop hc, hsc⟩

/-- A drain of a hand that fits takes blocks from its slots and leaves a hand that fits. -/
theorem confined_drain {h : Hand} (hfit : h.Fit) (limit : Option Nat) :
    (h.drain limit).Confined (Draining h.slots) (fun _ _ => True) fun out =>
      out.1.isSome ∧ out.2.Fit ∧ out.2.slots = h.slots := by
  unfold drain
  exact (confined_drainFrom hfit h.ahead_subset).bind fun out hout => ⟨hout.1, hout.2.1, rfl⟩

/-- So does any number of drains. -/
theorem confined_drains : ∀ (limits : List (Option Nat)) {h : Hand}, h.Fit →
    (h.drains limits).Confined (Draining h.slots) (fun _ _ => True) fun out =>
      ∃ h', out = some h' ∧ h'.Fit ∧ h'.slots = h.slots
  | [], h, hfit => ⟨h, rfl, hfit, rfl⟩
  | limit :: rest, h, hfit => by
      unfold drains
      refine (confined_drain hfit limit).bind ?_
      rintro ⟨result, h'⟩ ⟨hresult, hfit', hslots⟩
      cases result with
      | none => cases hresult
      | some result =>
          have hrest := confined_drains rest hfit'
          rw [hslots] at hrest
          exact hrest

/-- A hand that fits drains as the inbox does that lists its slots. -/
theorem inbox_drain {h : Hand} (hfit : h.Fit) (limit : Option Nat) :
    (fun out => (out.1, out.2.inbox)) <$> h.drain limit
      = (fun out => (some out.1, out.2)) <$> h.inbox.drain limit := by
  have hdrain := congrArg (fun r => (fun out => (out.1, { h.inbox with ahead := out.2 })) <$> r)
    (@drainFrom_eq h.worker h.pieces limit h.remaining h.toBookmark 0 hfit fun _ _ => Nat.zero_le _)
  simp only [Functor.map_map] at hdrain
  unfold drain Inbox.drain
  simp only [bind_pure_comp, Functor.map_map]
  exact hdrain

/-- Where nothing remains a drain does nothing. -/
theorem drain_of_remaining_eq_zero {h : Hand} (hremaining : h.remaining = 0)
    (limit : Option Nat) : h.drain limit = pure (some (.ok 0), h) := by
  obtain ⟨l, worker, pieces, remaining⟩ := h
  obtain rfl : remaining = 0 := hremaining
  rfl

theorem foldl_receive : ∀ (cards : List Piece) (h : Hand), cards.foldl receive h
    = { h with
        pieces := h.pieces ++ cards.toArray
        remaining := h.remaining + (cards.map (·.size)).sum }
  | [], h => by simp
  | c :: cards, h => by
      rw [List.foldl_cons, foldl_receive cards]
      simp [receive, Nat.add_assoc]

theorem fit_start {worker : Nat} {cards : List Piece} (hpos : ∀ c ∈ cards, 0 < c.size) :
    Fit { worker, pieces := cards.toArray, remaining := (cards.map (·.size)).sum } where
  pos c hc := hpos c (List.mem_toArray.mp hc)
  inside c hc := hpos c (List.mem_toArray.mp (Array.mem_of_getElem? hc))
  remaining_eq := by
    simp [Bookmark.ahead, Piece.slots, List.length_flatMap]

end Hand

end HeapChurn
