import HeapChurn.Proofs.Routine.Action
import Mathlib.Algebra.Group.Basic

/-!
# How counters grow

Counters add up like words, field by field. What a journal's counters gain is what was counted: blocks
that are handed back count for nothing by themselves, and a drain counts one block at a time.
`Journal.Gained` puts this beside the events that a journal gains, and what is done in a row adds up.
-/

namespace HeapChurn

attribute [ext] Counters

namespace Counters

section Fields

variable (c d : Counters)

@[simp] theorem allocs_add : (c + d).allocs = c.allocs + d.allocs := rfl

@[simp] theorem allocBytes_add : (c + d).allocBytes = c.allocBytes + d.allocBytes := rfl

@[simp] theorem frees_add : (c + d).frees = c.frees + d.frees := rfl

@[simp] theorem retires_add : (c + d).retires = c.retires + d.retires := rfl

@[simp] theorem foreignAllocs_add : (c + d).foreignAllocs = c.foreignAllocs + d.foreignAllocs := rfl

@[simp] theorem foreignFrees_add : (c + d).foreignFrees = c.foreignFrees + d.foreignFrees := rfl

end Fields

instance : Zero Counters := ⟨{}⟩

instance : AddCommMonoid Counters where
  add_assoc c d e := by ext1 <;> exact UInt64.add_assoc _ _ _
  zero_add c := by ext1 <;> exact UInt64.zero_add _
  add_zero c := by ext1 <;> exact UInt64.add_zero _
  add_comm c d := by ext1 <;> exact UInt64.add_comm _ _
  nsmul := nsmulRec

/-- So many foreign blocks were drained. -/
def drains (n : Nat) : Counters := { foreignFrees := UInt64.ofNat n }

/-- So many foreign blocks were stored. -/
def stores (n : Nat) : Counters := { foreignAllocs := UInt64.ofNat n }

theorem drains_add (m n : Nat) : drains (m + n) = drains m + drains n := by
  ext1
  case foreignFrees => exact UInt64.ofNat_add m n
  all_goals rfl

theorem stores_add (m n : Nat) : stores (m + n) = stores m + stores n := by
  ext1
  case foreignAllocs => exact UInt64.ofNat_add m n
  all_goals rfl

end Counters

namespace Journal

@[simp] theorem counters_counted (j : Journal) (growth : Counters) :
    (j.counted growth).counters = j.counters + growth := rfl

@[simp] theorem counters_returned (blocks : List Block) (j : Journal) :
    (j.returned blocks).counters = j.counters := by
  unfold returned
  induction blocks generalizing j with
  | nil => rfl
  | cons b rest ih =>
      rw [List.foldl_cons, ih]
      rfl

theorem counters_drained : ∀ (blocks : List Block) (j : Journal),
    (j.drained blocks).counters = j.counters + .drains blocks.length
  | [], j => (add_zero j.counters).symm
  | b :: rest, j => by
      have ih := counters_drained rest ((j.recordEvent (.released b)).counted .foreignFree)
      refine ih.trans ?_
      rw [List.length_cons, Nat.add_comm, Counters.drains_add, ← add_assoc]
      rfl

/-! ## Events and counters -/

/-- What a journal has gained since it was `i`. -/
structure Gained (i j : Journal) (new : List Event) (growth : Counters) : Prop where
  events : j.events.toList = i.events.toList ++ new
  counters : j.counters = i.counters + growth

variable {i j k : Journal} {new more : List Event} {growth growth' : Counters}

theorem Gained.refl (j : Journal) : j.Gained j [] 0 :=
  ⟨(List.append_nil _).symm, (add_zero _).symm⟩

theorem Gained.trans (h : i.Gained j new growth) (h' : j.Gained k more growth') :
    i.Gained k (new ++ more) (growth + growth') where
  events := by rw [h'.events, h.events, List.append_assoc]
  counters := by rw [h'.counters, h.counters, add_assoc]

theorem Gained.drop (h : i.Gained j new growth) :
    j.events.toList.drop i.events.toList.length = new := by
  rw [h.events, List.drop_left]

theorem gained_recorded (j : Journal) (e : Event) : j.Gained (j.recordEvent e) [e] 0 :=
  ⟨Array.toList_push, (add_zero _).symm⟩

theorem gained_counted (j : Journal) (growth : Counters) : j.Gained (j.counted growth) [] growth :=
  ⟨(List.append_nil _).symm, rfl⟩

theorem gained_noted (j : Journal) (notice : Notice) : j.Gained (j.noted notice) [] 0 :=
  ⟨(List.append_nil _).symm, (add_zero _).symm⟩

theorem gained_refused (j : Journal) (b : Block) : j.Gained (j.refused b) [.refused b] 0 :=
  ⟨Array.toList_push, (add_zero _).symm⟩

theorem gained_granted (j : Journal) (b : Block) : j.Gained (j.granted b) [.granted b] 0 :=
  ⟨Array.toList_push, (add_zero _).symm⟩

end Journal

theorem Routine.gained_notes {a : Allocator} : ∀ (notices : List Notice) (v : View),
    v.journal.Gained ((notices.forM note).run a v).2.journal [] 0
  | [], v => .refl v.journal
  | notice :: rest, v =>
      (v.journal.gained_noted notice).trans
        (gained_notes rest ⟨v.pool, v.journal.noted notice⟩)

end HeapChurn
