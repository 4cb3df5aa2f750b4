import HeapChurn.Proofs.Schema.Renaming
import HeapChurn.Proofs.Toml.Keys
import Mathlib.Data.List.Forall2

/-!
# The first fault

What a document has under the keys of a record is read in the order of the document, and the first
value that is no word ends the reading. So a list of values is either sound, and then all of it is
read (`exists_mapM_ok`), or it has a first fault, and then that is what the reader reports
(`FirstFault.mapM_eq_error`).

A record of words that is read gives for each field what its table has under the key of the field
(`lookup_fields`).
-/

namespace HeapChurn

namespace Schema

section FirstFault

variable {α β ε : Type} {Sound : α → Prop} {Faulty : α → ε → Prop} {items : List α}
  {fault : ε}

/-- The first item that is not sound has this fault. -/
inductive FirstFault (Sound : α → Prop) (Faulty : α → ε → Prop) : List α → ε → Prop
  | here {item : α} {items : List α} {fault : ε} (h : Faulty item fault) :
      FirstFault Sound Faulty (item :: items) fault
  | later {item : α} {items : List α} {fault : ε} (hsound : Sound item)
      (h : FirstFault Sound Faulty items fault) : FirstFault Sound Faulty (item :: items) fault

/-- Items that are not kept count for nothing. -/
theorem FirstFault.filter {keep : α → Bool} {Kept : α → Prop}
    (h : FirstFault (fun item => Kept item → Sound item)
      (fun item fault => Kept item ∧ Faulty item fault) items fault)
    (hkeep : ∀ item, keep item = true ↔ Kept item) :
    FirstFault Sound Faulty (items.filter keep) fault := by
  induction h with
  | here h =>
      rw [List.filter_cons_of_pos ((hkeep _).mpr h.1)]
      exact .here h.2
  | @later item items fault hsound _ ih =>
      rw [List.filter_cons]
      split
      · rename_i hkept
        exact .later (hsound ((hkeep item).mp hkept)) ih
      · exact ih

/-- Where every item is sound or has a fault, all of them are sound or there is a first fault. -/
theorem forall_or_firstFault : ∀ {items : List α},
    (∀ item ∈ items, Sound item ∨ ∃ fault, Faulty item fault) →
      (∀ item ∈ items, Sound item) ∨ ∃ fault, FirstFault Sound Faulty items fault
  | [], _ => .inl nofun
  | item :: items, h => by
      obtain ⟨hitem, hitems⟩ := List.forall_mem_cons.mp h
      rcases hitem with hsound | ⟨fault, hfault⟩
      · rcases forall_or_firstFault hitems with hall | ⟨fault, hfault⟩
        · exact .inl (List.forall_mem_cons.mpr ⟨hsound, hall⟩)
        · exact .inr ⟨fault, .later hsound hfault⟩
      · exact .inr ⟨fault, .here hfault⟩

variable {read : α → Except ε β}

/-- A reader that reads every sound item and reports every faulty one reports the first fault. -/
theorem FirstFault.mapM_eq_error (h : FirstFault Sound Faulty items fault)
    (hsound : ∀ item ∈ items, Sound item → ∃ x, read item = .ok x)
    (hfaulty : ∀ item ∈ items, ∀ fault, Faulty item fault → read item = .error fault) :
    items.mapM read = .error fault := by
  induction h with
  | here h =>
      rw [List.mapM_cons, hfaulty _ List.mem_cons_self _ h]
      rfl
  | later hitem _ ih =>
      obtain ⟨x, hx⟩ := hsound _ List.mem_cons_self hitem
      rw [List.mapM_cons, hx, ih (fun item hmem => hsound item (List.mem_cons_of_mem _ hmem))
        fun item hmem => hfaulty item (List.mem_cons_of_mem _ hmem)]
      rfl

theorem mapM_eq_ok {xs : List β} (h : List.Forall₂ (fun item x => read item = .ok x) items xs) :
    items.mapM read = .ok xs := by
  induction h with
  | nil => rfl
  | cons hx _ ih =>
      rw [List.mapM_cons, hx, ih]
      rfl

theorem exists_mapM_ok : ∀ {items : List α}, (∀ item ∈ items, ∃ x, read item = .ok x) →
    ∃ xs, items.mapM read = .ok xs
  | [], _ => ⟨[], rfl⟩
  | item :: items, h => by
      obtain ⟨⟨x, hx⟩, hitems⟩ := List.forall_mem_cons.mp h
      obtain ⟨xs, hxs⟩ := exists_mapM_ok hitems
      refine ⟨x :: xs, ?_⟩
      rw [List.mapM_cons, hx, hxs]
      rfl

end FirstFault

/-! ## Words -/

/-- A natural number. -/
def Natural (v : Toml.Value) : Prop := ∃ n : Nat, v = .integer n

/-- Why a value is no natural number: it is a negative one, or no integer at all. -/
inductive WordFault : Toml.Value → Fault → Prop
  | negative {z : Int} (h : z < 0) : WordFault (.integer z) (.negative z)
  | mismatch {v : Toml.Value} (h : ∀ z, v ≠ .integer z) :
      WordFault v (.wrongType (.ofValue v) .word)

variable {v : Toml.Value} {fault : Fault}

theorem word_natural (n : Nat) : word (.integer n) = .ok n := by
  rw [word, if_neg (by omega), Int.toNat_natCast]

theorem WordFault.word_eq_error (h : WordFault v fault) : word v = .error fault := by
  cases h with
  | negative h => exact if_pos h
  | mismatch h =>
      cases v with
      | integer z => exact absurd rfl (h z)
      | _ => rfl

theorem natural_or_wordFault (v : Toml.Value) : Natural v ∨ ∃ fault, WordFault v fault := by
  cases v with
  | integer z =>
      by_cases hneg : z < 0
      · exact .inr ⟨_, .negative hneg⟩
      · exact .inl ⟨z.toNat, by rw [Int.toNat_of_nonneg (Int.not_lt.mp hneg)]⟩
  | _ => exact .inr ⟨_, .mismatch nofun⟩

/-! ## Fields -/

theorem field_natural (key : String) (n : Nat) : field (key, .integer n) = .ok (key, n) := by
  rw [field, word_natural]
  rfl

theorem Natural.exists_field (h : Natural v) (key : String) : ∃ given, field (key, v) = .ok given := by
  obtain ⟨n, rfl⟩ := h
  exact ⟨(key, n), field_natural key n⟩

theorem WordFault.field_eq_error (h : WordFault v fault) (key : String) :
    field (key, v) = .error fault := by
  rw [field, h.word_eq_error]
  rfl

theorem eq_of_field_eq_ok {entry : String × Toml.Value} {given : String × Nat}
    (h : field entry = .ok given) : entry = (given.1, .integer given.2) := by
  obtain ⟨key, v⟩ := entry
  rcases natural_or_wordFault v with ⟨n, rfl⟩ | ⟨fault, hfault⟩
  · rw [field_natural] at h
    obtain rfl := Except.ok.inj h
    rfl
  · rw [hfault.field_eq_error key] at h
    cases h

/-- Fields that are read have the words that the table has under their keys. -/
theorem lookup_fields {keep : String → Bool} {key : String} (hkey : keep key = true) :
    ∀ {entries : Toml.Table} {given : Fields},
      (entries.filter fun entry => keep entry.1).mapM field = .ok given →
        entries.lookup key = (given.lookup key).map fun n => .integer n
  | [], given, h => by
      obtain rfl := Except.ok.inj h
      rfl
  | (k, v) :: rest, given, h => by
      rw [List.filter_cons] at h
      by_cases hkeep : keep k = true
      · rw [if_pos hkeep, List.mapM_cons] at h
        obtain ⟨first, hfirst, h⟩ := bind_eq_ok.mp h
        obtain ⟨later, hlater, h⟩ := bind_eq_ok.mp h
        obtain rfl := Except.ok.inj h
        obtain ⟨rfl, rfl⟩ := Prod.mk.inj (eq_of_field_eq_ok hfirst)
        obtain ⟨k, n⟩ := first
        rw [List.lookup_cons, List.lookup_cons, lookup_fields hkey hlater]
        cases key == k <;> rfl
      · have hne : (key == k) = false := beq_false_of_ne fun heq => hkeep (heq ▸ hkey)
        rw [if_neg hkeep] at h
        rw [List.lookup_cons, hne]
        exact lookup_fields hkey h

end Schema

end HeapChurn
