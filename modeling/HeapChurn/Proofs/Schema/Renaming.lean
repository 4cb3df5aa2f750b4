import HeapChurn.Histogram.File

/-!
# Records under other names

The name of a record is there for messages. In a library for which this is so (`NameBlind`) what is
read under one name is read under any other (`Bucket.decode_rename`), and so two readers that differ in
their names take the same values. The library that comes with the program is one of these
(`nameBlind_library`).
-/

namespace HeapChurn

namespace Schema

variable {α β ε : Type}

theorem bind_eq_ok {x : Except ε α} {f : α → Except ε β} {b : β} :
    (x >>= f) = .ok b ↔ ∃ a, x = .ok a ∧ f a = .ok b := by
  cases x with
  | error e => exact ⟨nofun, fun ⟨_, h, _⟩ => nomatch h⟩
  | ok a =>
      constructor
      · exact fun h => ⟨a, rfl, h⟩
      · rintro ⟨a', ha, hb⟩
        obtain rfl := Except.ok.inj ha
        exact hb

/-- A reader of items that takes more values takes more arrays. -/
theorem mapM_mono {item other : Toml.Value → Except ε α}
    (hitem : ∀ v x, item v = .ok x → other v = .ok x) :
    ∀ {items : List Toml.Value} {xs : List α}, items.mapM item = .ok xs → items.mapM other = .ok xs
  | [], _, h => h
  | v :: items, _, h => by
      rw [List.mapM_cons] at h ⊢
      obtain ⟨x, hx, h⟩ := bind_eq_ok.mp h
      obtain ⟨xs, hxs, h⟩ := bind_eq_ok.mp h
      exact bind_eq_ok.mpr ⟨x, hitem v x hx, bind_eq_ok.mpr ⟨xs, mapM_mono hitem hxs, h⟩⟩

end Schema

/-- No field has a name that begins with a dollar sign. Libraries know values that are no tables by
fields with such names. -/
def Toml.Ordinary (fields : List String) : Prop := ∀ key ∈ fields, key.toList.head? ≠ some '$'

/-- What is read does not depend on the names of records. -/
structure Toml.Library.NameBlind (toml : Toml.Library) : Prop where
  /-- A record that is read under one name is read under any other. -/
  record : ∀ {name : String} {fields : List String} {v : Toml.Value} {given : Schema.Fields},
    Toml.Ordinary fields → toml.record name fields v = .ok given →
      ∀ other, toml.record other fields v = .ok given
  /-- Where a reader of items does as well as another, so do the arrays that are read by it. -/
  sequence : ∀ {α : Type} {item other : Schema.Decoder α} {v : Toml.Value} {xs : List α},
    (∀ v x, item v = .ok x → other v = .ok x) →
      toml.sequence item v = .ok xs → toml.sequence other v = .ok xs

namespace Bucket

theorem ordinary_fields : Toml.Ordinary ["size", "count"] := by simp [Toml.Ordinary]

variable {toml : Toml.Library} (hblind : toml.NameBlind)

include hblind

/-- A bucket that is read under one name is read under any other. -/
theorem decode_rename {name : String} {v : Toml.Value} {b : Bucket}
    (h : decode name toml v = .ok b) (other : String) : decode other toml v = .ok b := by
  obtain ⟨given, hgiven, h⟩ := Schema.bind_eq_ok.mp h
  exact Schema.bind_eq_ok.mpr ⟨given, hblind.record ordinary_fields hgiven other, h⟩

/-- A table of buckets is read alike under all names. -/
theorem sequence_rename (name other : String) (v : Toml.Value) (table : List Bucket) :
    toml.sequence (decode name toml) v = .ok table
      ↔ toml.sequence (decode other toml) v = .ok table :=
  ⟨hblind.sequence fun _ _ h => decode_rename hblind h other,
    hblind.sequence fun _ _ h => decode_rename hblind h name⟩

end Bucket

/-! ## The library of the program -/

namespace Schema

variable {α : Type} {v : Toml.Value}

theorem record_rename {name : String} {fields : List String} {given : Fields}
    (h : record name fields v = .ok given) (other : String) :
    record other fields v = .ok given := by
  cases v with
  | table entries => exact h
  | moment text => exact h
  | array items =>
      obtain ⟨read, hread, h⟩ := bind_eq_ok.mp h
      refine bind_eq_ok.mpr ⟨read, hread, ?_⟩
      split at h
      · cases h
      · rename_i hlength
        rw [if_neg hlength]
        exact h
  | string text => cases h
  | integer value => cases h
  | float value => cases h
  | boolean value => cases h

theorem sequence_mono {item other : Decoder α} {xs : List α}
    (hitem : ∀ v x, item v = .ok x → other v = .ok x) (h : sequence item v = .ok xs) :
    sequence other v = .ok xs := by
  cases v with
  | array items => exact mapM_mono hitem h
  | table entries => cases h
  | moment text => cases h
  | string text => cases h
  | integer value => cases h
  | float value => cases h
  | boolean value => cases h

end Schema

theorem Toml.nameBlind_library : Toml.library.NameBlind :=
  ⟨fun _ => Schema.record_rename, Schema.sequence_mono⟩

end HeapChurn
