import HeapChurn.Proofs.Schema.FirstFault
import HeapChurn.Proofs.Schema.Renaming

/-!
# Readers of lists and records

How a library reads a document is declared and not programmed: a list has items of one kind, a record
has fields with names. `Library.Derives` says what such a declaration comes to. A list is read item by
item, a record by its keys or, where it is written as an array, by the places of its fields, and the
first value that is not what is expected is the fault of the whole. Nothing else is relied on where
something is proved of documents. The library that comes with the program keeps to it
(`derives_library`).
-/

namespace HeapChurn

open Schema

/-- What readers do that are derived from the declaration of a list or of a record of words. -/
structure Toml.Library.Derives (toml : Toml.Library) : Prop where
  /-- An array is read item by item, in order. -/
  sequence_ok : ∀ {α : Type} {item : Decoder α} {items : List Toml.Value} {xs : List α},
    List.Forall₂ (fun v x => item v = .ok x) items xs → toml.sequence item (.array items) = .ok xs
  /-- The first item that cannot be read gives the fault. -/
  sequence_fault : ∀ {α : Type} {item : Decoder α} {items : List Toml.Value} {fault : Fault},
    FirstFault (fun v => ∃ x, item v = .ok x) (fun v fault => item v = .error fault) items fault →
      toml.sequence item (.array items) = .error fault
  /-- Only an array is a list. -/
  sequence_other : ∀ {α : Type} {item : Decoder α} {v : Toml.Value}, (∀ items, v ≠ .array items) →
    toml.sequence item v = .error (.wrongType (.ofValue v) .sequence)
  /-- A table gives each field what it has under the key of that name. Other keys are ignored. -/
  record_table : ∀ (name : String) {fields : List String} {entries : Toml.Table},
    Toml.Ordinary fields → Toml.Distinct entries → (∀ entry ∈ entries, entry.1 ∈ fields → Natural entry.2) →
      ∃ given, toml.record name fields (.table entries) = .ok given
        ∧ ∀ key ∈ fields, entries.lookup key = (given.lookup key).map fun n => .integer n
  /-- Keys are met in the order of the table, and the first field that is no word gives the fault. -/
  record_table_fault : ∀ {name : String} {fields : List String} {entries : Toml.Table}
    {fault : Fault}, Toml.Ordinary fields → Toml.Distinct entries →
      FirstFault (fun entry => entry.1 ∈ fields → Natural entry.2)
        (fun entry fault => entry.1 ∈ fields ∧ WordFault entry.2 fault) entries fault →
      toml.record name fields (.table entries) = .error fault
  /-- An array gives the fields their words in the order of the declaration. Further items are
  ignored. -/
  record_array : ∀ {name : String} {fields : List String} (words : List Nat)
    {more : List Toml.Value}, Toml.Ordinary fields → words.length = fields.length →
      toml.record name fields (.array (words.map (fun n => .integer n) ++ more))
        = .ok (fields.zip words)
  record_array_fault : ∀ {name : String} {fields : List String} {items : List Toml.Value}
    {fault : Fault}, Toml.Ordinary fields →
      FirstFault Natural WordFault (items.take fields.length) fault →
        toml.record name fields (.array items) = .error fault
  /-- An array has to have an item for every field. -/
  record_array_short : ∀ {name : String} {fields : List String} {items : List Toml.Value},
    Toml.Ordinary fields → (∀ v ∈ items, Natural v) → items.length < fields.length →
      toml.record name fields (.array items)
        = .error (.tooShort items.length name fields.length)
  /-- A date or a time is handed on as a table with one key, which is no field of an ordinary
  record. -/
  record_moment : ∀ {name : String} {fields : List String} {text : String},
    Toml.Ordinary fields → toml.record name fields (.moment text) = .ok []
  /-- Nothing else is a record. -/
  record_other : ∀ {name : String} {fields : List String} {v : Toml.Value},
    Toml.Ordinary fields → (∀ entries, v ≠ .table entries) → (∀ items, v ≠ .array items) →
      (∀ text, v ≠ .moment text) →
        toml.record name fields v = .error (.wrongType (.ofValue v) (.record name))

/-! ## The library of the program -/

namespace Schema

variable {name : String} {fields : List String} {entries : Toml.Table} {items : List Toml.Value}
  {v : Toml.Value} {fault : Fault}

theorem exists_record_table (name : String)
    (h : ∀ entry ∈ entries, entry.1 ∈ fields → Natural entry.2) :
    ∃ given, record name fields (.table entries) = .ok given
      ∧ ∀ key ∈ fields, entries.lookup key = (given.lookup key).map fun n => .integer n := by
  have hread : ∀ entry ∈ entries.filter fun entry => fields.contains entry.1,
      ∃ given, field entry = .ok given := fun entry hentry => by
    obtain ⟨hmem, hkeep⟩ := List.mem_filter.mp hentry
    exact (h entry hmem (List.contains_iff_mem.mp hkeep)).exists_field entry.1
  obtain ⟨given, hgiven⟩ := exists_mapM_ok hread
  exact ⟨given, hgiven, fun key hkey => lookup_fields (List.contains_iff_mem.mpr hkey) hgiven⟩

theorem record_table_of_firstFault (name : String)
    (h : FirstFault (fun entry => entry.1 ∈ fields → Natural entry.2)
      (fun entry fault => entry.1 ∈ fields ∧ WordFault entry.2 fault) entries fault) :
    record name fields (.table entries) = .error fault := by
  have hfiltered : FirstFault (fun entry => Natural entry.2)
      (fun entry fault => WordFault entry.2 fault)
      (entries.filter fun entry => fields.contains entry.1) fault :=
    h.filter fun _ => List.contains_iff_mem
  exact hfiltered.mapM_eq_error (fun entry _ hnatural => hnatural.exists_field entry.1)
    fun entry _ fault hfault => hfault.field_eq_error entry.1

theorem mapM_field_zip (more : List Toml.Value) : ∀ {fields : List String} {words : List Nat},
    words.length = fields.length →
      (fields.zip (words.map (fun n : Nat => .integer n) ++ more)).mapM field
        = .ok (fields.zip words)
  | [], [], _ => rfl
  | key :: fields, n :: words, h => by
      rw [List.map_cons, List.cons_append, List.zip_cons_cons, List.mapM_cons, field_natural,
        mapM_field_zip more (Nat.succ.inj h)]
      rfl

theorem record_array_of_long (name : String) (h : fields.length ≤ items.length) :
    record name fields (.array items) = (fields.zip items).mapM field := by
  rw [record]
  cases (fields.zip items).mapM field with
  | error fault => rfl
  | ok given => exact if_neg (Nat.not_lt.mpr h)

theorem record_array_of_words (name : String) {words : List Nat}
    (h : words.length = fields.length) (more : List Toml.Value) :
    record name fields (.array (words.map (fun n : Nat => .integer n) ++ more))
      = .ok (fields.zip words) := by
  rw [record_array_of_long name, mapM_field_zip more h]
  rw [List.length_append, List.length_map, h]
  exact Nat.le_add_right _ _

/-- The items of an array are read for the fields, as far as there are items. -/
theorem mapM_field_zip_of_firstFault : ∀ {fields : List String} {items : List Toml.Value},
    FirstFault Natural WordFault (items.take fields.length) fault →
      (fields.zip items).mapM field = .error fault
  | [], _, h => by cases h
  | _ :: _, [], h => by cases h
  | key :: fields, v :: items, h => by
      rw [List.zip_cons_cons, List.mapM_cons]
      cases h with
      | here h =>
          rw [h.field_eq_error]
          rfl
      | later hsound h =>
          obtain ⟨n, rfl⟩ := hsound
          rw [field_natural, mapM_field_zip_of_firstFault h]
          rfl

theorem record_array_of_short (h : ∀ v ∈ items, Natural v) (hlength : items.length < fields.length) :
    record name fields (.array items) = .error (.tooShort items.length name fields.length) := by
  have hread : ∀ entry ∈ fields.zip items, ∃ given, field entry = .ok given :=
    fun entry hentry => (h entry.2 (List.of_mem_zip hentry).2).exists_field entry.1
  obtain ⟨given, hgiven⟩ := exists_mapM_ok hread
  rw [record, hgiven]
  exact if_pos hlength

end Schema

theorem Toml.derives_library : Toml.library.Derives where
  sequence_ok := mapM_eq_ok
  sequence_fault h := h.mapM_eq_error (fun _ _ hx => hx) fun _ _ _ hfault => hfault
  sequence_other {_ _ v} h := by
    cases v with
    | array items => exact absurd rfl (h items)
    | _ => rfl
  record_table name _ _ _ _ h := exists_record_table name h
  record_table_fault {name _ _ _} _ _ h := record_table_of_firstFault name h
  record_array {name _} _ _ _ h := record_array_of_words name h _
  record_array_fault {_ _ _ _} _ h := by
    change record _ _ (.array _) = _
    rw [record, mapM_field_zip_of_firstFault h]
    rfl
  record_array_short _ := record_array_of_short
  record_moment _ := rfl
  record_other {_ _ v} _ htable harray hmoment := by
    cases v with
    | table entries => exact absurd rfl (htable entries)
    | array items => exact absurd rfl (harray items)
    | moment text => exact absurd rfl (hmoment text)
    | _ => rfl

end HeapChurn
