import HeapChurn.Proofs.Build.Acceptance
import HeapChurn.Proofs.Schema.Readers

/-!
# Which documents are histograms

A document is read for one key, and a bucket for two. `Bucket.Spelled` and `Bucket.Misspelled` say
what may stand there and what is wrong with anything else, without reference to a reader; each value
is one or the other, and every library with derived readers agrees with both. So the outcome for a
document is settled by what it has under its one key (`ofDocument_settled`), and nothing else in it
counts (`ofDocument_essence_eq`).
-/

namespace HeapChurn

namespace Bucket

open Schema

/-- A key that a bucket reads. -/
def Reads (key : String) : Prop := key ∈ ["size", "count"]

theorem reads_size : Reads "size" := by simp [Reads]

theorem reads_count : Reads "count" := by simp [Reads]

/-- The value is a bucket: a table with both fields, or an array that begins with them. -/
inductive Spelled : Toml.Value → Bucket → Prop
  | table {entries : Toml.Table} {size count : Nat}
      (hsize : entries.lookup "size" = some (.integer size))
      (hcount : entries.lookup "count" = some (.integer count)) :
      Spelled (.table entries) ⟨size, count⟩
  | array {size count : Nat} {more : List Toml.Value} :
      Spelled (.array (.integer size :: .integer count :: more)) ⟨size, count⟩

/-- What is wrong with a value that is no bucket, a bucket being called by this name. In a table the
first field in the order of the file that is no natural number, or else a field that is missing. -/
inductive Misspelled (name : String) : Toml.Value → Fault → Prop
  | field {entries : Toml.Table} {fault : Fault}
      (h : FirstFault (fun entry => Reads entry.1 → Natural entry.2)
        (fun entry fault => Reads entry.1 ∧ WordFault entry.2 fault) entries fault) :
      Misspelled name (.table entries) fault
  | noSize {entries : Toml.Table} (h : ∀ entry ∈ entries, Reads entry.1 → Natural entry.2)
      (hsize : entries.lookup "size" = none) :
      Misspelled name (.table entries) (.missingField "size")
  | noCount {entries : Toml.Table} (h : ∀ entry ∈ entries, Reads entry.1 → Natural entry.2)
      (hsize : (entries.lookup "size").isSome) (hcount : entries.lookup "count" = none) :
      Misspelled name (.table entries) (.missingField "count")
  | item {items : List Toml.Value} {fault : Fault}
      (h : FirstFault Natural WordFault (items.take 2) fault) :
      Misspelled name (.array items) fault
  | short {items : List Toml.Value} (h : ∀ v ∈ items, Natural v) (hlength : items.length < 2) :
      Misspelled name (.array items) (.tooShort items.length name 2)
  /-- A date has parts, but none of them is a field. -/
  | moment {text : String} : Misspelled name (.moment text) (.missingField "size")
  | other {v : Toml.Value} (htable : ∀ entries, v ≠ .table entries)
      (harray : ∀ items, v ≠ .array items) (hmoment : ∀ text, v ≠ .moment text) :
      Misspelled name v (.wrongType (.ofValue v) (.record name))

section Decode

variable {toml : Toml.Library} {name : String} {v : Toml.Value} {b : Bucket} {fault : Fault}
  {entries : Toml.Table}

theorem decode_of_record_error (h : toml.record name ["size", "count"] v = .error fault) :
    decode name toml v = .error fault := by
  rw [decode, h]
  rfl

theorem decode_of_record {given : Fields} (h : toml.record name ["size", "count"] v = .ok given) :
    decode name toml v = do
      let size ← given.require "size"
      let count ← given.require "count"
      return { size, count } := by
  rw [decode, h]
  rfl

variable (hderives : toml.Derives) (hkeyed : v.Keyed)

include hderives hkeyed

theorem Spelled.decode_eq_ok (h : Spelled v b) : decode name toml v = .ok b := by
  cases h with
  | @table entries size count hsize hcount =>
      have hkeys := hkeyed.distinct
      have hnatural : ∀ entry ∈ entries, Reads entry.1 → Natural entry.2 := fun entry hmem hreads => by
        have hentry := hkeys.lookup (x := entry.2) hmem
        rcases List.mem_pair.mp hreads with hkey | hkey
        · rw [hkey, hsize] at hentry
          exact ⟨size, (Option.some.inj hentry).symm⟩
        · rw [hkey, hcount] at hentry
          exact ⟨count, (Option.some.inj hentry).symm⟩
      obtain ⟨given, hgiven, hlookup⟩ := hderives.record_table name ordinary_fields hkeys hnatural
      have hfield : ∀ {key n}, Reads key → entries.lookup key = some (.integer (n : Nat)) →
          given.require key = .ok n := fun {key n} hreads hn => by
        rw [hlookup key hreads] at hn
        obtain ⟨m, hm, heq⟩ := Option.map_eq_some_iff.mp hn
        rw [Fields.require, hm, Int.ofNat.inj (Toml.Value.integer.inj heq)]
      rw [decode_of_record hgiven, hfield reads_size hsize, hfield reads_count hcount]
      rfl
  | @array size count more =>
      have hgiven : toml.record name ["size", "count"]
          (.array (.integer (size : Int) :: .integer (count : Int) :: more))
            = .ok [("size", size), ("count", count)] :=
        hderives.record_array [size, count] ordinary_fields rfl
      rw [decode_of_record hgiven]
      rfl

theorem Misspelled.decode_eq_error (h : Misspelled name v fault) :
    decode name toml v = .error fault := by
  cases h with
  | field h =>
      exact decode_of_record_error
        (hderives.record_table_fault ordinary_fields hkeyed.distinct h)
  | noSize h hsize =>
      obtain ⟨given, hgiven, hlookup⟩ := hderives.record_table name ordinary_fields hkeyed.distinct h
      have hnone := Option.map_eq_none_iff.mp ((hlookup "size" reads_size).symm.trans hsize)
      rw [decode_of_record hgiven, Fields.require, hnone]
      rfl
  | noCount h hsize hcount =>
      obtain ⟨given, hgiven, hlookup⟩ := hderives.record_table name ordinary_fields hkeyed.distinct h
      obtain ⟨v, hv⟩ := Option.isSome_iff_exists.mp hsize
      obtain ⟨n, hn, -⟩ := Option.map_eq_some_iff.mp ((hlookup "size" reads_size).symm.trans hv)
      have hnone := Option.map_eq_none_iff.mp ((hlookup "count" reads_count).symm.trans hcount)
      rw [decode_of_record hgiven, Fields.require, Fields.require, hn, hnone]
      rfl
  | item h => exact decode_of_record_error (hderives.record_array_fault ordinary_fields h)
  | short h hlength =>
      exact decode_of_record_error (hderives.record_array_short ordinary_fields h hlength)
  | moment =>
      rw [decode_of_record (hderives.record_moment ordinary_fields)]
      rfl
  | other htable harray hmoment =>
      exact decode_of_record_error
        (hderives.record_other ordinary_fields htable harray hmoment)

end Decode

theorem spelled_or_misspelled_table (name : String) (entries : Toml.Table) :
    (∃ b, Spelled (.table entries) b) ∨ ∃ fault, Misspelled name (.table entries) fault := by
  have heach : ∀ entry ∈ entries, (Reads entry.1 → Natural entry.2)
      ∨ ∃ fault, Reads entry.1 ∧ WordFault entry.2 fault := fun entry _ => by
    by_cases hreads : Reads entry.1
    · exact (natural_or_wordFault entry.2).imp (fun hnatural _ => hnatural)
        fun ⟨fault, hfault⟩ => ⟨fault, hreads, hfault⟩
    · exact .inl fun h => absurd h hreads
  rcases forall_or_firstFault heach with hall | ⟨fault, hfault⟩
  · -- What is missing comes to light only at the end of the table, so all that is there is a number.
    cases hsize : entries.lookup "size" with
    | none => exact .inr ⟨_, .noSize hall hsize⟩
    | some v =>
        cases hcount : entries.lookup "count" with
        | none => exact .inr ⟨_, .noCount hall (hsize ▸ rfl) hcount⟩
        | some w =>
            obtain ⟨size, rfl⟩ := hall _ (Toml.mem_of_lookup hsize) reads_size
            obtain ⟨count, rfl⟩ := hall _ (Toml.mem_of_lookup hcount) reads_count
            exact .inl ⟨⟨size, count⟩, .table hsize hcount⟩
  · exact .inr ⟨fault, .field hfault⟩

theorem spelled_or_misspelled_array (name : String) (items : List Toml.Value) :
    (∃ b, Spelled (.array items) b) ∨ ∃ fault, Misspelled name (.array items) fault := by
  rcases forall_or_firstFault fun v (_ : v ∈ items.take 2) => natural_or_wordFault v with
    hall | ⟨fault, hfault⟩
  · match items, hall with
    | [], hall => exact .inr ⟨_, .short nofun Nat.zero_lt_two⟩
    | [v], hall => exact .inr ⟨_, .short hall Nat.one_lt_two⟩
    | v :: w :: more, hall =>
        obtain ⟨size, rfl⟩ := hall v List.mem_cons_self
        obtain ⟨count, rfl⟩ := hall w (List.mem_cons_of_mem _ List.mem_cons_self)
        exact .inl ⟨⟨size, count⟩, .array⟩
  · exact .inr ⟨fault, .item hfault⟩

/-- Every value is a bucket, or something is wrong with it. -/
theorem spelled_or_misspelled (name : String) (v : Toml.Value) :
    (∃ b, Spelled v b) ∨ ∃ fault, Misspelled name v fault := by
  cases v with
  | table entries => exact spelled_or_misspelled_table name entries
  | array items => exact spelled_or_misspelled_array name items
  | moment text => exact .inr ⟨_, .moment⟩
  | _ => exact .inr ⟨_, .other nofun nofun nofun⟩

end Bucket

namespace Histogram

open Schema

/-! ## Documents -/

/-- The document has these buckets, in the order of its array. -/
def Lists (document : Toml.Table) (buckets : List Bucket) : Prop :=
  ∃ items, document.lookup "bucket" = some (.array items)
    ∧ List.Forall₂ Bucket.Spelled items buckets

/-- What is wrong with a document that has something else in place of its buckets: no array, or an
array with a first item that is no bucket. -/
inductive Misshapen (document : Toml.Table) : Fault → Prop
  | noArray {v : Toml.Value} (hbucket : document.lookup "bucket" = some v)
      (h : ∀ items, v ≠ .array items) : Misshapen document (.wrongType (.ofValue v) .sequence)
  | item {items : List Toml.Value} {fault : Fault}
      (hbucket : document.lookup "bucket" = some (.array items))
      (h : FirstFault (fun v => ∃ b, Bucket.Spelled v b) (Bucket.Misspelled recordName) items fault) :
      Misshapen document fault

/-- The first bucket of size zero has this place. -/
def FirstZero (buckets : List Bucket) (index : Nat) : Prop :=
  (∃ b, buckets[index]? = some b ∧ b.size = 0)
    ∧ ∀ i < index, ∀ b, buckets[i]? = some b → 1 ≤ b.size

variable {document : Toml.Table} {buckets : List Bucket} {fault : Fault}

theorem firstZero?_eq_some_iff {index : Nat} :
    firstZero? buckets = some index ↔ FirstZero buckets index := by
  rw [firstZero?, List.findIdx?_eq_some_iff_getElem]
  constructor
  · rintro ⟨hlt, hzero, hbefore⟩
    refine ⟨⟨buckets[index], List.getElem?_eq_getElem hlt, of_decide_eq_true hzero⟩, ?_⟩
    intro i hi b hb
    obtain ⟨-, rfl⟩ := List.getElem?_eq_some_iff.mp hb
    have hne := hbefore i hi
    rw [decide_eq_true_eq] at hne
    exact Nat.pos_of_ne_zero hne
  · rintro ⟨⟨b, hb, hzero⟩, hbefore⟩
    obtain ⟨hlt, rfl⟩ := List.getElem?_eq_some_iff.mp hb
    refine ⟨hlt, decide_eq_true hzero, fun i hi => ?_⟩
    have hpos := hbefore i hi _ (List.getElem?_eq_getElem (Nat.lt_trans hi hlt))
    rw [decide_eq_true_eq]
    omega

theorem exists_ofBuckets_iff : (∃ h, ofBuckets buckets = .ok h ∧ h.buckets = buckets)
    ↔ buckets ≠ [] ∧ ∀ b ∈ buckets, 1 ≤ b.size := by
  constructor
  · rintro ⟨h, -, rfl⟩
    exact ⟨h.buckets_ne_nil, h.size_pos⟩
  · rintro ⟨hne, hpos⟩
    exact ⟨⟨buckets, hne, hpos⟩, ofBuckets_buckets ⟨buckets, hne, hpos⟩, rfl⟩

theorem ofBuckets_eq_zeroBlockSize_iff {index : Nat} :
    ofBuckets buckets = .error (.zeroBlockSize index) ↔ FirstZero buckets index := by
  rw [← firstZero?_eq_some_iff]
  unfold ofBuckets
  by_cases hne : buckets = []
  · subst hne
    exact ⟨nofun, nofun⟩
  · rw [dif_neg hne]
    split
    · rename_i i hi
      rw [hi, Except.error.injEq, Error.zeroBlockSize.injEq, Option.some.injEq]
    · rename_i hnone
      exact ⟨nofun, fun hsome => absurd (hnone.symm.trans hsome) nofun⟩

/-- Buckets make a histogram, or there are none of them, or one of them is of size zero. -/
theorem ofBuckets_cases (buckets : List Bucket) :
    (∃ h, ofBuckets buckets = .ok h ∧ h.buckets = buckets)
      ∨ (buckets = [] ∧ ofBuckets buckets = .error .emptyHistogram)
      ∨ ∃ index, ofBuckets buckets = .error (.zeroBlockSize index) := by
  unfold ofBuckets
  by_cases hne : buckets = []
  · exact .inr (.inl ⟨hne, dif_pos hne⟩)
  · rw [dif_neg hne]
    split
    · exact .inr (.inr ⟨_, rfl⟩)
    · exact .inl ⟨_, rfl, rfl⟩

/-! ## What counts -/

/-- The part of a bucket that is read. -/
def essenceOfBucket : Toml.Value → Toml.Value
  | .table entries => .table (entries.filter fun entry => ["size", "count"].contains entry.1)
  | .array items => .array (items.take 2)
  | v => v

/-- The part of an array of buckets that is read. -/
def essenceOfTable : Toml.Value → Toml.Value
  | .array items => .array (items.map essenceOfBucket)
  | v => v

/-- The part of a document that is read: no key but one, and in buckets no keys but their fields and
no items but the first two. -/
def essence (document : Toml.Table) : Toml.Table :=
  (document.filter (·.1 = "bucket")).map fun entry => (entry.1, essenceOfTable entry.2)

theorem lookup_essence : ∀ document : Toml.Table,
    (essence document).lookup "bucket" = (document.lookup "bucket").map essenceOfTable
  | [] => rfl
  | (key, v) :: rest => by
      have ih := lookup_essence rest
      unfold essence at ih ⊢
      by_cases hkey : key = "bucket"
      · subst hkey
        rfl
      · have hne : ("bucket" == key) = false := beq_false_of_ne fun heq => hkey heq.symm
        rw [List.filter_cons_of_neg (by simpa using hkey), ih, List.lookup_cons, hne]

theorem record_essence (name : String) (v : Toml.Value) :
    record name ["size", "count"] (essenceOfBucket v) = record name ["size", "count"] v := by
  cases v with
  | table entries =>
      simp only [essenceOfBucket, record, List.filter_filter, Bool.and_self]
  | array items =>
      rcases items with _ | ⟨v, _ | ⟨w, more⟩⟩
      · rfl
      · rfl
      · rw [essenceOfBucket, record_array_of_long name (by simp),
          record_array_of_long name (by simp)]
        rfl
  | _ => rfl

theorem decode_essence (name : String) (v : Toml.Value) :
    Bucket.decode name Toml.library (essenceOfBucket v) = Bucket.decode name Toml.library v :=
  congrArg (· >>= _) (record_essence name v)

theorem sequence_essence (name : String) (v : Toml.Value) :
    Schema.sequence (Bucket.decode name) (essenceOfTable v)
      = Schema.sequence (Bucket.decode name) v := by
  cases v with
  | array items =>
      rw [essenceOfTable, Schema.sequence, Schema.sequence, List.mapM_map]
      exact congrArg (List.mapM · items) (funext (decode_essence name))
  | _ => rfl

/-- The library of the program reads only the essence of a document. -/
theorem ofDocument_essence_eq (document : Toml.Table) :
    ofDocument (essence document) = ofDocument document := by
  have hread : bucketsOf (essence document) = bucketsOf document := by
    unfold bucketsOf
    rw [lookup_essence]
    cases document.lookup "bucket" with
    | none => rfl
    | some v => exact sequence_essence recordName v
  rw [ofDocument, hread]
  rfl

/-! ## Outcomes -/

/-- The buckets in the array of a keyed document are keyed. -/
theorem keyed_of_mem {items : List Toml.Value} (hkeyed : (Toml.Value.table document).Keyed)
    (hbucket : document.lookup "bucket" = some (.array items)) : ∀ v ∈ items, v.Keyed :=
  (hkeyed.of_lookup hbucket).of_mem

theorem exists_forall₂ : ∀ {items : List Toml.Value}, (∀ v ∈ items, ∃ b, Bucket.Spelled v b) →
    ∃ buckets, List.Forall₂ Bucket.Spelled items buckets
  | [], _ => ⟨[], .nil⟩
  | v :: items, h => by
      obtain ⟨⟨b, hb⟩, hitems⟩ := List.forall_mem_cons.mp h
      obtain ⟨buckets, hbuckets⟩ := exists_forall₂ hitems
      exact ⟨b :: buckets, .cons hb hbuckets⟩

section Keyed

variable {toml : Toml.Library} (hderives : toml.Derives)

theorem bucketsOf_of_lookup {v : Toml.Value} (hbucket : document.lookup "bucket" = some v) :
    bucketsOf document toml = toml.sequence (Bucket.decode recordName toml) v := by
  rw [bucketsOf, hbucket]

include hderives

theorem decode_all {name : String} {items : List Toml.Value} (hkeyed : ∀ v ∈ items, v.Keyed)
    (h : List.Forall₂ Bucket.Spelled items buckets) :
    List.Forall₂ (fun v b => Bucket.decode name toml v = .ok b) items buckets := by
  induction h with
  | nil => exact .nil
  | cons hv _ ih =>
      obtain ⟨hfirst, hlater⟩ := List.forall_mem_cons.mp hkeyed
      exact .cons (hv.decode_eq_ok hderives hfirst) (ih hlater)

/-- The first item that is no bucket is the first that is not read. -/
theorem decode_firstFault {name : String} {items : List Toml.Value} (hkeyed : ∀ v ∈ items, v.Keyed)
    (h : FirstFault (fun v => ∃ b, Bucket.Spelled v b) (Bucket.Misspelled name) items fault) :
    FirstFault (fun v => ∃ b, Bucket.decode name toml v = .ok b)
      (fun v fault => Bucket.decode name toml v = .error fault) items fault := by
  induction h with
  | here h => exact .here (h.decode_eq_error hderives (hkeyed _ List.mem_cons_self))
  | later hsound _ ih =>
      obtain ⟨hfirst, hlater⟩ := List.forall_mem_cons.mp hkeyed
      obtain ⟨b, hb⟩ := hsound
      exact .later ⟨b, hb.decode_eq_ok hderives hfirst⟩ (ih hlater)

variable (hkeyed : (Toml.Value.table document).Keyed)

include hkeyed

theorem Lists.ofDocument_eq (h : Lists document buckets) :
    ofDocument document toml = ofBuckets buckets := by
  obtain ⟨items, hbucket, hspelled⟩ := h
  have hread : bucketsOf document toml = .ok buckets := by
    rw [bucketsOf_of_lookup hbucket]
    exact hderives.sequence_ok (decode_all hderives (keyed_of_mem hkeyed hbucket) hspelled)
  rw [ofDocument, hread]

theorem Misshapen.ofDocument_eq (h : Misshapen document fault) :
    ofDocument document toml = .error (.badHistogram (.shape fault)) := by
  have hread : bucketsOf document toml = .error fault := by
    cases h with
    | noArray hbucket h =>
        rw [bucketsOf_of_lookup hbucket]
        exact hderives.sequence_other h
    | item hbucket h =>
        rw [bucketsOf_of_lookup hbucket]
        exact hderives.sequence_fault
          (decode_firstFault hderives (keyed_of_mem hkeyed hbucket) h)
  rw [ofDocument, hread]

omit hderives hkeyed in
theorem ofDocument_of_lookup_none (hbucket : document.lookup "bucket" = none) :
    ofDocument document toml = .error .emptyHistogram := by
  rw [ofDocument, bucketsOf, hbucket]
  rfl

/-- A document has no buckets, or some that are read, or something else in their place. -/
theorem ofDocument_cases :
    (document.lookup "bucket" = none ∧ ofDocument document toml = .error .emptyHistogram)
      ∨ (∃ buckets, Lists document buckets ∧ ofDocument document toml = ofBuckets buckets)
      ∨ ∃ fault, Misshapen document fault
        ∧ ofDocument document toml = .error (.badHistogram (.shape fault)) := by
  cases hbucket : document.lookup "bucket" with
  | none => exact .inl ⟨rfl, ofDocument_of_lookup_none hbucket⟩
  | some v =>
      have hmisshapen : ∀ {fault}, Misshapen document fault → ∃ fault, Misshapen document fault
          ∧ ofDocument document toml = .error (.badHistogram (.shape fault)) :=
        fun h => ⟨_, h, h.ofDocument_eq hderives hkeyed⟩
      cases v with
      | array items =>
          rcases forall_or_firstFault fun v (_ : v ∈ items) =>
            Bucket.spelled_or_misspelled recordName v with hall | ⟨fault, hfault⟩
          · obtain ⟨buckets, hspelled⟩ := exists_forall₂ hall
            have hlists : Lists document buckets := ⟨items, hbucket, hspelled⟩
            exact .inr (.inl ⟨buckets, hlists, hlists.ofDocument_eq hderives hkeyed⟩)
          · exact .inr (.inr (hmisshapen (.item hbucket hfault)))
      | _ => exact .inr (.inr (hmisshapen (.noArray hbucket nofun)))

/-- Libraries with derived readers agree on every document. -/
theorem ofDocument_eq_of_derives {other : Toml.Library} (hother : other.Derives) :
    ofDocument document toml = ofDocument document other := by
  rcases ofDocument_cases hderives hkeyed with
    ⟨hnone, heq⟩ | ⟨buckets, hlists, heq⟩ | ⟨fault, hmisshapen, heq⟩
  · rw [heq, ofDocument_of_lookup_none hnone]
  · rw [heq, hlists.ofDocument_eq hother hkeyed]
  · rw [heq, hmisshapen.ofDocument_eq hother hkeyed]

theorem exists_ofDocument_iff : (∃ h, ofDocument document toml = .ok h ∧ h.buckets = buckets)
    ↔ Lists document buckets ∧ buckets ≠ [] ∧ ∀ b ∈ buckets, 1 ≤ b.size := by
  rw [← exists_ofBuckets_iff]
  constructor
  · rintro ⟨h, hmade, rfl⟩
    rcases ofDocument_cases hderives hkeyed with ⟨-, heq⟩ | ⟨buckets, hlists, heq⟩ | ⟨fault, -, heq⟩
    · cases hmade.symm.trans heq
    · obtain rfl := buckets_of_ofBuckets (heq.symm.trans hmade)
      exact ⟨hlists, h, heq.symm.trans hmade, rfl⟩
    · cases hmade.symm.trans heq
  · rintro ⟨hlists, hmade⟩
    rw [hlists.ofDocument_eq hderives hkeyed]
    exact hmade

theorem ofDocument_eq_emptyHistogram_iff : ofDocument document toml = .error .emptyHistogram
    ↔ document.lookup "bucket" = none ∨ document.lookup "bucket" = some (.array []) := by
  constructor
  · intro hempty
    rcases ofDocument_cases hderives hkeyed with
      ⟨hnone, -⟩ | ⟨buckets, ⟨items, hbucket, hspelled⟩, heq⟩ | ⟨fault, -, heq⟩
    · exact .inl hnone
    · rcases ofBuckets_cases buckets with ⟨h, hmade, -⟩ | ⟨rfl, -⟩ | ⟨index, hzero⟩
      · cases (heq.symm.trans hempty).symm.trans hmade
      · obtain rfl := List.forall₂_nil_right_iff.mp hspelled
        exact .inr hbucket
      · cases (heq.symm.trans hempty).symm.trans hzero
    · cases hempty.symm.trans heq
  · rintro (hnone | hnil)
    · exact ofDocument_of_lookup_none hnone
    · have hlists : Lists document [] := ⟨[], hnil, .nil⟩
      rw [hlists.ofDocument_eq hderives hkeyed]
      rfl

theorem ofDocument_eq_zeroBlockSize_iff {index : Nat} :
    ofDocument document toml = .error (.zeroBlockSize index)
      ↔ ∃ buckets, Lists document buckets ∧ FirstZero buckets index := by
  constructor
  · intro hzero
    rcases ofDocument_cases hderives hkeyed with ⟨-, heq⟩ | ⟨buckets, hlists, heq⟩ | ⟨fault, -, heq⟩
    · cases hzero.symm.trans heq
    · exact ⟨buckets, hlists, ofBuckets_eq_zeroBlockSize_iff.mp (heq.symm.trans hzero)⟩
    · cases hzero.symm.trans heq
  · rintro ⟨buckets, hlists, hzero⟩
    rw [hlists.ofDocument_eq hderives hkeyed]
    exact ofBuckets_eq_zeroBlockSize_iff.mpr hzero

theorem ofDocument_eq_badHistogram_iff :
    ofDocument document toml = .error (.badHistogram (.shape fault)) ↔ Misshapen document fault := by
  constructor
  · intro hbad
    rcases ofDocument_cases hderives hkeyed with ⟨-, heq⟩ | ⟨buckets, -, heq⟩ | ⟨found, hfound, heq⟩
    · cases hbad.symm.trans heq
    · rcases ofBuckets_cases buckets with ⟨h, hmade, -⟩ | ⟨-, hempty⟩ | ⟨index, hzero⟩
      · cases (heq.symm.trans hbad).symm.trans hmade
      · cases (heq.symm.trans hbad).symm.trans hempty
      · cases (heq.symm.trans hbad).symm.trans hzero
    · cases hbad.symm.trans heq
      exact hfound
  · exact fun h => h.ofDocument_eq hderives hkeyed

end Keyed

/-- A document is a histogram exactly if what it has for buckets is an array of at least one value,
each of these is a bucket, and none of the buckets has size zero; then these are the buckets of the
histogram. Without buckets it is an empty histogram, with a bucket of size zero the first of these is
named, and any other document has a first fault in its shape, which is reported. What else is in the
document makes no difference. The text of a file is read as its document. All this is so with any
library whose readers are derived; and a document is keyed, since no key comes twice in a table
(`Toml.keyed_parse`). -/
theorem ofDocument_settled {toml : Toml.Library} (hderives : toml.Derives)
    (hkeyed : (Toml.Value.table document).Keyed) :
    (∀ buckets, (∃ h, ofDocument document toml = .ok h ∧ h.buckets = buckets)
        ↔ Lists document buckets ∧ buckets ≠ [] ∧ ∀ b ∈ buckets, 1 ≤ b.size)
      ∧ (ofDocument document toml = .error .emptyHistogram
        ↔ document.lookup "bucket" = none ∨ document.lookup "bucket" = some (.array []))
      ∧ (∀ index, ofDocument document toml = .error (.zeroBlockSize index)
        ↔ ∃ buckets, Lists document buckets ∧ FirstZero buckets index)
      ∧ (∀ fault, ofDocument document toml = .error (.badHistogram (.shape fault))
        ↔ Misshapen document fault)
      ∧ (document.lookup "bucket" ≠ none → (¬∃ buckets, Lists document buckets) →
        ∃ fault, ofDocument document toml = .error (.badHistogram (.shape fault)))
      ∧ (∀ other, (Toml.Value.table other).Keyed → essence other = essence document →
        ofDocument other toml = ofDocument document toml)
      ∧ ∀ text, toml.parse text = some document → ofText text toml = ofDocument document toml := by
  refine ⟨fun _ => exists_ofDocument_iff hderives hkeyed,
    ofDocument_eq_emptyHistogram_iff hderives hkeyed,
    fun _ => ofDocument_eq_zeroBlockSize_iff hderives hkeyed,
    fun _ => ofDocument_eq_badHistogram_iff hderives hkeyed, fun hsome hnone => ?_,
    fun other hother hessence => ?_, fun text htext => ?_⟩
  · rcases ofDocument_cases hderives hkeyed with
      ⟨hbucket, -⟩ | ⟨buckets, hlists, -⟩ | ⟨fault, -, heq⟩
    · exact absurd hbucket hsome
    · exact absurd ⟨buckets, hlists⟩ hnone
    · exact ⟨fault, heq⟩
  · rw [ofDocument_eq_of_derives hderives hother Toml.derives_library,
      ofDocument_eq_of_derives hderives hkeyed Toml.derives_library, ← ofDocument_essence_eq other,
      hessence, ofDocument_essence_eq]
  · rw [ofText, htext]

/-- Other keys and further items are passed over. A negative count is met before the end of the table,
where its missing size would be noticed. -/
theorem ofDocument_settled_first_fault :
    let table : Toml.Value := .table [("count", .integer 2), ("note", .boolean true),
      ("size", .integer 8)]
    let array : Toml.Value := .array [.integer 16, .integer 0, .string "more"]
    let document : Toml.Table := [("title", .string "two"), ("bucket", .array [table, array])]
    let faulty : Toml.Table := [("bucket", .array [array, .table [("count", .integer (-1))]])]
    Toml.library.Derives ∧ (Toml.Value.table document).Keyed ∧ (Toml.Value.table faulty).Keyed
      ∧ (∃ h, ofDocument document = .ok h ∧ h.buckets = [⟨8, 2⟩, ⟨16, 0⟩])
      ∧ ofDocument faulty = .error (.badHistogram (.shape (.negative (-1)))) := by
  intro table array document faulty
  have hinteger : ∀ n, (Toml.Value.integer n).Keyed := fun _ => .atom nofun nofun
  have htable : table.Keyed := .table (by decide) (by simp [hinteger, Toml.Value.Keyed.atom])
  have harray : array.Keyed := .array (by simp [hinteger, Toml.Value.Keyed.atom])
  have hpair : ∀ {α : Type} {P : α → Prop} {a b : α}, P a → P b → ∀ x ∈ [a, b], P x :=
    fun ha hb => List.forall_mem_cons.mpr ⟨ha, List.forall_mem_singleton.mpr hb⟩
  have hdocument : (Toml.Value.table document).Keyed :=
    .table (by decide) (hpair (.atom nofun nofun) (.array (hpair htable harray)))
  have hcount : (Toml.Value.table [("count", .integer (-1))]).Keyed :=
    .table (by decide) (List.forall_mem_singleton.mpr (hinteger _))
  have hfaulty : (Toml.Value.table faulty).Keyed :=
    .table (by decide) (List.forall_mem_singleton.mpr (.array (hpair harray hcount)))
  obtain ⟨hread, -⟩ := ofDocument_settled Toml.derives_library hdocument
  obtain ⟨-, -, -, hbad, -⟩ := ofDocument_settled Toml.derives_library hfaulty
  refine ⟨Toml.derives_library, hdocument, hfaulty, (hread _).mpr ⟨⟨_, rfl, ?_⟩, ?_, ?_⟩, ?_⟩
  · exact .cons (.table rfl rfl) (.cons .array .nil)
  · decide
  · decide
  · have hmisspelled : Bucket.Misspelled recordName (.table [("count", .integer (-1))])
        (.negative (-1)) := .field (.here ⟨Bucket.reads_count, .negative (by decide)⟩)
    exact (hbad _).mpr (.item rfl (.later ⟨⟨16, 0⟩, .array⟩ (.here hmisspelled)))

end Histogram

end HeapChurn
