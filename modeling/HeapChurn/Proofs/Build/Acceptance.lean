import HeapChurn.Build
import HeapChurn.Proofs.Plan.Grid
import HeapChurn.Proofs.Schema.Renaming
import HeapChurn.Proofs.Toml.Keys

/-!
# What a build accepts

A build reads its file key by key and with checks of its own, a histogram looks up one key and makes
another check. On a document whose keys are distinct the two agree: a build takes exactly those
documents that are a histogram file and whose defaults make a run (`ofDocument_eq_ok_iff`), with the
table of that histogram. And defaults that are let through always have a plan
(`Defaults.Runnable.exists_plan`).
-/

namespace HeapChurn

namespace Histogram

theorem firstZero?_eq_none_iff {buckets : List Bucket} :
    firstZero? buckets = none ↔ ∀ b ∈ buckets, 0 < b.size :=
  ⟨size_pos_of_firstZero?, fun h => List.findIdx?_eq_none_iff.mpr fun b hb => by
    simpa using Nat.ne_of_gt (h b hb)⟩

theorem ofBuckets_buckets (h : Histogram) : ofBuckets h.buckets = .ok h := by
  unfold ofBuckets
  rw [dif_neg h.buckets_ne_nil]
  split
  · rename_i index hzero
    rw [firstZero?_eq_none_iff.mpr h.size_pos] at hzero
    cases hzero
  · rfl

theorem buckets_of_ofBuckets {buckets : List Bucket} {h : Histogram}
    (hmade : ofBuckets buckets = .ok h) : h.buckets = buckets := by
  unfold ofBuckets at hmade
  split at hmade
  · cases hmade
  · split at hmade
    · cases hmade
    · exact (Except.ok.inj hmade) ▸ rfl

/-- A document is a histogram file if the table that it gives makes a histogram. -/
theorem ofDocument_eq_ok_iff {document : Toml.Table} {toml : Toml.Library} {h : Histogram} :
    ofDocument document toml = .ok h ↔ bucketsOf document toml = .ok h.buckets := by
  unfold ofDocument
  constructor
  · intro hmade
    split at hmade
    · cases hmade
    · rename_i buckets hbuckets
      rw [hbuckets, buckets_of_ofBuckets hmade]
  · intro hbuckets
    rw [hbuckets]
    exact h.ofBuckets_buckets

end Histogram

/-- Defaults that make a run: a thread at least, and a slot for every thread. -/
structure Defaults.Runnable (d : Defaults) : Prop where
  threads_pos : 0 < d.threads
  threads_le : d.threads ≤ d.heapSlots
  burst_ne : d.foreignBurst ≠ some 0

/-- Defaults that make a run have a plan, for the threads and with the burst limit that they name. -/
theorem Defaults.Runnable.exists_plan {d : Defaults} (h : d.Runnable) :
    ∃ plan, d.config.plan = .ok plan ∧ plan.workers = d.threads
      ∧ plan.foreignBurst = d.foreignBurst ∧ 1 ≤ plan.heapSlotsPerWorker := by
  have hworkers : d.config.effectiveWorkers = d.threads := if_neg (Nat.ne_of_gt h.threads_pos)
  have hslots : 1 ≤ d.heapSlots / d.threads := Nat.div_pos h.threads_le h.threads_pos
  have hburst : d.foreignBurst.filter (0 < ·) = d.foreignBurst := by
    cases hgiven : d.foreignBurst with
    | none => rfl
    | some burst =>
        have hpos : 0 < burst := Nat.pos_of_ne_zero fun hzero => h.burst_ne (hzero ▸ hgiven)
        exact if_pos (decide_eq_true hpos)
  have hroom : d.config.heapSlots / d.config.effectiveWorkers ≠ 0 :=
    hworkers ▸ Nat.ne_of_gt hslots
  refine ⟨_, if_neg hroom, hworkers, hburst, ?_⟩
  exact hworkers ▸ hslots

namespace Build

/-! ## Reading -/

/-- What a document gives under a key; `absent` if it has no such key. -/
def entryOf {α : Type} (key : String) (decode : Schema.Decoder α) (absent : α)
    (document : Toml.Table) : Except Schema.Fault α :=
  match document.lookup key with
  | some v => decode v
  | none => .ok absent

/-- Defaults as the record that a build file gives them in. -/
def decodeDefaults (toml : Toml.Library) : Schema.Decoder Defaults := fun v =>
  defaultsOf <$> toml.record "DefaultsSection" defaultsFields v

/-- A table as the array that a build file gives it in. -/
def decodeTable (toml : Toml.Library) : Schema.Decoder (List Bucket) :=
  toml.sequence (Bucket.decode "Bucket" toml)

section Entries

variable {α : Type} {key other : String} {decode : Schema.Decoder α} {absent x : α}
  {v : Toml.Value} {rest : Toml.Table}

theorem entryOf_cons_self :
    entryOf key decode absent ((key, v) :: rest) = decode v := by
  rw [entryOf, List.lookup_cons_self]

theorem entryOf_cons_of_ne (h : key ≠ other) :
    entryOf key decode absent ((other, v) :: rest) = entryOf key decode absent rest := by
  rw [entryOf, List.lookup_cons, beq_false_of_ne h]
  rfl

theorem entryOf_of_notMem (h : key ∉ rest.map Prod.fst) :
    entryOf key decode absent rest = .ok absent := by
  rw [entryOf, Toml.lookup_eq_none h]

/-- A document gives what its first entry gives, unless the rest gives another. -/
theorem entryOf_cons_eq_ok_iff (h : other ∉ rest.map Prod.fst) :
    entryOf key decode absent ((other, v) :: rest) = .ok x
      ↔ ∃ first, entryOf key decode absent [(other, v)] = .ok first
        ∧ entryOf key decode first rest = .ok x := by
  by_cases hkey : key = other
  · subst hkey
    simp only [entryOf_cons_self, entryOf_of_notMem h]
    constructor
    · exact fun hx => ⟨x, hx, rfl⟩
    · rintro ⟨first, hfirst, hx⟩
      exact Except.ok.inj hx ▸ hfirst
  · rw [entryOf_cons_of_ne hkey, entryOf_cons_of_ne hkey]
    constructor
    · exact fun hx => ⟨absent, rfl, hx⟩
    · rintro ⟨first, hfirst, hx⟩
      exact (Except.ok.inj hfirst) ▸ hx

end Entries

variable {document : Toml.Table} {toml : Toml.Library} {before baked : Baked}

/-- One entry of a build file gives the defaults, or the table, or nothing. -/
theorem readEntry_eq_ok_iff {key : String} {v : Toml.Value} :
    readEntry toml before (key, v) = .ok baked
      ↔ entryOf "defaults" (decodeDefaults toml) before.defaults [(key, v)] = .ok baked.defaults
        ∧ entryOf "bucket" (decodeTable toml) before.table [(key, v)] = .ok baked.table := by
  obtain ⟨d, table⟩ := before
  obtain ⟨d', table'⟩ := baked
  unfold readEntry
  split
  · rename_i heq
    obtain ⟨rfl, rfl⟩ := Prod.mk.inj heq
    rw [entryOf_cons_self, entryOf_cons_of_ne (by decide), decodeDefaults]
    cases toml.record "DefaultsSection" defaultsFields v with
    | error fault => simp
    | ok given => simp [entryOf]
  · rename_i heq
    obtain ⟨rfl, rfl⟩ := Prod.mk.inj heq
    rw [entryOf_cons_self, entryOf_cons_of_ne (by decide), decodeTable]
    cases toml.sequence (Bucket.decode "Bucket" toml) v with
    | error fault => simp
    | ok given => simp [entryOf]
  · rename_i hdefaults hbucket
    have hd : "defaults" ≠ key := fun h => hdefaults v (h ▸ rfl)
    have hb : "bucket" ≠ key := fun h => hbucket v (h ▸ rfl)
    rw [entryOf_cons_of_ne hd, entryOf_cons_of_ne hb]
    simp [entryOf]

/-- Read entry by entry, a document gives what a look at the two keys gives. -/
theorem foldlM_readEntry_eq_ok_iff : ∀ {document : Toml.Table} {before baked : Baked},
    Toml.Distinct document →
      (document.foldlM (readEntry toml) before = .ok baked
        ↔ entryOf "defaults" (decodeDefaults toml) before.defaults document = .ok baked.defaults
          ∧ entryOf "bucket" (decodeTable toml) before.table document = .ok baked.table)
  | [], _, _, _ => by
      constructor
      · intro h
        obtain rfl := Except.ok.inj h
        exact ⟨rfl, rfl⟩
      · rintro ⟨hdefaults, htable⟩
        exact congrArg Except.ok
          (Baked.mk.injEq .. ▸ ⟨Except.ok.inj hdefaults, Except.ok.inj htable⟩)
  | (key, v) :: rest, before, baked, hdistinct => by
      obtain ⟨hkey, hrest⟩ := List.nodup_cons.mp hdistinct
      rw [List.foldlM_cons, Schema.bind_eq_ok, entryOf_cons_eq_ok_iff hkey,
        entryOf_cons_eq_ok_iff hkey]
      simp only [readEntry_eq_ok_iff, foldlM_readEntry_eq_ok_iff hrest]
      constructor
      · rintro ⟨next, ⟨hd, ht⟩, hdefaults, htable⟩
        exact ⟨⟨next.defaults, hd, hdefaults⟩, next.table, ht, htable⟩
      · rintro ⟨⟨d, hd, hdefaults⟩, table, ht, htable⟩
        exact ⟨⟨d, table⟩, ⟨hd, ht⟩, hdefaults, htable⟩

/-- A histogram file is read for its table as a build file is, up to the name of a bucket. -/
theorem entryOf_bucket_eq_ok_iff (hblind : toml.NameBlind) {table : List Bucket} :
    entryOf "bucket" (decodeTable toml) [] document = .ok table
      ↔ Histogram.bucketsOf document toml = .ok table := by
  unfold entryOf Histogram.bucketsOf
  cases document.lookup "bucket" with
  | none => rfl
  | some v => exact Bucket.sequence_rename hblind _ _ v table

/-! ## Checking -/

/-- A table that passes is the table of a histogram. -/
theorem checkTable_eq_ok_iff {table : List Bucket} :
    checkTable table = .ok () ↔ ∃ h : Histogram, h.buckets = table := by
  unfold checkTable
  constructor
  · intro h
    split at h
    · cases h
    · rename_i hne
      split at h
      · cases h
      · rename_i hzero
        exact ⟨⟨table, hne, Histogram.size_pos_of_firstZero? hzero⟩, rfl⟩
  · rintro ⟨h, rfl⟩
    rw [if_neg h.buckets_ne_nil, Histogram.firstZero?_eq_none_iff.mpr h.size_pos]

theorem checkDefaults_eq_ok_iff {d : Defaults} : checkDefaults d = .ok () ↔ d.Runnable := by
  unfold checkDefaults
  constructor
  · intro h
    split at h
    · cases h
    split at h
    · cases h
    split at h
    · cases h
    split at h
    · cases h
    rename_i _ hthreads hslots hburst
    exact ⟨Nat.pos_of_ne_zero hthreads, Nat.not_lt.mp hslots, hburst⟩
  · rintro ⟨hthreads, hslots, hburst⟩
    rw [if_neg (by omega), if_neg (by omega), if_neg (by omega), if_neg hburst]

/-- A build takes what it has read and what passes both checks. -/
theorem ofDocument_eq_ok_iff_read : ofDocument document toml = .ok baked
    ↔ read document toml = .ok baked ∧ checkDefaults baked.defaults = .ok ()
      ∧ checkTable baked.table = .ok () := by
  unfold ofDocument
  cases read document toml with
  | error fault => exact ⟨nofun, fun h => nomatch h.1⟩
  | ok given =>
      simp only [Schema.bind_eq_ok]
      constructor
      · rintro ⟨⟨⟩, hdefaults, ⟨⟩, htable, h⟩
        obtain rfl := Except.ok.inj h
        exact ⟨rfl, hdefaults, htable⟩
      · rintro ⟨h, hdefaults, htable⟩
        obtain rfl := Except.ok.inj h
        exact ⟨(), hdefaults, (), htable, rfl⟩

/-- A build takes a document that is a histogram file and gives defaults that make a run, and fixes
the table of the one and the values of the others. -/
theorem ofDocument_eq_ok_iff (hblind : toml.NameBlind) (hdistinct : Toml.Distinct document) :
    ofDocument document toml = .ok baked
      ↔ (∃ h : Histogram, Histogram.ofDocument document toml = .ok h ∧ h.buckets = baked.table)
        ∧ entryOf "defaults" (decodeDefaults toml) .standard document = .ok baked.defaults
        ∧ baked.defaults.Runnable := by
  have hread : read document toml = .ok baked
      ↔ entryOf "defaults" (decodeDefaults toml) .standard document = .ok baked.defaults
        ∧ entryOf "bucket" (decodeTable toml) [] document = .ok baked.table :=
    foldlM_readEntry_eq_ok_iff hdistinct
  rw [ofDocument_eq_ok_iff_read, hread, checkDefaults_eq_ok_iff, checkTable_eq_ok_iff]
  constructor
  · rintro ⟨⟨hd, ht⟩, hrunnable, hist, hhist⟩
    refine ⟨⟨hist, ?_, hhist⟩, hd, hrunnable⟩
    rw [Histogram.ofDocument_eq_ok_iff, ← entryOf_bucket_eq_ok_iff hblind, hhist]
    exact ht
  · rintro ⟨⟨hist, hmade, htable⟩, hd, hrunnable⟩
    rw [Histogram.ofDocument_eq_ok_iff, ← entryOf_bucket_eq_ok_iff hblind, htable] at hmade
    exact ⟨⟨hd, hmade⟩, hrunnable, hist, htable⟩

end Build

end HeapChurn
