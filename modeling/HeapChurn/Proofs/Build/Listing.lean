import HeapChurn.Build.Listing
import HeapChurn.Proofs.Build.Acceptance

/-!
# Listings read back

A build does not hand on what it fixes, it writes it down. The readers here take the listings apart
again as the source text that they are: constants by their names, numerals by their digits, and as
many rows as the array says. `Reads` composes along a text, so the round trip of a listing is put
together from those of its pieces.

`accepts_alike` says what a build has to do with a histogram file and with the run that follows.
-/

namespace HeapChurn

namespace Listing

/-! ## Readers -/

/-- Takes a value off the front of a text. -/
abbrev Reader (α : Type) : Type := StateT (List Char) Option α

/-- Takes off just this text. -/
def literal (text : String) : Reader Unit := fun cs => (cs.dropPrefix? text.toList).map ((), ·)

/-- Takes off a numeral, as far as its digits go. -/
def numeral : Reader Nat := fun cs =>
  let digits := cs.takeWhile Char.isDigit
  if digits = [] then none else some (Nat.ofDigitChars 10 digits 0, cs.dropWhile Char.isDigit)

/-- A numeral and the text behind it. -/
def number (after : String) : Reader Nat := do
  let n ← numeral
  literal after
  return n

/-- What stands before the value of a constant. -/
def declaration (name type : String) : Reader Unit :=
  literal ("pub const DEFAULT_" ++ name ++ ": " ++ type ++ " = ")

/-- A constant that is a word. -/
def word (name : String) : Reader Nat := do
  declaration name "usize"
  number ";\n"

/-- A constant that is a word or nothing. -/
def optional (name : String) : Reader (Option Nat) := do
  declaration name "Option<usize>"
  (do literal "None;\n"; return none) <|> (do literal "Some("; return some (← number ");\n"))

/-- The listing of the defaults. -/
def defaults : Reader Defaults := do
  literal Baked.banner
  let heapSlots ← word "HEAP_SLOTS"
  let iterations ← word "ITERATIONS"
  let threads ← word "THREADS"
  let foreignAllocs ← word "FOREIGN_ALLOCS"
  let foreignBurst ← optional "FOREIGN_BURST"
  return { heapSlots, iterations, threads, foreignAllocs, foreignBurst }

/-- One row of the table. -/
def row : Reader Bucket := do
  literal "    HistogramEntry \x7b size: "
  let size ← number ", count: "
  let count ← number " \x7d,\n"
  return { size, count }

def rows : Nat → Reader (List Bucket)
  | 0 => return []
  | count + 1 => do
    let first ← row
    let rest ← rows count
    return first :: rest

/-- The listing of the table: an array of as many rows as it says. -/
def table : Reader (List Bucket) := do
  literal Baked.banner
  literal "pub static DEFAULT_HISTOGRAM: [HistogramEntry; "
  let length ← number "] = [\n"
  let buckets ← rows length
  literal "];\n"
  return buckets

variable {α β : Type}

/-- The value of a whole text. -/
def read? (r : Reader α) (text : String) : Option α :=
  match r text.toList with
  | some (x, []) => some x
  | _ => none

/-! ## Round trips -/

/-- The reader takes this text and no more off any text that starts with it. -/
def Reads (r : Reader α) (text : String) (x : α) : Prop :=
  ∀ rest, r (text.toList ++ rest) = some (x, rest)

section Reads

variable {r : Reader α} {f : α → Reader β} {s t : String} {x : α} {y : β}

theorem Reads.pure (x : α) : Reads (pure x) "" x := fun _ => rfl

theorem Reads.bind (h : Reads r s x) (hf : Reads (f x) t y) : Reads (r >>= f) (s ++ t) y := by
  intro rest
  rw [String.toList_append, List.append_assoc]
  change (r (s.toList ++ (t.toList ++ rest)) >>= fun out => f out.1 out.2) = _
  rw [h]
  exact hf rest

theorem Reads.map (h : Reads r s x) (g : α → β) : Reads (do return g (← r)) s (g x) := by
  intro rest
  change (r (s.toList ++ rest) >>= fun out => some (g out.1, out.2)) = _
  rw [h]
  rfl

theorem Reads.read? (h : Reads r s x) : read? r s = some x := by
  have hwhole := h []
  rw [List.append_nil] at hwhole
  unfold Listing.read?
  rw [hwhole]

theorem reads_literal (text : String) : Reads (literal text) text () := by
  intro rest
  unfold literal
  rw [List.dropPrefix?_eq_some_iff.mpr ⟨_, rfl, by simp⟩]
  rfl

theorem Reads.left (h : Reads r s x) (r' : Reader α) : Reads (r <|> r') s x := by
  intro rest
  change (r (s.toList ++ rest) <|> r' (s.toList ++ rest)) = _
  rw [h]
  rfl

theorem Reads.right {r' : Reader α} (h : Reads r' s x)
    (hr : ∀ rest, r (s.toList ++ rest) = none) : Reads (r <|> r') s x := by
  intro rest
  change (r (s.toList ++ rest) <|> r' (s.toList ++ rest)) = _
  rw [hr, h]
  rfl

/-- A numeral ends where something else begins. -/
theorem numeral_append (n : Nat) {c : Char} (hc : c.isDigit = false) (rest : List Char) :
    numeral (Nat.toDigits 10 n ++ c :: rest) = some (n, c :: rest) := by
  have hdigits : ∀ d ∈ Nat.toDigits 10 n, d.isDigit = true := fun _ hd =>
    Nat.isDigit_of_mem_toDigits (by decide) (by decide) hd
  have hend : ¬c.isDigit = true := by simp [hc]
  unfold numeral
  rw [List.takeWhile_append_of_pos hdigits, List.dropWhile_append_of_pos hdigits,
    List.takeWhile_cons_of_neg hend, List.dropWhile_cons_of_neg hend, List.append_nil]
  refine (if_neg Nat.toDigits_ne_nil).trans ?_
  rw [Nat.ofDigitChars_toDigits (by decide) (by decide)]

theorem reads_number (n : Nat) {after : String} {c : Char} {cs : List Char}
    (hafter : after.toList = c :: cs) (hc : c.isDigit = false) :
    Reads (number after) (Numeral.render n ++ after) n := by
  intro rest
  rw [String.toList_append, Numeral.render, String.toList_ofList, List.append_assoc]
  change (numeral (Nat.toDigits 10 n ++ (after.toList ++ rest)) >>= fun out =>
    (do literal after; return out.1 : Reader Nat) out.2) = _
  have hnumeral : numeral (Nat.toDigits 10 n ++ (after.toList ++ rest))
      = some (n, after.toList ++ rest) := by
    rw [hafter]
    exact numeral_append n hc _
  rw [hnumeral]
  exact (reads_literal after).map (fun _ => n) rest

theorem reads_word (name : String) (n : Nat) :
    Reads (word name) (Baked.constant name "usize" (Numeral.render n)) n := by
  have hnumber : Reads (number ";\n") (Numeral.render n ++ ";\n") n := reads_number n rfl rfl
  unfold Baked.constant
  rw [String.append_assoc]
  exact (reads_literal _).bind hnumber

theorem reads_optional (name : String) (o : Option Nat) :
    Reads (optional name) (Baked.constant name "Option<usize>" (Baked.optional o)) o := by
  unfold Baked.constant
  rw [String.append_assoc]
  refine (reads_literal _).bind ?_
  cases o with
  | none => exact Reads.left ((reads_literal "None;\n").map fun _ => none) _
  | some n =>
      have hnumber : Reads (number ");\n") (Numeral.render n ++ ");\n") n := reads_number n rfl rfl
      have htext : Baked.optional (some n) ++ ";\n" = "Some(" ++ (Numeral.render n ++ ");\n") := by
        unfold Baked.optional
        rw [String.append_assoc, String.append_assoc]
        rfl
      rw [htext]
      refine Reads.right ((reads_literal _).bind (hnumber.map some)) fun rest => ?_
      rw [String.toList_append, List.append_assoc]
      rfl

theorem reads_defaults (b : Baked) : Reads defaults b.defaultsListing b.defaults := by
  have hburst := reads_optional "FOREIGN_BURST" b.defaults.foreignBurst
  unfold Baked.defaultsListing
  simp only [String.append_assoc]
  exact (reads_literal _).bind <| (reads_word _ _).bind <| (reads_word _ _).bind <|
    (reads_word _ _).bind <| (reads_word _ _).bind <| hburst.map (Defaults.mk _ _ _ _)

theorem reads_row (b : Bucket) : Reads row (Baked.rowListing b) b := by
  have hsize : Reads (number ", count: ") (Numeral.render b.size ++ ", count: ") b.size :=
    reads_number b.size rfl rfl
  have hcount : Reads (number " \x7d,\n") (Numeral.render b.count ++ " \x7d,\n") b.count :=
    reads_number b.count rfl rfl
  have htext : Baked.rowListing b = "    HistogramEntry \x7b size: "
      ++ ((Numeral.render b.size ++ ", count: ") ++ (Numeral.render b.count ++ " \x7d,\n")) := by
    unfold Baked.rowListing
    simp only [String.append_assoc]
  rw [htext]
  exact (reads_literal _).bind <| hsize.bind <| hcount.map (Bucket.mk b.size)

/-- As many rows are read as there are buckets. -/
theorem reads_rows : ∀ buckets : List Bucket,
    Reads (rows buckets.length) (String.join (buckets.map Baked.rowListing)) buckets
  | [] => .pure []
  | b :: rest => by
      rw [List.map_cons, String.join_cons]
      exact (reads_row b).bind ((reads_rows rest).map (b :: ·))

theorem reads_table (b : Baked) : Reads table b.tableListing b.table := by
  have hlength : Reads (number "] = [\n") (Numeral.render b.table.length ++ "] = [\n")
      b.table.length := reads_number _ rfl rfl
  have hend : Reads (do literal "];\n"; return b.table) "];\n" b.table :=
    (reads_literal _).map fun _ => b.table
  have htext : b.tableListing = Baked.banner
      ++ ("pub static DEFAULT_HISTOGRAM: [HistogramEntry; "
      ++ ((Numeral.render b.table.length ++ "] = [\n")
      ++ (String.join (b.table.map Baked.rowListing) ++ "];\n"))) := by
    unfold Baked.tableListing
    simp only [String.append_assoc]
  rw [htext]
  exact (reads_literal _).bind <| (reads_literal _).bind <| hlength.bind <|
    (reads_rows b.table).bind hend

end Reads

end Listing

namespace Build

variable {document : Toml.Table} {toml : Toml.Library}

/-- A document without a record of defaults, or with one that passes, gives defaults that make a
run. -/
theorem exists_defaults
    (h : ∀ v, document.lookup "defaults" = some v → ∃ given,
      toml.record "DefaultsSection" defaultsFields v = .ok given
        ∧ checkDefaults (defaultsOf given) = .ok ()) :
    ∃ d, entryOf "defaults" (decodeDefaults toml) .standard document = .ok d ∧ d.Runnable := by
  unfold entryOf
  cases hlookup : document.lookup "defaults" with
  | none => exact ⟨_, rfl, checkDefaults_eq_ok_iff.mp rfl⟩
  | some v =>
      obtain ⟨given, hgiven, hcheck⟩ := h v hlookup
      refine ⟨defaultsOf given, ?_, checkDefaults_eq_ok_iff.mp hcheck⟩
      change defaultsOf <$> toml.record "DefaultsSection" defaultsFields v = _
      rw [hgiven]
      rfl

/-- What a build takes is a histogram file of the table that the build lists, and the defaults that
it lists have a plan. And it takes every histogram file whose defaults pass. All that is asked of the
library is that it reads records under one name as under another; no text is a document with a key
that comes twice (`Toml.keyed_parse`). -/
theorem accepts_alike (hblind : toml.NameBlind) (hdistinct : Toml.Distinct document) :
    (∀ baked, ofDocument document toml = .ok baked →
      (∃ h first, Histogram.ofDocument document toml = .ok h
        ∧ Listing.read? Listing.table baked.tableListing = some h.buckets
        ∧ Histogram.ofBuckets h.buckets = .ok h
        ∧ h.buckets.head? = some first ∧ h.firstSize = first.size ∧ 1 ≤ h.firstSize)
      ∧ ∃ d plan, Listing.read? Listing.defaults baked.defaultsListing = some d
        ∧ d.config.plan = .ok plan ∧ plan.workers = d.config.workers
        ∧ plan.foreignBurst = d.config.foreignBurst ∧ 1 ≤ plan.heapSlotsPerWorker)
    ∧ ∀ h, Histogram.ofDocument document toml = .ok h →
      (∀ v, document.lookup "defaults" = some v → ∃ given,
        toml.record "DefaultsSection" defaultsFields v = .ok given
          ∧ checkDefaults (defaultsOf given) = .ok ()) →
      ∃ baked, ofDocument document toml = .ok baked := by
  constructor
  · intro baked hbaked
    obtain ⟨⟨h, hmade, htable⟩, -, hrunnable⟩ := (ofDocument_eq_ok_iff hblind hdistinct).mp hbaked
    obtain ⟨plan, hplan, hworkers, hburst, hslots⟩ := hrunnable.exists_plan
    refine ⟨⟨h, h.buckets.head h.buckets_ne_nil, hmade, ?_, h.ofBuckets_buckets,
      List.head?_eq_some_head _, rfl, h.size_pos _ (List.head_mem _)⟩,
      baked.defaults, plan, (Listing.reads_defaults baked).read?, hplan, hworkers, hburst, hslots⟩
    rw [htable]
    exact (Listing.reads_table baked).read?
  · intro h hmade hdefaults
    obtain ⟨d, hd, hrunnable⟩ := exists_defaults hdefaults
    exact ⟨⟨d, h.buckets⟩, (ofDocument_eq_ok_iff hblind hdistinct).mpr ⟨⟨h, hmade, rfl⟩, hd, hrunnable⟩⟩

/-- A document with two buckets, and defaults for three threads and bursts of a hundred blocks. -/
theorem accepts_alike_two_buckets :
    let document : Toml.Table :=
      [("bucket", .array [.table [("size", .integer 8), ("count", .integer 1000)],
        .array [.integer 48, .integer 0]]),
      ("defaults", .table [("threads", .integer 3), ("foreign_burst", .integer 100)])]
    let h : Histogram := ⟨[⟨8, 1000⟩, ⟨48, 0⟩], by decide, by decide⟩
    Toml.Distinct document ∧ Histogram.ofDocument document = .ok h
      ∧ ∃ baked, ofDocument document = .ok baked
        ∧ (∃ h : Histogram, Listing.read? Listing.table baked.tableListing = some h.buckets
          ∧ 1 ≤ h.firstSize)
        ∧ ∃ d plan, Listing.read? Listing.defaults baked.defaultsListing = some d
          ∧ d.config.plan = .ok plan ∧ 1 ≤ plan.heapSlotsPerWorker := by
  intro document h
  have hdistinct : Toml.Distinct document := by decide
  have hmade : Histogram.ofDocument document = .ok h := rfl
  obtain ⟨baked, hbaked⟩ := (accepts_alike Toml.nameBlind_library hdistinct).2 h hmade fun v hv => by
    obtain rfl := Option.some.inj hv
    exact ⟨_, rfl, rfl⟩
  obtain ⟨⟨h', -, -, htable, -, -, -, hfirst⟩, d, plan, hread, hplan, -, -, hslots⟩ :=
    (accepts_alike Toml.nameBlind_library hdistinct).1 baked hbaked
  exact ⟨hdistinct, hmade, baked, hbaked, ⟨h', htable, hfirst⟩, d, plan, hread, hplan, hslots⟩

end Build

end HeapChurn
