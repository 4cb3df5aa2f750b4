import HeapChurn.Proofs.Histogram.Acceptance
import HeapChurn.Proofs.Toml.Conformance

/-!
# Histograms written to a file and read

Each bucket is written as a paragraph: the header of an element, a line for each of its two numbers,
and blank lines as one likes. These are plain lines, and so it is known what a parser makes of them. A
paragraph puts one element more into the array of buckets, at its end (`foldlM_paragraph`), unless one
of its numbers is too large, and then nothing is made of the whole file. What is read is what was
written, in the same order (`ofText_written`).
-/

namespace HeapChurn

namespace Histogram

open Toml

def bucketKey : BareKey := ⟨"bucket", by decide, List.all_eq_true.mp rfl⟩

def sizeKey : BareKey := ⟨"size", by decide, List.all_eq_true.mp rfl⟩

def countKey : BareKey := ⟨"count", by decide, List.all_eq_true.mp rfl⟩

/-- A bucket as it is written to a file, with the blank lines below it. -/
structure Paragraph where
  bucket : Bucket
  gap : List (List Char)
  blank : ∀ line ∈ gap, ∀ c ∈ line, isBlank c = true

namespace Paragraph

def text (p : Paragraph) : String :=
  "[[bucket]]\n" ++ ("size = " ++ Numeral.render p.bucket.size ++ "\n")
    ++ ("count = " ++ Numeral.render p.bucket.count ++ "\n")
    ++ String.ofList (p.gap.flatMap (· ++ ['\n']))

def lines (p : Paragraph) : List Line :=
  .header bucketKey :: .pair sizeKey p.bucket.size :: .pair countKey p.bucket.count
    :: p.gap.pmap Line.blank p.blank

/-- Both numbers fit 64 bits with a sign. -/
def Fits (p : Paragraph) : Prop := p.bucket.size < 2 ^ 63 ∧ p.bucket.count < 2 ^ 63

instance (p : Paragraph) : Decidable p.Fits := inferInstanceAs (Decidable (_ ∧ _))

end Paragraph

/-- The text of a file with these paragraphs. -/
def written (ps : List Paragraph) : String := String.join (ps.map Paragraph.text)

/-! ## Lines -/

theorem toList_blank : ∀ {gap : List (List Char)} (h : ∀ line ∈ gap, ∀ c ∈ line, isBlank c = true),
    (plainFile (gap.pmap Line.blank h)).toList = gap.flatMap (· ++ ['\n'])
  | [], _ => by simp [plainFile]
  | line :: gap, h => by
      rw [List.pmap_cons, toList_plainFile_cons, toList_blank, List.flatMap_cons]
      simp [Line.text]

theorem toList_plainFile_append (lines more : List Line) :
    (plainFile (lines ++ more)).toList = (plainFile lines).toList ++ (plainFile more).toList := by
  simp [plainFile]

theorem Paragraph.text_eq (p : Paragraph) : p.text.toList = (plainFile p.lines).toList := by
  rw [lines, toList_plainFile_cons, toList_plainFile_cons, toList_plainFile_cons, toList_blank]
  simp [text, Line.text, bucketKey, sizeKey, countKey]

theorem written_eq : ∀ ps : List Paragraph, written ps = plainFile (ps.flatMap Paragraph.lines)
  | [] => rfl
  | p :: ps => by
      have hps := congrArg String.toList (written_eq ps)
      rw [← String.toList_inj, List.flatMap_cons, toList_plainFile_append, ← hps, ← p.text_eq]
      simp [written]

/-! ## Documents -/

/-- A bucket as the table that a paragraph makes. -/
def tableOf (b : Bucket) : Toml.Value :=
  .table [("size", .integer b.size), ("count", .integer b.count)]

/-- The document of some buckets. -/
def documentOf (buckets : List Bucket) : Toml.Table := [("bucket", .array (buckets.map tableOf))]

theorem lists_documentOf (buckets : List Bucket) : Lists (documentOf buckets) buckets := by
  refine ⟨_, rfl, ?_⟩
  induction buckets with
  | nil => exact .nil
  | cons b buckets ih => exact .cons (.table rfl rfl) ih

theorem keyed_documentOf (buckets : List Bucket) : (Toml.Value.table (documentOf buckets)).Keyed := by
  have hinteger : ∀ n, (Toml.Value.integer n).Keyed := fun _ => .atom nofun nofun
  refine .table (List.nodup_singleton _) (List.forall_mem_singleton.mpr (.array fun v hv => ?_))
  obtain ⟨b, -, rfl⟩ := List.mem_map.mp hv
  refine .table (by decide : ["size", "count"].Nodup) (List.forall_mem_cons.mpr ⟨hinteger _, ?_⟩)
  exact List.forall_mem_singleton.mpr (hinteger _)

/-- What is made of the paragraphs of some buckets. -/
def draftOf : List Bucket → Draft
  | [] => {}
  | b :: buckets => ⟨documentOf (b :: buckets), some "bucket"⟩

/-- An element that is open, with what it has so far. -/
def openDraft (before : List Bucket) (entries : Toml.Table) : Draft :=
  ⟨[("bucket", .array (before.map tableOf ++ [.table entries]))], some "bucket"⟩

theorem openElement_draftOf (before : List Bucket) :
    (draftOf before).openElement "bucket" = some (openDraft before []) := by
  cases before <;> rfl

theorem give_openDraft {before : List Bucket} {entries : Toml.Table} {key : String}
    (hkey : entries.lookup key = none) (v : Toml.Value) :
    (openDraft before entries).give key v = some (openDraft before (entries ++ [(key, v)])) := by
  simp [openDraft, Draft.give, Table.give, Table.replace, hkey]

theorem draftOf_concat (before : List Bucket) (b : Bucket) : draftOf (before ++ [b])
    = openDraft before [("size", .integer b.size), ("count", .integer b.count)] := by
  cases before <;> simp [draftOf, openDraft, documentOf, tableOf]

theorem foldlM_blank (d : Draft) : ∀ {gap : List (List Char)}
    (h : ∀ line ∈ gap, ∀ c ∈ line, isBlank c = true),
    (gap.pmap Line.blank h).foldlM Draft.add d = some d
  | [], _ => rfl
  | _ :: _, h => foldlM_blank d (List.forall_mem_cons.mp h).2

/-- A paragraph puts its bucket behind those that are there. -/
theorem foldlM_paragraph (before : List Bucket) {p : Paragraph} (h : p.Fits) :
    p.lines.foldlM Draft.add (draftOf before) = some (draftOf (before ++ [p.bucket])) := by
  have hheader : (draftOf before).add (.header bucketKey) = some (openDraft before []) :=
    openElement_draftOf before
  have hsize : (openDraft before []).add (.pair sizeKey p.bucket.size)
      = some (openDraft before [("size", .integer p.bucket.size)]) :=
    (if_pos h.1).trans (give_openDraft rfl _)
  have hcount : (openDraft before [("size", .integer p.bucket.size)]).add
      (.pair countKey p.bucket.count) = some (draftOf (before ++ [p.bucket])) := by
    rw [draftOf_concat]
    exact (if_pos h.2).trans (give_openDraft rfl _)
  rw [Paragraph.lines, List.foldlM_cons, hheader, Option.bind_eq_bind, Option.bind_some,
    List.foldlM_cons, hsize, Option.bind_eq_bind, Option.bind_some, List.foldlM_cons, hcount,
    Option.bind_eq_bind, Option.bind_some, foldlM_blank]

theorem foldlM_paragraphs : ∀ {ps : List Paragraph} (before : List Bucket), (∀ p ∈ ps, p.Fits) →
    (ps.flatMap Paragraph.lines).foldlM Draft.add (draftOf before)
      = some (draftOf (before ++ ps.map (·.bucket)))
  | [], before, _ => by rw [List.map_nil, List.append_nil]; rfl
  | p :: ps, before, h => by
      obtain ⟨hp, hps⟩ := List.forall_mem_cons.mp h
      rw [List.flatMap_cons, List.foldlM_append, foldlM_paragraph before hp, Option.bind_eq_bind,
        Option.bind_some, foldlM_paragraphs _ hps, List.append_assoc]
      rfl

/-- A number that does not fit spoils every file. -/
theorem foldlM_of_large {k : BareKey} {n : Nat} (hn : 2 ^ 63 ≤ n) : ∀ {lines : List Line} (d : Draft),
    .pair k n ∈ lines → lines.foldlM Draft.add d = none
  | [], _, h => absurd h List.not_mem_nil
  | line :: lines, d, h => by
      rw [List.foldlM_cons]
      rcases List.mem_cons.mp h with rfl | hrest
      · rw [Draft.add, if_neg (Nat.not_lt.mpr hn)]
        rfl
      · cases d.add line with
        | none => rfl
        | some d => exact foldlM_of_large hn d hrest

/-! ## What is read -/

section Reading

variable {toml : Toml.Library} {ps : List Paragraph} (hconforms : toml.Conforms)

include hconforms

theorem parse_written (ps : List Paragraph) :
    toml.parse (written ps) = plainDocument (ps.flatMap Paragraph.lines) := by
  rw [written_eq, hconforms]

theorem ofText_written_of_large (hlarge : ∃ p ∈ ps, 2 ^ 63 ≤ p.bucket.size ∨ 2 ^ 63 ≤ p.bucket.count) :
    ofText (written ps) toml = .error (.badHistogram .malformed) := by
  have hnone : toml.parse (written ps) = none := by
    obtain ⟨p, hp, hlarge⟩ := hlarge
    rw [parse_written hconforms, plainDocument]
    rcases hlarge with hsize | hcount
    · have hline : Line.pair sizeKey p.bucket.size ∈ ps.flatMap Paragraph.lines :=
        List.mem_flatMap.mpr ⟨p, hp, by simp [Paragraph.lines]⟩
      rw [foldlM_of_large hsize _ hline]
      rfl
    · have hline : Line.pair countKey p.bucket.count ∈ ps.flatMap Paragraph.lines :=
        List.mem_flatMap.mpr ⟨p, hp, by simp [Paragraph.lines]⟩
      rw [foldlM_of_large hcount _ hline]
      rfl
  rw [ofText, hnone]

theorem ofText_written_of_fits (hderives : toml.Derives) (hne : ps ≠ []) (hfits : ∀ p ∈ ps, p.Fits) :
    ofText (written ps) toml = ofBuckets (ps.map (·.bucket)) := by
  have hparse : toml.parse (written ps) = some (documentOf (ps.map (·.bucket))) := by
    have hlines := foldlM_paragraphs [] hfits
    rw [parse_written hconforms, plainDocument]
    obtain ⟨p, ps, rfl⟩ := List.exists_cons_of_ne_nil hne
    exact (congrArg (Option.map Draft.document) hlines)
  rw [ofText, hparse]
  exact (lists_documentOf _).ofDocument_eq hderives (keyed_documentOf _)

/-- The buckets of a file that was written bucket by bucket are read back in their order, if every
number fits 64 bits with a sign and no size is zero. A size of zero is found at its place, and a number
that does not fit spoils all of the file. This is so with any library that knows plain lines and whose
readers are derived. -/
theorem ofText_written (hderives : toml.Derives) (hne : ps ≠ []) :
    ((∃ p ∈ ps, 2 ^ 63 ≤ p.bucket.size ∨ 2 ^ 63 ≤ p.bucket.count) →
        ofText (written ps) toml = .error (.badHistogram .malformed))
      ∧ ((∀ p ∈ ps, p.bucket.size < 2 ^ 63 ∧ p.bucket.count < 2 ^ 63) →
        ((∀ p ∈ ps, 1 ≤ p.bucket.size) →
          ∃ h, ofText (written ps) toml = .ok h ∧ h.buckets = ps.map (·.bucket))
        ∧ ((∃ p ∈ ps, p.bucket.size = 0) →
          ∃ index, FirstZero (ps.map (·.bucket)) index
            ∧ ofText (written ps) toml = .error (.zeroBlockSize index))) := by
  refine ⟨ofText_written_of_large hconforms, fun hfits => ?_⟩
  rw [ofText_written_of_fits hconforms hderives hne hfits]
  have hbuckets : ps.map (·.bucket) ≠ [] := mt List.map_eq_nil_iff.mp hne
  refine ⟨fun hpos => exists_ofBuckets_iff.mpr ⟨hbuckets, List.forall_mem_map.mpr hpos⟩, ?_⟩
  rintro ⟨p, hp, hzero⟩
  rcases ofBuckets_cases (ps.map (·.bucket)) with hmade | ⟨hnil, -⟩ | ⟨index, hindex⟩
  · have hpos := (exists_ofBuckets_iff.mp hmade).2 p.bucket (List.mem_map_of_mem hp)
    omega
  · exact absurd hnil hbuckets
  · exact ⟨index, ofBuckets_eq_zeroBlockSize_iff.mp hindex, hindex⟩

end Reading

/-- Two buckets, with lines between them that are not quite empty, and the largest number that a file
can hold. -/
theorem ofText_written_largest :
    let first : Paragraph := ⟨⟨16, 0⟩, [[], [' ', '\t']], by simp [isBlank]⟩
    let second : Paragraph := ⟨⟨1, 9223372036854775807⟩, [], nofun⟩
    written [first, second] = "[[bucket]]\nsize = 16\ncount = 0\n\n \t\n"
        ++ "[[bucket]]\nsize = 1\ncount = 9223372036854775807\n"
      ∧ Toml.library.Conforms ∧ Toml.library.Derives
      ∧ ∃ h, ofText (written [first, second]) = .ok h
        ∧ h.buckets = [⟨16, 0⟩, ⟨1, 9223372036854775807⟩] := by
  intro first second
  have hread := ofText_written Toml.conforms_library Toml.derives_library
    (List.cons_ne_nil first [second])
  exact ⟨by decide, Toml.conforms_library, Toml.derives_library, (hread.2 (by decide)).1 (by decide)⟩

end Histogram

end HeapChurn
