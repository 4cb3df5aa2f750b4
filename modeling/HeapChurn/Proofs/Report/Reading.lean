import HeapChurn.Report
import HeapChurn.Proofs.Numeral.Reading
import Mathlib.Algebra.BigOperators.Group.List.Basic
import Mathlib.Algebra.Ring.Nat

/-!
# Reports read back

Columns are not cut to their widths, so the table of a report cannot be read by the places of its
characters. It can be read by its words: the blanks between two cells are there however long the cells
are, and no cell has a blank in it (`words_rowLine`). Read in this way a table gives back its workers
one by one, and their totals (`read?_lines`); the text around the table is told from it by empty lines
(`tableLines_text`).
-/

namespace HeapChurn

/-! ## Words -/

namespace Column

/-- The words of a line, which runs of blanks keep apart. -/
def words (line : List Char) : List (List Char) := (line.splitOn ' ').filter (· ≠ [])

/-- The text is one word. -/
def IsWord (text : String) : Prop := text ≠ "" ∧ ∀ c ∈ text.toList, c ≠ ' ' ∧ c ≠ '\n'

instance (text : String) : Decidable (IsWord text) :=
  decidable_of_iff (text ≠ "" ∧ (text.toList.all fun c => c ≠ ' ' ∧ c ≠ '\n') = true)
    (and_congr_right fun _ => List.all_eq_true.trans (by simp))

theorem words_append (s t : List Char) : words (s ++ ' ' :: t) = words s ++ words t := by
  unfold words
  rw [List.splitOn_append_cons_self, List.filter_append]

theorem words_cons (t : List Char) : words (' ' :: t) = words t := words_append [] t

theorem words_of_isWord {text : String} (h : IsWord text) : words text.toList = [text.toList] := by
  have hblank : ' ' ∉ text.toList := fun hmem => (h.2 ' ' hmem).1 rfl
  unfold words
  rw [List.splitOn_eq_singleton hblank, List.filter_singleton]
  simp [h.1]

/-- Filling up a cell adds no word to it. -/
theorem words_alignRight (width : Nat) {text : String} (h : IsWord text) :
    words (alignRight width text).toList = [text.toList] := by
  unfold alignRight
  rw [String.toList_append, String.toList_ofList]
  induction width - text.length with
  | zero => exact words_of_isWord h
  | succ n ih => exact (words_cons _).trans ih

theorem words_intercalate : ∀ cells : List (List Char),
    words ("   ".toList.intercalate cells) = cells.flatMap words
  | [] => rfl
  | [cell] => by simp [List.intercalate_singleton]
  | cell :: next :: cells => by
      rw [List.intercalate_cons_cons, List.append_assoc, List.flatMap_cons,
        ← words_intercalate (next :: cells)]
      exact (words_append cell _).trans (congrArg _ ((words_cons _).trans (words_cons _)))

theorem isWord_ofList {text : List Char} (hne : text ≠ []) (h : ∀ c ∈ text, c ≠ ' ' ∧ c ≠ '\n') :
    IsWord (String.ofList text) := by
  have htext : (String.ofList text).toList = text := String.toList_ofList
  refine ⟨fun hnil => hne ?_, fun c hc => h c (htext ▸ hc)⟩
  rw [← htext, hnil]
  rfl

theorem isWord_render (n : Nat) : IsWord (Numeral.render n) := by
  refine isWord_ofList Nat.toDigits_ne_nil fun c hc => ?_
  have hdigit := Numeral.isDigit_toDigits n c hc
  constructor
  · rintro rfl
    exact absurd hdigit (by decide)
  · rintro rfl
    exact absurd hdigit (by decide)

theorem notMem_alignRight {width : Nat} {text : String} (h : '\n' ∉ text.toList) :
    '\n' ∉ (alignRight width text).toList := by
  unfold alignRight
  rw [String.toList_append, String.toList_ofList]
  refine fun hmem => (List.mem_append.mp hmem).elim (fun hblank => ?_) h
  exact absurd (List.eq_of_mem_replicate hblank) (by decide)

end Column

namespace Report

open Column

/-! ## Lines -/

/-- A line of the table, without its end. -/
def line (cells : List String) : List Char :=
  ' ' :: ' ' :: "   ".toList.intercalate (cells.map String.toList)

theorem toList_tableLine (cells : List String) : (tableLine cells).toList = line cells ++ ['\n'] := by
  simp [tableLine, line, String.toList_intercalate]

theorem words_line (cells : List String) :
    words (line cells) = cells.flatMap fun cell => words cell.toList := by
  unfold line
  rw [words_cons, words_cons, words_intercalate, List.flatMap_map]

theorem notMem_intercalate : ∀ {cells : List (List Char)}, (∀ cell ∈ cells, '\n' ∉ cell) →
    '\n' ∉ "   ".toList.intercalate cells
  | [], _ => List.not_mem_nil
  | [cell], h => by
      rw [List.intercalate_singleton]
      exact h cell List.mem_cons_self
  | cell :: next :: cells, h => by
      obtain ⟨hcell, hcells⟩ := List.forall_mem_cons.mp h
      rw [List.intercalate_cons_cons]
      refine fun hmem => (List.mem_append.mp hmem).elim (fun hmem => ?_) (notMem_intercalate hcells)
      exact (List.mem_append.mp hmem).elim hcell (absurd · (by decide))

theorem notMem_line {cells : List String} (h : ∀ cell ∈ cells, '\n' ∉ cell.toList) :
    '\n' ∉ line cells := by
  have hcells := notMem_intercalate (List.forall_mem_map.mpr h)
  simpa [line] using hcells

/-- Cells set right in columns of these widths. -/
def aligned (widths : List Nat) (cells : List String) : List String :=
  List.zipWith alignRight widths cells

/-- No two cells of a line run together, however wide they are. -/
theorem flatMap_words_aligned : ∀ {widths : List Nat} {cells : List String},
    (∀ cell ∈ cells, IsWord cell) → cells.length ≤ widths.length →
    (aligned widths cells).flatMap (fun cell => words cell.toList) = cells.map String.toList
  | [], [], _, _ => rfl
  | _ :: _, [], _, _ => rfl
  | width :: widths, cell :: cells, h, hlength => by
      obtain ⟨hcell, hcells⟩ := List.forall_mem_cons.mp h
      have ih := flatMap_words_aligned hcells (Nat.le_of_succ_le_succ hlength)
      unfold aligned at ih ⊢
      rw [List.zipWith_cons_cons, List.flatMap_cons, words_alignRight width hcell, ih]
      rfl

theorem notMem_aligned {widths : List Nat} {cells : List String} (h : ∀ cell ∈ cells, IsWord cell) :
    ∀ cell ∈ aligned widths cells, '\n' ∉ cell.toList := by
  intro cell hcell
  obtain ⟨i, hi, rfl⟩ := List.mem_iff_getElem.mp hcell
  simp only [aligned, List.getElem_zipWith]
  exact notMem_alignRight fun hmem => ((h _ (List.getElem_mem _)).2 _ hmem).2 rfl

/-- The line of a row, without its end. -/
def rowLine (cells : List String) : List Char := line (aligned widths cells)

theorem toList_row (cells : List String) : (row cells).toList = rowLine cells ++ ['\n'] :=
  toList_tableLine _

/-- No two cells of a row run together, however wide they are. -/
theorem words_rowLine {cells : List String} (h : ∀ cell ∈ cells, IsWord cell)
    (hlength : cells.length ≤ widths.length) : words (rowLine cells) = cells.map String.toList :=
  (words_line _).trans (flatMap_words_aligned h hlength)

/-- A cell that is wider than its column moves the others to the right. -/
example : row ["1234567", "18446744073709551615", "0", "0", "8"]
    = "  1234567   18446744073709551615              0          0              8\n" := by
  decide

/-! ## Tables -/

def titles : List String := ["worker", "allocs", "frees", "retires", "foreign"]

def rules : List String := widths.map rule

def workerCells (w : WorkerReport) : List String := Numeral.render w.worker :: figures w

/-- All cells of the table, row by row. -/
def rows (r : Report) : List (List String) :=
  titles :: rules :: (r.workers.map workerCells ++ ["total" :: figures r.totals])

theorem table_eq (r : Report) : r.table = String.join (r.rows.map row) := by
  have hrules : tableLine (widths.map rule) = row rules := by decide
  unfold table
  rw [hrules]
  simp [rows, titles, String.join_cons, String.join_append, String.append_assoc]
  rfl

theorem isWord_figures (w : WorkerReport) : ∀ cell ∈ figures w, IsWord cell := by
  intro cell hcell
  obtain ⟨n, -, rfl⟩ := List.mem_map.mp hcell
  exact isWord_render n.toNat

theorem isWord_rows (r : Report) : ∀ cells ∈ r.rows,
    (∀ cell ∈ cells, IsWord cell) ∧ cells.length ≤ widths.length := by
  have hfigures : ∀ (first : String) (w : WorkerReport), IsWord first →
      (∀ cell ∈ first :: figures w, IsWord cell) ∧ (first :: figures w).length ≤ widths.length :=
    fun first w h => ⟨List.forall_mem_cons.mpr ⟨h, isWord_figures w⟩, Nat.le_refl 5⟩
  refine List.forall_mem_cons.mpr ⟨by decide, List.forall_mem_cons.mpr ⟨by decide, ?_⟩⟩
  refine List.forall_mem_append.mpr ⟨List.forall_mem_map.mpr fun w _ => ?_, ?_⟩
  · exact hfigures _ w (isWord_render w.worker)
  · exact List.forall_mem_singleton.mpr (hfigures _ r.totals (by decide))

/-- The lines of the table, without their ends. -/
def lines (r : Report) : List (List Char) := r.rows.map rowLine

theorem splitOn_flatMap {rest : List Char} : ∀ {lines : List (List Char)}, (∀ l ∈ lines, '\n' ∉ l) →
    (lines.flatMap (· ++ ['\n']) ++ rest).splitOn '\n' = lines ++ rest.splitOn '\n'
  | [], _ => rfl
  | l :: lines, h => by
      obtain ⟨hl, hlines⟩ := List.forall_mem_cons.mp h
      rw [List.flatMap_cons, List.append_assoc, List.append_assoc, List.singleton_append,
        List.splitOn_append_cons_self, List.splitOn_eq_singleton hl, splitOn_flatMap hlines]
      rfl

theorem splitOn_table (r : Report) (rest : List Char) :
    (r.table.toList ++ rest).splitOn '\n' = r.lines ++ rest.splitOn '\n' := by
  have htext : r.table.toList = r.lines.flatMap (· ++ ['\n']) := by
    rw [table_eq, String.toList_join, lines, List.flatMap_map, List.flatMap_map]
    simp only [toList_row]
  rw [htext]
  refine splitOn_flatMap (List.forall_mem_map.mpr fun cells hcells => ?_)
  exact notMem_line (notMem_aligned (r.isWord_rows cells hcells).1)

/-! ## What is read -/

/-- The number that some digits denote. -/
def number? (digits : List Char) : Option Nat :=
  if digits ≠ [] ∧ digits.all Char.isDigit = true then some (Nat.ofDigitChars 10 digits 0) else none

def word? (digits : List Char) : Option UInt64 :=
  (number? digits).bind fun n => if n < Word.modulus then some (UInt64.ofNat n) else none

/-- The report of a worker whose four figures these are. -/
def readFigures? (worker : Nat) : List (List Char) → Option WorkerReport
  | [allocations, frees, retires, foreignFrees] => do
    return ⟨worker, ← word? allocations, ← word? frees, ← word? retires, ← word? foreignFrees⟩
  | _ => none

def readWorker? : List (List Char) → Option WorkerReport
  | worker :: cells => do readFigures? (← number? worker) cells
  | [] => none

/-- The totals of some workers. -/
def readTotals? (workers : Nat) : List (List Char) → Option WorkerReport
  | title :: cells => if title = "total".toList then readFigures? workers cells else none
  | [] => none

/-- The workers of a table and their totals. Behind the titles and the rules each line is a worker, but
the last one, which has the totals. -/
def read? (table : List (List Char)) : Option (List WorkerReport × WorkerReport) :=
  match table.map words with
  | head :: rule :: rows =>
    if head = titles.map String.toList ∧ rule = rules.map String.toList then do
      let workers ← rows.dropLast.mapM readWorker?
      return (workers, ← readTotals? workers.length (← rows.getLast?))
    else none
  | _ => none

theorem number?_render (n : Nat) : number? (Numeral.render n).toList = some n := by
  have hdigits := List.all_eq_true.mpr (Numeral.isDigit_toDigits n)
  unfold Numeral.render number?
  rw [String.toList_ofList, if_pos ⟨Nat.toDigits_ne_nil, hdigits⟩,
    Nat.ofDigitChars_toDigits (by decide) (by decide)]

theorem word?_render (n : UInt64) : word? (Numeral.render n.toNat).toList = some n := by
  have hlt : n.toNat < Word.modulus := n.toNat_lt_size
  rw [word?, number?_render, Option.bind_some, if_pos hlt, UInt64.ofNat_toNat]

theorem readFigures?_figures (worker : Nat) (w : WorkerReport) :
    readFigures? worker ((figures w).map String.toList) = some { w with worker } := by
  simp only [figures, List.map_cons, List.map_nil, readFigures?, word?_render]
  rfl

theorem readWorker?_cells (w : WorkerReport) :
    readWorker? ((workerCells w).map String.toList) = some w := by
  rw [workerCells, List.map_cons, readWorker?, number?_render]
  exact readFigures?_figures w.worker w

theorem mapM_readWorker? : ∀ workers : List WorkerReport,
    (workers.map fun w => (workerCells w).map String.toList).mapM readWorker? = some workers
  | [] => rfl
  | w :: workers => by
      rw [List.map_cons, List.mapM_cons, readWorker?_cells, mapM_readWorker? workers]
      rfl

theorem map_words_lines (r : Report) : r.lines.map words
    = titles.map String.toList :: rules.map String.toList
      :: (r.workers.map (fun w => (workerCells w).map String.toList)
        ++ [("total" :: figures r.totals).map String.toList]) := by
  have hwords : r.lines.map words = r.rows.map (·.map String.toList) := by
    rw [lines, List.map_map]
    exact List.map_congr_left fun cells hcells =>
      words_rowLine (r.isWord_rows cells hcells).1 (r.isWord_rows cells hcells).2
  rw [hwords]
  simp [rows]

/-! ## Sums -/

/-- The figures that a report sums up. -/
def summed : List (WorkerReport → UInt64) :=
  [(·.allocations), (·.frees), (·.retires), (·.foreignFrees)]

/-- The sums with one more worker. -/
def tally (sum w : WorkerReport) : WorkerReport :=
  { sum with
    allocations := sum.allocations + w.allocations
    frees := sum.frees + w.frees
    retires := sum.retires + w.retires
    foreignFrees := sum.foreignFrees + w.foreignFrees }

theorem totals_eq (r : Report) : r.totals = r.workers.foldl tally { worker := r.workers.length } := rfl

theorem worker_foldl : ∀ (workers : List WorkerReport) (sum : WorkerReport),
    (workers.foldl tally sum).worker = sum.worker
  | [], _ => rfl
  | w :: workers, sum => worker_foldl workers (tally sum w)

theorem worker_totals (r : Report) : r.totals.worker = r.workers.length := worker_foldl r.workers _

theorem eq_of_summed {w w' : WorkerReport} (hworker : w.worker = w'.worker)
    (h : ∀ field ∈ summed, field w = field w') : w = w' := by
  obtain ⟨hallocations, hfrees, hretires, hforeign⟩ : w.allocations = w'.allocations
      ∧ w.frees = w'.frees ∧ w.retires = w'.retires ∧ w.foreignFrees = w'.foreignFrees := by
    simpa [summed] using h
  cases w
  cases w'
  simp_all

section Field

variable {field : WorkerReport → UInt64} (hfield : field ∈ summed)

include hfield

theorem field_tally (sum w : WorkerReport) : field (tally sum w) = field sum + field w := by
  simp only [summed, List.mem_cons, List.not_mem_nil, or_false] at hfield
  rcases hfield with rfl | rfl | rfl | rfl <;> rfl

theorem field_start (worker : Nat) : field { worker } = 0 := by
  simp only [summed, List.mem_cons, List.not_mem_nil, or_false] at hfield
  rcases hfield with rfl | rfl | rfl | rfl <;> rfl

/-- Sums of words that run over on the way are those that run over at the end. -/
theorem toNat_foldl : ∀ (workers : List WorkerReport) (sum : WorkerReport),
    (field (workers.foldl tally sum)).toNat
      = ((field sum).toNat + (workers.map fun w => (field w).toNat).sum) % 2 ^ 64
  | [], sum => (Nat.mod_eq_of_lt (field sum).toNat_lt).symm
  | w :: workers, sum => by
      rw [List.foldl_cons, toNat_foldl workers, field_tally hfield, UInt64.toNat_add, List.map_cons,
        List.sum_cons, Nat.mod_add_mod, Nat.add_assoc]

theorem toNat_totals (r : Report) :
    (field r.totals).toNat = (r.workers.map fun w => (field w).toNat).sum % 2 ^ 64 := by
  rw [totals_eq, toNat_foldl hfield, field_start hfield, UInt64.toNat_zero, Nat.zero_add]

end Field

/-- The order of the workers makes no difference to their totals. -/
theorem totals_eq_of_perm {r r' : Report} (h : r'.workers.Perm r.workers) : r'.totals = r.totals := by
  refine eq_of_summed ?_ fun field hfield => ?_
  · rw [worker_totals, worker_totals, h.length_eq]
  · have hsum := (h.map fun w => (field w).toNat).sum_eq
    rw [← UInt64.toNat_inj, toNat_totals hfield, toNat_totals hfield, hsum]

/-! ## Reading back -/

theorem read?_lines (r : Report) : read? r.lines = some (r.workers, r.totals) := by
  have htotals : readTotals? r.workers.length (("total" :: figures r.totals).map String.toList)
      = some r.totals := by
    rw [List.map_cons, readTotals?, if_pos rfl, readFigures?_figures, ← worker_totals]
  unfold read?
  rw [map_words_lines]
  dsimp only
  rw [if_pos ⟨rfl, rfl⟩, List.dropLast_concat, List.getLast?_concat, mapM_readWorker?]
  change (readTotals? _ _ >>= fun totals => some (r.workers, totals)) = _
  rw [htotals]
  rfl

/-- Reports with the same table are of the same workers. -/
theorem workers_of_table {r r' : Report} (h : r'.table = r.table) : r'.workers = r.workers := by
  have hlines : r'.lines = r.lines := by
    have hsplit := r'.splitOn_table []
    rw [h, r.splitOn_table] at hsplit
    exact (List.append_cancel_right hsplit).symm
  have hread := r'.read?_lines
  rw [hlines, r.read?_lines] at hread
  exact (Prod.mk.inj (Option.some.inj hread)).1.symm

/-! ## Texts -/

/-- The lines of the table in the text of a report: those behind the summary, up to an empty line. -/
def tableLines (text : String) : List (List Char) :=
  ((text.toList.splitOn '\n').drop 3).takeWhile (· ≠ [])

theorem notMem_placePoint (units places : Nat) : '\n' ∉ (Binary64.placePoint units places).toList := by
  have hdigits : '\n' ∉ Binary64.padZeros (places + 1) (Nat.toDigits 10 units) := by
    intro hmem
    rcases List.mem_append.mp hmem with hzero | hdigit
    · exact absurd (List.eq_of_mem_replicate hzero) (by decide)
    · exact absurd (Numeral.isDigit_toDigits units _ hdigit) (by decide)
  unfold Binary64.placePoint
  rw [String.toList_ofList]
  intro hmem
  rcases List.mem_append.mp hmem with hwhole | hdecimals
  · exact hdigits (List.mem_of_mem_take hwhole)
  · split at hdecimals
    · cases hdecimals
    · rcases List.mem_cons.mp hdecimals with heq | hdecimals
      · cases heq
      · exact hdigits (List.mem_of_mem_drop hdecimals)

theorem notMem_toFixed (places : Nat) (x : Binary64) : '\n' ∉ (Binary64.toFixed places x).toList := by
  cases x with
  | finite negative mantissa exponent =>
      simp only [Binary64.toFixed, String.toList_append, List.mem_append]
      refine not_or.mpr ⟨?_, notMem_placePoint _ _⟩
      cases negative <;> decide
  | infinite negative =>
      simp only [Binary64.toFixed]
      cases negative <;> decide
  | nan =>
      simp only [Binary64.toFixed]
      decide

theorem notMem_summary (started : Nat) (elapsed : Elapsed) :
    '\n' ∉ (summary timeFormat started elapsed).toList := by
  have hstarted : '\n' ∉ (Numeral.render started).toList := fun hmem =>
    ((isWord_render started).2 _ hmem).2 rfl
  have hwall := notMem_toFixed 2 elapsed.wall
  have hcpu := notMem_toFixed 4
  unfold summary
  cases elapsed.cpu <;> simp [timeFormat, hstarted, hwall, hcpu]

/-- Counters come behind an empty line. -/
theorem takeWhile_splitOn_counted (counters : Option Counters) :
    (((counters.elim "" fun c => "\nCounters:\n" ++ c.table ++ "\n").toList.splitOn '\n').takeWhile
      (· ≠ [])) = [] := by
  cases counters with
  | none => rfl
  | some c =>
      have htext : ("\nCounters:\n" ++ c.table ++ "\n").toList
          = [] ++ '\n' :: ("Counters:\n" ++ c.table ++ "\n").toList := by simp
      rw [Option.elim_some, htext, List.splitOn_append_cons_self, List.splitOn_nil]
      rfl

theorem tableLines_text (r : Report) (elapsed : Elapsed) (counters : Option Counters) :
    tableLines (r.text timeFormat elapsed true counters) = r.lines := by
  have htext : (r.text timeFormat elapsed true counters).toList
      = [] ++ '\n' :: ((summary timeFormat r.started elapsed).toList ++ '\n' :: ([] ++ '\n'
        :: (r.table.toList
          ++ (counters.elim "" fun c => "\nCounters:\n" ++ c.table ++ "\n").toList))) := by
    simp [text]
  have hlines : ∀ l ∈ r.lines, decide (l ≠ []) = true :=
    List.forall_mem_map.mpr fun cells _ => rfl
  -- The first line is empty, the second is the summary, and the third is empty again.
  unfold tableLines
  rw [htext, List.splitOn_append_cons_self, List.splitOn_append_cons_self,
    List.splitOn_append_cons_self, List.splitOn_eq_singleton (notMem_summary r.started elapsed),
    splitOn_table]
  change (r.lines ++ _).takeWhile (· ≠ []) = r.lines
  rw [List.takeWhile_append_of_pos hlines, takeWhile_splitOn_counted, List.append_nil]

/-- The table of a verbose report is read back as the workers of the report in their order, whatever
their figures, and as its totals, behind a line of titles and one of rules; no two columns of a line run
together. The totals count the workers and are sums of words, which may run over. So the table says
which workers it is about, and the totals do not depend on their order. -/
theorem read?_text (r : Report) :
    (∀ elapsed counters,
        (tableLines (r.text timeFormat elapsed true counters)).map words
            = titles.map String.toList :: rules.map String.toList
              :: (r.workers.map (fun w => (workerCells w).map String.toList)
                ++ [("total" :: figures r.totals).map String.toList])
          ∧ read? (tableLines (r.text timeFormat elapsed true counters))
            = some (r.workers, r.totals))
      ∧ r.totals.worker = r.workers.length
      ∧ (∀ field ∈ [WorkerReport.allocations, WorkerReport.frees, WorkerReport.retires,
          WorkerReport.foreignFrees],
        (field r.totals).toNat = (r.workers.map fun w => (field w).toNat).sum % 2 ^ 64)
      ∧ (∀ r' : Report, r'.table = r.table → r'.workers = r.workers)
      ∧ ∀ r' : Report, r'.workers.Perm r.workers → r'.totals = r.totals := by
  refine ⟨fun elapsed counters => ?_, r.worker_totals, fun field hfield => toNat_totals hfield r,
    fun r' => workers_of_table, fun r' => totals_eq_of_perm⟩
  rw [tableLines_text]
  exact ⟨r.map_words_lines, r.read?_lines⟩

/-- Figures that are wider than their columns, with a sum that runs over. -/
theorem read?_text_wide :
    let wide : WorkerReport := ⟨1234567, 18446744073709551615, 1, 0, 0⟩
    let narrow : WorkerReport := ⟨0, 2, 0, 0, 8⟩
    let r : Report := ⟨2, [wide, narrow]⟩
    (∀ elapsed, read? (tableLines (r.text timeFormat elapsed true none))
        = some ([wide, narrow], ⟨2, 1, 1, 0, 8⟩))
      ∧ r.totals.allocations.toNat = 1
      ∧ Report.totals ⟨2, [narrow, wide]⟩ = r.totals
      ∧ ∀ r' : Report, r'.table = r.table → r'.workers = [wide, narrow] := by
  intro wide narrow r
  obtain ⟨hread, -, hsums, htable, horder⟩ := read?_text r
  have htotals : r.totals = ⟨2, 1, 1, 0, 8⟩ := by decide
  have hsum : ([wide, narrow].map fun w => w.allocations.toNat).sum % 2 ^ 64 = 1 := by decide
  refine ⟨fun elapsed => ?_, ?_, horder _ (.swap _ _ _), htable⟩
  · rw [(hread elapsed none).2, htotals]
  · exact (hsums WorkerReport.allocations List.mem_cons_self).trans hsum

end Report

end HeapChurn
