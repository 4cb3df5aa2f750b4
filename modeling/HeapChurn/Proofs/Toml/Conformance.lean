import HeapChurn.Proofs.Toml.Integers
import HeapChurn.Proofs.Toml.Keys
import HeapChurn.Proofs.Toml.Lines
import Mathlib.Data.Option.Basic

/-!
# The parser of the program on plain lines

The parser reads all of a file into statements before it adds the first of them to its document, and
it puts a table into the document only when its section is over. A draft grows line by line and holds
every element from its header on. The two go side by side: what is read of each line comes to the
statements of that line (`statements_plainFile`), adding these keeps a growing document at its draft
(`Drafts.step`), and where one is refused so is the other. So the parser finds in every file of plain
lines the document that it stands for (`conforms_library`).
-/

namespace HeapChurn

namespace Toml

/-! ## Reading -/

namespace BareKey

variable (k : BareKey) {d : Char} {rest : List Char}

theorem exists_toList_eq_cons :
    ∃ c more, k.name.toList = c :: more ∧ isBareKeyChar c = true := by
  obtain ⟨c, more, hname⟩ := List.exists_cons_of_ne_nil (mt String.toList_eq_nil_iff.mp k.name_ne)
  exact ⟨c, more, hname, k.bare c (hname ▸ List.mem_cons_self)⟩

/-- A bare key begins with a character that begins nothing else. -/
theorem toList_ne_cons (hd : isBareKeyChar d = false) (tail : List Char) :
    k.name.toList ++ rest ≠ d :: tail := by
  obtain ⟨c, more, hname, hc⟩ := k.exists_toList_eq_cons
  rw [hname]
  rintro ⟨⟩
  rw [hd] at hc
  cases hc

theorem skipBlanks_toList : skipBlanks (k.name.toList ++ rest) = k.name.toList ++ rest := by
  cases htext : k.name.toList ++ rest with
  | nil => rfl
  | cons c more =>
      refine List.dropWhile_cons_of_neg fun hblank => ?_
      rcases Bool.or_eq_true_iff.mp hblank with hspace | htab
      · exact k.toList_ne_cons (by decide) _ (of_decide_eq_true hspace ▸ htext)
      · exact k.toList_ne_cons (by decide) _ (of_decide_eq_true htab ▸ htext)

theorem keyPart_toList (hd : isBareKeyChar d = false) :
    keyPart (k.name.toList ++ d :: rest) = some (k.name, d :: rest) := by
  have hstop : ¬isBareKeyChar d = true := by simp [hd]
  have hbefore : (k.name.toList ++ d :: rest).takeWhile isBareKeyChar = k.name.toList := by
    rw [List.takeWhile_append_of_pos k.bare, List.takeWhile_cons_of_neg hstop, List.append_nil]
  have hbehind : (k.name.toList ++ d :: rest).dropWhile isBareKeyChar = d :: rest := by
    rw [List.dropWhile_append_of_pos k.bare, List.dropWhile_cons_of_neg hstop]
  unfold keyPart
  split
  · exact absurd ‹_› (k.toList_ne_cons (by decide) _)
  · exact absurd ‹_› (k.toList_ne_cons (by decide) _)
  · rw [hbefore, hbehind]
    dsimp only
    rw [String.ofList_toList]
    exact if_neg (mt String.toList_eq_nil_iff.mp k.name_ne)

/-- A bare key before an equals sign. -/
theorem key_equals : key (k.name.toList ++ ' ' :: '=' :: rest) = some (([], k.name), '=' :: rest) := by
  change (keyPart (skipBlanks (k.name.toList ++ ' ' :: '=' :: rest)) >>= _) = _
  rw [skipBlanks_toList, keyPart_toList k (by decide)]
  rfl

/-- A bare key before a closing bracket. -/
theorem key_bracket : key (k.name.toList ++ ']' :: rest) = some (([], k.name), ']' :: rest) := by
  change (keyPart (skipBlanks (k.name.toList ++ ']' :: rest)) >>= _) = _
  rw [skipBlanks_toList, keyPart_toList k (by decide)]
  rfl

theorem header_toList : header ('[' :: (k.name.toList ++ ']' :: ']' :: '\n' :: rest))
    = some (.element [] k.name, rest) := by
  change (key (k.name.toList ++ ']' :: ']' :: '\n' :: rest) >>= _) = _
  rw [key_bracket]
  rfl

theorem assignment_toList (n : Nat) :
    assignment (k.name.toList ++ ' ' :: '=' :: ' ' :: (Nat.toDigits 10 n ++ '\n' :: rest))
      = (integer? n).map fun v => (.assign [] k.name v, rest) := by
  unfold assignment
  rw [key_equals]
  change (value (depthLimit - 1) (skipBlanks (Nat.toDigits 10 n ++ '\n' :: rest)) >>= _) = _
  rw [(figures_toDigits n).skipBlanks_eq, value_toDigits]
  cases integer? (n : Int) <;> rfl

end BareKey

namespace Line

/-- What a line says to a reader of files, if it can be read. -/
def statements? : Line → Option (List Statement)
  | .blank _ _ => some []
  | .header key => some [.element [] key.name]
  | .pair key n => (integer? n).map fun v => [.assign [] key.name v]

/-- A line is read by itself, whatever follows, and takes one unit of fuel. -/
theorem statements_text (line : Line) (fuel : Nat) (rest : List Char) :
    statements (fuel + 1) (line.text.toList ++ rest)
      = line.statements?.bind fun ss => (statements fuel rest).map (ss ++ ·) := by
  cases line with
  | blank text h =>
      have hskip : skipBlanks (text ++ '\n' :: rest) = '\n' :: rest := by
        unfold skipBlanks
        rw [List.dropWhile_append_of_pos h]
        rfl
      have htext : (Line.blank text h).text.toList ++ rest = text ++ '\n' :: rest := by
        simp [Line.text]
      rw [htext, statements, hskip]
      exact Option.map_id'.symm
  | header key =>
      have htext : (Line.header key).text.toList ++ rest
          = '[' :: '[' :: (key.name.toList ++ ']' :: ']' :: '\n' :: rest) := by
        simp [Line.text]
      rw [htext, statements]
      change (Toml.header ('[' :: (key.name.toList ++ ']' :: ']' :: '\n' :: rest)) >>= _) = _
      rw [key.header_toList]
      exact Option.map_eq_bind.symm
  | pair key n =>
      have htext : (Line.pair key n).text.toList ++ rest
          = key.name.toList ++ ' ' :: '=' :: ' ' :: (Nat.toDigits 10 n ++ '\n' :: rest) := by
        simp [Line.text, Numeral.render]
      rw [htext, statements, key.skipBlanks_toList]
      split
      · rename_i hnil
        exact absurd (List.append_eq_nil_iff.mp hnil).2 nofun
      · exact absurd ‹_› (key.toList_ne_cons (by decide) _)
      · exact absurd ‹_› (key.toList_ne_cons (by decide) _)
      · exact absurd ‹_› (key.toList_ne_cons (by decide) _)
      · exact absurd ‹_› (key.toList_ne_cons (by decide) _)
      · rw [key.assignment_toList, statements?]
        cases integer? (n : Int) with
        | none => rfl
        | some v => exact Option.map_eq_bind.symm

/-- No line is without a character, be it only its end, and none begins with a byte order mark. -/
theorem exists_toList_eq_cons (line : Line) :
    ∃ c more, line.text.toList = c :: more ∧ c ≠ '\uFEFF' := by
  cases line with
  | blank text h =>
      cases text with
      | nil => exact ⟨'\n', [], by simp [Line.text], by decide⟩
      | cons c text =>
          refine ⟨c, text ++ ['\n'], by simp [Line.text], ?_⟩
          rintro rfl
          exact absurd (h _ List.mem_cons_self) (by decide)
  | header key =>
      refine ⟨'[', '[' :: (key.name.toList ++ "]]\n".toList), by simp [Line.text], by decide⟩
  | pair key n =>
      obtain ⟨c, more, hname, hc⟩ := key.exists_toList_eq_cons
      refine ⟨c, more ++ (" = " ++ Numeral.render n ++ "\n").toList, by simp [Line.text, hname], ?_⟩
      rintro rfl
      exact absurd hc (by decide)

end Line

theorem toList_plainFile_cons (line : Line) (lines : List Line) :
    (plainFile (line :: lines)).toList = line.text.toList ++ (plainFile lines).toList := by
  simp [plainFile]

theorem statements_plainFile (fuel : Nat) : ∀ lines : List Line,
    statements (fuel + 1 + lines.length) (plainFile lines).toList
      = (lines.mapM Line.statements?).map List.flatten
  | [] => rfl
  | line :: lines => by
      rw [toList_plainFile_cons, List.length_cons, ← Nat.add_assoc, line.statements_text,
        statements_plainFile fuel lines, List.mapM_cons]
      cases line.statements? with
      | none => rfl
      | some ss => cases lines.mapM Line.statements? <;> rfl

theorem length_le_plainFile : ∀ lines : List Line, lines.length ≤ (plainFile lines).toList.length
  | [] => Nat.le_refl 0
  | line :: lines => by
      obtain ⟨c, more, hline, -⟩ := line.exists_toList_eq_cons
      have hlines := length_le_plainFile lines
      rw [toList_plainFile_cons, hline, List.length_append, List.length_cons, List.length_cons]
      omega

theorem dropMark_plainFile : ∀ lines : List Line,
    dropMark (plainFile lines).toList = (plainFile lines).toList
  | [] => rfl
  | line :: lines => by
      obtain ⟨c, more, hline, hc⟩ := line.exists_toList_eq_cons
      rw [toList_plainFile_cons, hline]
      unfold dropMark
      split
      · rename_i heq
        exact absurd (List.cons.inj heq).1 hc
      · rfl

/-- What a line adds to a document that is growing. -/
def Growth.addLine (g : Growth) (line : Line) : Option Growth :=
  line.statements?.bind fun ss => ss.foldlM Growth.add g

/-- It makes no difference that all lines are read before the first is added. -/
theorem bind_foldlM_add : ∀ (lines : List Line) (g : Growth),
    ((lines.mapM Line.statements?).bind fun sss => sss.flatten.foldlM Growth.add g)
      = lines.foldlM Growth.addLine g
  | [], _ => rfl
  | line :: lines, g => by
      rw [List.mapM_cons, List.foldlM_cons, Growth.addLine]
      cases line.statements? with
      | none => rfl
      | some ss =>
          have hlines : ∀ g', ((lines.mapM Line.statements?).bind fun sss =>
              sss.flatten.foldlM Growth.add g') = lines.foldlM Growth.addLine g' :=
            bind_foldlM_add lines
          have happend : ∀ sss : List (List Statement), (ss :: sss).flatten.foldlM Growth.add g
              = (ss.foldlM Growth.add g).bind fun g' => sss.flatten.foldlM Growth.add g' :=
            fun sss => List.foldlM_append
          change ((lines.mapM Line.statements?).bind fun sss => some (ss :: sss)).bind _
            = (ss.foldlM Growth.add g).bind _
          rw [Option.bind_assoc, ← funext hlines, Option.bind_comm]
          exact congrArg _ (funext happend)

theorem parse_plainFile (lines : List Line) :
    parse (plainFile lines)
      = (lines.foldlM Growth.addLine {}).bind fun g => g.close.map finishEntries := by
  obtain ⟨slack, hslack⟩ := Nat.exists_eq_add_of_le (length_le_plainFile lines)
  have hfuel : (plainFile lines).toList.length + 1 = slack + 1 + lines.length := by omega
  unfold parse
  dsimp only
  rw [dropMark_plainFile, hfuel, statements_plainFile, ← bind_foldlM_add]
  cases lines.mapM Line.statements? with
  | none => rfl
  | some sss =>
      change grow sss.flatten = (sss.flatten.foldlM Growth.add {}).bind _
      unfold grow
      refine congrArg _ (funext fun g => ?_)
      cases g.close <;> rfl

/-! ## Growing -/

namespace Entries

variable {entries : Entries} {key : String} {node other : Node}

theorem lookup_finishEntries : ∀ entries : Entries,
    (finishEntries entries).lookup key = (entries.lookup key).map Node.toValue
  | [] => rfl
  | (k, node) :: rest => by
      rw [finishEntries, List.lookup_cons, List.lookup_cons, lookup_finishEntries rest]
      cases key == k <;> rfl

theorem finishEntries_concat (entries : Entries) (key : String) (node : Node) :
    finishEntries (entries ++ [(key, node)]) = finishEntries entries ++ [(key, node.toValue)] := by
  rw [finishEntries_eq_map, finishEntries_eq_map, List.map_append]
  rfl

theorem toValue_tables_concat (elements : List Entries) (last : Entries) :
    (Node.tables (elements ++ [last])).toValue
      = .array (finishTables elements ++ [.table (finishEntries last)]) := by
  unfold Node.toValue
  rw [finishTables_eq_map, finishTables_eq_map, List.map_append]
  rfl

theorem finishEntries_replace : ∀ entries : Entries,
    finishEntries (entries.replace key node)
      = Table.replace key node.toValue (finishEntries entries)
  | [] => rfl
  | (k, n) :: rest => by
      have ih := finishEntries_replace rest
      unfold Entries.replace
      rw [finishEntries, Table.replace]
      split
      · rfl
      · rw [finishEntries, ih]

theorem replace_replace : ∀ entries : Entries,
    (entries.replace key node).replace key other = entries.replace key other
  | [] => rfl
  | (k, n) :: rest => by
      have ih := replace_replace rest
      by_cases hk : k = key
      · simp only [Entries.replace, if_pos hk]
      · simp only [Entries.replace, if_neg hk, ih]

theorem replace_concat : ∀ {entries : Entries}, entries.lookup key = none →
    Entries.replace key other (entries ++ [(key, node)]) = entries ++ [(key, other)]
  | [], _ => if_pos rfl
  | (k, n) :: rest, h => by
      have hk : k ≠ key := by
        rintro rfl
        rw [List.lookup_cons_self] at h
        cases h
      rw [List.lookup_cons, beq_false_of_ne hk.symm] at h
      rw [List.cons_append, Entries.replace, if_neg hk, replace_concat h]
      rfl

end Entries

/-- All that is in the document is a number or an array of tables. -/
def Plain (entries : Entries) : Prop :=
  ∀ entry ∈ entries, (∃ z, entry.2 = .value (.integer z)) ∨ ∃ elements, entry.2 = .tables elements

theorem Plain.concat {entries : Entries} (h : Plain entries) {key : String} {node : Node}
    (hnode : (∃ z, node = .value (.integer z)) ∨ ∃ elements, node = .tables elements) :
    Plain (entries ++ [(key, node)]) := fun entry hentry => by
  rcases List.mem_append.mp hentry with hold | hnew
  · exact h entry hold
  · obtain rfl := List.mem_singleton.mp hnew
    exact hnode

/-- The draft has what the growing document will have when its section is closed. -/
inductive Drafts : Growth → Draft → Prop
  | root {current : Entries} (hplain : Plain current) :
      Drafts ⟨[], current, .root⟩ ⟨finishEntries current, none⟩
  | element {root current : Entries} {key : String} {elements : List Entries}
      (hplain : Plain root) (hlookup : root.lookup key = some (.tables elements)) :
      Drafts ⟨root, current, .element [] key⟩
        ⟨finishEntries (root.replace key (.tables (elements ++ [current]))), some key⟩

namespace Drafts

variable {g : Growth} {d : Draft}

theorem close (h : Drafts g d) : ∃ closed, g.close = some closed ∧ Plain closed
    ∧ d.document = finishEntries closed := by
  cases h with
  | root hplain => exact ⟨_, rfl, hplain, rfl⟩
  | @element root current key elements hplain hlookup =>
      refine ⟨root.replace key (.tables (elements ++ [current])), ?_, fun entry hentry => ?_, rfl⟩
      · simp only [Growth.close, Entries.within, hlookup, Option.map_some]
      · rcases Entries.mem_replace hentry with hold | hnew
        · exact hplain entry hold
        · exact .inr ⟨_, hnew⟩

theorem openElement (h : Drafts g d) (key : String) :
    Option.Rel Drafts (g.openElement [] key) (d.openElement key) := by
  obtain ⟨closed, hclose, hplain, hdocument⟩ := h.close
  have hvalue : d.document.lookup key = (closed.lookup key).map Node.toValue := by
    rw [hdocument, Entries.lookup_finishEntries]
  rw [Growth.openElement, hclose, Draft.openElement, hvalue]
  simp only [Entries.within, Option.bind_eq_bind, Option.bind_some]
  cases hlookup : closed.lookup key with
  | none =>
      have hopened : (closed ++ [(key, Node.tables [])]).lookup key = some (.tables []) :=
        lookup_concat hlookup _
      have hdraft : Drafts ⟨closed ++ [(key, .tables [])], [], .element [] key⟩ _ :=
        .element (hplain.concat (.inr ⟨[], rfl⟩)) hopened
      rw [Entries.replace_concat hlookup, Entries.finishEntries_concat, ← hdocument] at hdraft
      exact .some hdraft
  | some node =>
      rcases hplain (key, node) (mem_of_lookup hlookup) with ⟨z, hnode⟩ | ⟨elements, hnode⟩
      · obtain rfl : node = .value (.integer z) := hnode
        exact .none
      · obtain rfl : node = .tables elements := hnode
        have hdraft : Drafts ⟨closed, [], .element [] key⟩ _ := .element hplain hlookup
        rw [Entries.finishEntries_replace, ← hdocument, Entries.toValue_tables_concat] at hdraft
        exact .some hdraft

/-- A new key gets its value in the finished table as in the growing one. -/
theorem give_finishEntries (entries : Entries) (key : String) (v : Value) :
    Table.give key v (finishEntries entries)
      = (entries.insertNew key (.value v)).map fun out => finishEntries out.2 := by
  rw [Table.give, Entries.insertNew, Entries.lookup_finishEntries]
  cases entries.lookup key with
  | none => exact congrArg some (Entries.finishEntries_concat entries key (.value v)).symm
  | some node => rfl

theorem assign (h : Drafts g d) (key : String) (z : Int) :
    Option.Rel Drafts (g.assign [] key (.integer z)) (d.give key (.integer z)) := by
  have hgrown : g.assign [] key (.integer z)
      = (Entries.insertNew key (.value (.integer z)) g.current).map
        fun out => { g with current := out.2 } := by
    change ((Entries.insertNew key _ g.current).map Prod.snd >>= _) = _
    cases Entries.insertNew key (.value (.integer z)) g.current <;> rfl
  rw [hgrown]
  cases h with
  | @root current hplain =>
      change Option.Rel Drafts _ ((Table.give key _ (finishEntries current)).map (⟨·, none⟩))
      rw [give_finishEntries, Entries.insertNew]
      cases current.lookup key with
      | none => exact .some (.root (hplain.concat (.inl ⟨z, rfl⟩)))
      | some node => exact .none
  | @element root current array elements hplain hlookup =>
      have hopen : (finishEntries (root.replace array (.tables (elements ++ [current])))).lookup
          array = some (.array (finishTables elements ++ [.table (finishEntries current)])) := by
        rw [Entries.lookup_finishEntries, Entries.lookup_replace hlookup, Option.map_some,
          Entries.toValue_tables_concat]
      have hgiven : Draft.give ⟨finishEntries (root.replace array (.tables (elements ++ [current]))),
          some array⟩ key (.integer z)
          = (Entries.insertNew key (.value (.integer z)) current).map fun out =>
            ⟨finishEntries (root.replace array (.tables (elements ++ [out.2]))), some array⟩ := by
        simp only [Draft.give, hopen, List.getLast?_concat, List.dropLast_concat,
          give_finishEntries, Option.map_map]
        refine congrArg (Option.map · _) (funext fun out => ?_)
        rw [Function.comp_apply, ← Entries.toValue_tables_concat, ← Entries.finishEntries_replace,
          Entries.replace_replace]
      rw [hgiven]
      cases Entries.insertNew key (.value (.integer z)) current with
      | none => exact .none
      | some out => exact .some (.element hplain hlookup)

/-- A line does to a growing document what it does to its draft. -/
theorem step (h : Drafts g d) (line : Line) :
    Option.Rel Drafts (g.addLine line) (d.add line) := by
  cases line with
  | blank text hblank => exact .some h
  | header key =>
      have hadd : g.addLine (.header key) = g.openElement [] key.name := Option.bind_fun_some _
      rw [hadd]
      exact h.openElement key.name
  | pair key n =>
      by_cases hn : n < 2 ^ 63
      · have hadd : g.addLine (.pair key n) = g.assign [] key.name (.integer n) := by
          rw [Growth.addLine, Line.statements?, integer?_eq_some hn]
          exact Option.bind_fun_some _
        rw [hadd, Draft.add, if_pos hn]
        exact h.assign key.name n
      · have hadd : g.addLine (.pair key n) = none := by
          rw [Growth.addLine, Line.statements?, integer?_eq_none (Nat.le_of_not_lt hn)]
          rfl
        rw [hadd, Draft.add, if_neg hn]
        exact .none

/-- So do all lines of a file. -/
theorem run : ∀ (lines : List Line) {g : Growth} {d : Draft}, Drafts g d →
    Option.Rel Drafts (lines.foldlM Growth.addLine g) (lines.foldlM Draft.add d)
  | [], _, _, h => .some h
  | line :: lines, g, d, h => by
      have hstep := h.step line
      rw [List.foldlM_cons, List.foldlM_cons]
      generalize g.addLine line = grown at hstep ⊢
      generalize d.add line = given at hstep ⊢
      cases hstep with
      | none => exact .none
      | some hnext => exact run lines hnext

end Drafts

/-- The parser of the program finds in files of plain lines what it should. -/
theorem conforms_library : library.Conforms := fun lines => by
  change parse (plainFile lines) = plainDocument lines
  rw [parse_plainFile, plainDocument]
  have hstart : Drafts {} {} := .root nofun
  have hrun := hstart.run lines
  generalize lines.foldlM Growth.addLine {} = grown at hrun ⊢
  generalize lines.foldlM Draft.add {} = given at hrun ⊢
  cases hrun with
  | none => rfl
  | some h =>
      obtain ⟨closed, hclose, -, hdocument⟩ := h.close
      rw [Option.bind_some, hclose, Option.map_some, Option.map_some, hdocument]

end Toml

end HeapChurn
