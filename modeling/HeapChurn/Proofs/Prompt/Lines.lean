import HeapChurn.Prompt
import HeapChurn.Proofs.Numeral.Reading

/-!
# Lines and answers

A source of bytes is a row of lines, and a question uses up one of them whatever it says (`Stands.ask`).
What the line means does not depend on the lines around it: it gives a number or the default stays
(`Question.Takes`), and where it is no text the question fails.
-/

namespace HeapChurn

namespace Source

/-- The lines of some bytes, each with the newline that ends it. The last one may lack it. -/
def lines : List UInt8 → List (List UInt8)
  | [] => []
  | byte :: rest =>
    if byte = 10 then [byte] :: lines rest
    else
      match lines rest with
      | [] => [[byte]]
      | line :: later => (byte :: line) :: later

/-- To split off the first line leaves the others. -/
theorem lines_eq_cons : ∀ {content : List UInt8}, content ≠ [] →
    lines content = (splitLine content).1 :: lines (splitLine content).2
  | [], h => absurd rfl h
  | byte :: rest, _ => by
      rw [lines, splitLine]
      by_cases hbyte : byte = 10
      · rw [if_pos hbyte, if_pos hbyte]
      · rw [if_neg hbyte, if_neg hbyte]
        cases rest with
        | nil => rfl
        | cons next rest => rw [lines_eq_cons (List.cons_ne_nil next rest)]

/-- What is heard of a line; `none` if there are no more lines. -/
def heard : Option (List UInt8) → Except IoError (Option String)
  | none => .ok none
  | some line =>
    match Utf8.decode? line with
    | some text => .ok (some text)
    | none => .error .invalidUtf8

/-- A line that is read is gone, also if it is no text. -/
theorem readLine_bytes (content : List UInt8) : ∃ rest, lines rest = (lines content).tail
    ∧ (bytes content).readLine = (heard (lines content).head?, bytes rest) := by
  cases content with
  | nil => exact ⟨[], rfl, rfl⟩
  | cons byte content =>
      rw [lines_eq_cons (List.cons_ne_nil byte content)]
      refine ⟨(splitLine (byte :: content)).2, rfl, ?_⟩
      simp only [readLine, List.head?_cons, heard]
      cases Utf8.decode? (splitLine (byte :: content)).1 <;> rfl

end Source

/-- The line gives a number: it is text, and without the blanks at its ends the text denotes the
number, which is a word. -/
def Gives (line : List UInt8) (n : Nat) : Prop :=
  ∃ text, Utf8.decode? line = some text ∧ Numeral.Denotes (Blank.trim text.toList) n
    ∧ n < Word.modulus

namespace Question

variable {q : Question}

/-- What becomes of a question to which this line is the answer; `none` if there are no more lines. -/
inductive Takes (q : Question) : Option (List UInt8) → Nat → Prop
  | given {line : List UInt8} {n : Nat} (h : Gives line n) : Takes q (some line) n
  | kept {line? : Option (List UInt8)} (h : ∀ line n, line? = some line → ¬Gives line n) :
      Takes q line? q.default

theorem gives_iff {line : List UInt8} {text : String} (h : Utf8.decode? line = some text) {n : Nat} :
    Gives line n ↔ Numeral.readWord (Blank.trim text.toList) = .ok n := by
  rw [Numeral.readWord_eq_ok_iff]
  constructor
  · rintro ⟨text', htext', hgives⟩
    obtain rfl := Option.some.inj (h.symm.trans htext')
    exact hgives
  · intro hgives
    exact ⟨text, h, hgives⟩

theorem takes_answer {line : List UInt8} {text : String} (h : Utf8.decode? line = some text) :
    q.Takes (some line) (q.answer (some text)) := by
  cases hread : Numeral.readWord (Blank.trim text.toList) with
  | ok n =>
      have hanswer : q.answer (some text) = n := by
        rw [answer, hread]
        rfl
      rw [hanswer]
      exact .given ((gives_iff h).mpr hread)
  | error fault =>
      have hanswer : q.answer (some text) = q.default := by
        rw [answer, hread]
        rfl
      rw [hanswer]
      refine .kept fun line' n hline hgives => ?_
      obtain rfl := Option.some.inj hline
      rw [(gives_iff h).mp hgives] at hread
      cases hread

/-- An answer that is heard is taken for what its line says. -/
theorem takes_heard {line? : Option (List UInt8)}
    (h : ∀ line, line? = some line → (Utf8.decode? line).isSome) :
    ∃ n, q.answer <$> Source.heard line? = .ok n ∧ q.Takes line? n := by
  cases line? with
  | none => exact ⟨q.default, rfl, .kept fun _ _ hline => by cases hline⟩
  | some line =>
      obtain ⟨text, htext⟩ := Option.isSome_iff_exists.mp (h line rfl)
      refine ⟨q.answer (some text), ?_, takes_answer htext⟩
      rw [Source.heard, htext]
      rfl

theorem heard_of_not_text {line : List UInt8} (h : Utf8.decode? line = none) :
    q.answer <$> Source.heard (some line) = .error .invalidUtf8 := by
  rw [Source.heard, h]
  rfl

/-- What a question shows of itself. -/
def shown (q : Question) (echo : Bool) : List UInt8 := if echo then Utf8.encode q.prompt else []

end Question

namespace Prompter

variable {p : Prompter} {q : Question}

/-- A question that is shown uses up one line. -/
theorem ask_of_shown {content : List UInt8} (hcontent : p.source = .bytes content)
    (hshown : (p.display q).1 = .ok ()) : ∃ rest,
      Source.lines rest = (Source.lines content).tail
        ∧ p.ask q = (q.answer <$> Source.heard (Source.lines content).head?,
          ⟨.bytes rest, (p.display q).2, p.echo⟩) := by
  obtain ⟨rest, hrest, hread⟩ := Source.readLine_bytes content
  refine ⟨rest, hrest, ?_⟩
  unfold ask
  generalize p.display q = displayed at hshown ⊢
  obtain ⟨result, sink⟩ := displayed
  obtain rfl : result = .ok () := hshown
  simp only [hcontent, hread]

/-- A question that cannot be shown uses up none. -/
theorem ask_of_not_shown {e : IoError} (hshown : (p.display q).1 = .error e) :
    p.ask q = (.error e, { p with sink := (p.display q).2 }) := by
  unfold ask
  generalize p.display q = displayed at hshown ⊢
  obtain ⟨result, sink⟩ := displayed
  obtain rfl : result = .error e := hshown
  rfl

/-- A conversation with these lines to come, in which so much was shown. Its output never fills up,
and nothing goes wrong with it. -/
structure Stands (lines : List (List UInt8)) (shown : List UInt8) (p : Prompter) : Prop where
  source : ∃ rest, p.source = .bytes rest ∧ Source.lines rest = lines
  sink : p.sink = { written := shown }

variable {lines : List (List UInt8)} {shown : List UInt8}

theorem Stands.display_eq (h : p.Stands lines shown) (q : Question) :
    p.display q = (.ok (), { written := shown ++ q.shown p.echo }) := by
  unfold display
  rw [h.sink]
  cases p.echo with
  | false => rw [show q.shown false = [] from rfl, List.append_nil]; rfl
  | true => rfl

/-- A question is shown and uses up one line. -/
theorem Stands.ask (h : p.Stands lines shown) (q : Question) :
    (p.ask q).1 = q.answer <$> Source.heard lines.head?
      ∧ (p.ask q).2.Stands lines.tail (shown ++ q.shown p.echo) ∧ (p.ask q).2.echo = p.echo := by
  obtain ⟨content, hcontent, rfl⟩ := h.source
  have hdisplay := h.display_eq q
  obtain ⟨rest, hrest, hask⟩ := ask_of_shown hcontent (congrArg Prod.fst hdisplay)
  rw [hask, hdisplay]
  exact ⟨rfl, ⟨⟨rest, rfl, hrest⟩, rfl⟩, rfl⟩

end Prompter

end HeapChurn
