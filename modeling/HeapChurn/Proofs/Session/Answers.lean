import HeapChurn.Proofs.Prompt.Lines
import HeapChurn.Session
import Mathlib.Data.List.Basic

/-!
# Answers and the questions they belong to

A session asks for the values that its command line does not give, in a fixed order and with one line
of answers for each. So the line of a value is the number of values before it that are not given,
whatever these lines say. `settled_run` follows an interview from question to question: either every
value is settled in this way, or the first line that is no text ends the interview.
-/

namespace HeapChurn

/-- A step that may fail goes on with its value and with what it has changed. -/
theorem run_bind_of_state {ε σ α β : Type} (x : ExceptT ε (StateM σ) α)
    (next : α → ExceptT ε (StateM σ) β) (s : σ) : (x >>= next).run s
      = match x.run s with
        | (.error e, s) => (.error e, s)
        | (.ok v, s) => (next v).run s := by
  rw [ExceptT.run_bind]
  simp only [bind, StateT.bind]
  generalize x.run s = out
  obtain ⟨result, s⟩ := out
  cases result with
  | error e => rfl
  | ok v => rfl

theorem run_map_of_state {ε σ α β : Type} (f : α → β) (x : ExceptT ε (StateM σ) α) (s : σ) :
    (f <$> x).run s = ((x.run s).1.map f, (x.run s).2) := by
  rw [← bind_pure_comp, run_bind_of_state]
  generalize x.run s = out
  obtain ⟨result, s⟩ := out
  cases result with
  | error e => rfl
  | ok v => rfl

/-- A value of the configuration as a command line leaves it: given, or to be asked for. -/
structure Item where
  given : Option Nat
  question : Question

namespace Item

/-- The questions that are asked, in their order. -/
def asked (items : List Item) : List Question :=
  (items.filter (·.given.isNone)).map (·.question)

/-- Settles one value after the other. -/
def settleAll : List Item → Conversation (List Nat)
  | [] => return []
  | item :: items => do
    let value ← Conversation.ask item.given item.question
    let values ← settleAll items
    return value :: values

/-- What the questions show of themselves. -/
def shown (echo : Bool) (questions : List Question) : List UInt8 :=
  questions.flatMap (·.shown echo)

variable {item : Item} {items : List Item} {lines : List (List UInt8)} {values : List Nat}

theorem asked_given (items : List Item) {v : Nat} (h : item.given = some v) :
    asked (item :: items) = asked items := by
  rw [asked, List.filter_cons_of_neg]
  · rfl
  · simp [h]

theorem asked_none (items : List Item) (h : item.given = none) :
    asked (item :: items) = item.question :: asked items := by
  rw [asked, List.filter_cons_of_pos]
  · rfl
  · simp [h]

/-- The values are those that are given and those that the lines say, line after line. -/
inductive Answered : List Item → List (List UInt8) → List Nat → Prop
  | nil {lines : List (List UInt8)} : Answered [] lines []
  | given {item : Item} {items : List Item} {lines : List (List UInt8)} {v : Nat}
      {values : List Nat} (hgiven : item.given = some v) (h : Answered items lines values) :
      Answered (item :: items) lines (v :: values)
  | asked {item : Item} {items : List Item} {lines : List (List UInt8)} {v : Nat}
      {values : List Nat} (hnone : item.given = none) (hv : item.question.Takes lines.head? v)
      (h : Answered items lines.tail values) : Answered (item :: items) lines (v :: values)

/-- The value that stands in this place: given, or what its line says. -/
def TakesAt (items : List Item) (lines : List (List UInt8)) (i : Nat) (item : Item) (v : Nat) :
    Prop :=
  match item.given with
  | some given => v = given
  | none => item.question.Takes lines[(asked (items.take i)).length]? v

/-- The line of a value is the number of questions before it. -/
theorem Answered.takesAt (h : Answered items lines values) : ∀ {i : Nat} {item : Item},
    items[i]? = some item → ∃ v, values[i]? = some v ∧ TakesAt items lines i item v := by
  induction h with
  | nil => intro i item hi; cases hi
  | @given first items lines v values hgiven h ih =>
      intro i item hi
      cases i with
      | zero =>
          obtain rfl := Option.some.inj hi
          refine ⟨v, rfl, ?_⟩
          rw [TakesAt, hgiven]
      | succ i =>
          obtain ⟨w, hw, htakes⟩ := ih hi
          refine ⟨w, hw, ?_⟩
          rw [TakesAt] at htakes ⊢
          rw [List.take_succ_cons, asked_given _ hgiven]
          exact htakes
  | @asked first items lines v values hnone hv h ih =>
      intro i item hi
      cases i with
      | zero =>
          obtain rfl := Option.some.inj hi
          refine ⟨v, rfl, ?_⟩
          rw [TakesAt, hnone]
          rw [List.head?_eq_getElem?] at hv
          exact hv
      | succ i =>
          obtain ⟨w, hw, htakes⟩ := ih hi
          refine ⟨w, hw, ?_⟩
          rw [TakesAt] at htakes ⊢
          rw [List.take_succ_cons, asked_none _ hnone, List.length_cons]
          rw [List.getElem?_tail] at htakes
          exact htakes

theorem Answered.length_eq (h : Answered items lines values) : values.length = items.length := by
  induction h with
  | nil => rfl
  | given hgiven h ih => exact congrArg (· + 1) ih
  | asked hnone hv h ih => exact congrArg (· + 1) ih

/-- The first of the lines that is no text. -/
structure BrokenAt (lines : List (List UInt8)) (j : Nat) : Prop where
  broken : ∃ line, lines[j]? = some line ∧ Utf8.decode? line = none
  before : ∀ i < j, ∀ line, lines[i]? = some line → (Utf8.decode? line).isSome

theorem BrokenAt.succ {j : Nat} (h : BrokenAt lines.tail j)
    (hfirst : ∀ line, lines.head? = some line → (Utf8.decode? line).isSome) :
    BrokenAt lines (j + 1) := by
  refine ⟨?_, fun i hi line hline => ?_⟩
  · obtain ⟨line, hline, hnone⟩ := h.broken
    rw [List.getElem?_tail] at hline
    exact ⟨line, hline, hnone⟩
  · cases i with
    | zero =>
        rw [← List.head?_eq_getElem?] at hline
        exact hfirst line hline
    | succ i =>
        rw [← List.getElem?_tail] at hline
        exact h.before i (by omega) line hline

/-- How an interview ends that stood in front of these lines and had shown so much. -/
inductive Settled (items : List Item) (lines : List (List UInt8)) (past : List UInt8)
    (echo : Bool) : Except IoError (List Nat) × Prompter → Prop
  | answered {values : List Nat} {p : Prompter} (h : Answered items lines values)
      (htext : ∀ j < (asked items).length, ∀ line, lines[j]? = some line →
        (Utf8.decode? line).isSome)
      (hwritten : p.sink.written = past ++ shown echo (asked items)) :
      Settled items lines past echo (.ok values, p)
  | broken {j : Nat} {p : Prompter} (hj : j < (asked items).length) (h : BrokenAt lines j)
      (hwritten : p.sink.written = past ++ shown echo ((asked items).take (j + 1))) :
      Settled items lines past echo (.error .invalidUtf8, p)

section Step

variable {past : List UInt8} {echo : Bool} {out : Except IoError (List Nat) × Prompter} {v : Nat}

/-- A value that is given takes no line. -/
theorem Settled.given (h : Settled items lines past echo out) (hgiven : item.given = some v) :
    Settled (item :: items) lines past echo (out.1.map (v :: ·), out.2) := by
  cases h with
  | answered hanswered htext hwritten =>
      rw [← asked_given items hgiven] at htext hwritten
      exact .answered (.given hgiven hanswered) htext hwritten
  | broken hj hbroken hwritten =>
      rw [← asked_given items hgiven] at hj hwritten
      exact .broken hj hbroken hwritten

theorem shown_cons (q : Question) (questions : List Question) :
    past ++ shown echo (q :: questions) = past ++ q.shown echo ++ shown echo questions := by
  rw [shown, List.flatMap_cons, ← List.append_assoc]
  rfl

/-- A value that is asked for takes the first line, and the others are left to the rest. -/
theorem Settled.asked (h : Settled items lines.tail (past ++ item.question.shown echo) echo out)
    (hnone : item.given = none)
    (hfirst : ∀ line, lines.head? = some line → (Utf8.decode? line).isSome)
    (hv : item.question.Takes lines.head? v) :
    Settled (item :: items) lines past echo (out.1.map (v :: ·), out.2) := by
  cases h with
  | answered hanswered htext hwritten =>
      rw [← shown_cons, ← asked_none _ hnone] at hwritten
      refine .answered (.asked hnone hv hanswered) (fun j hj line hline => ?_) hwritten
      cases j with
      | zero =>
          rw [← List.head?_eq_getElem?] at hline
          exact hfirst line hline
      | succ j =>
          rw [asked_none _ hnone, List.length_cons] at hj
          rw [← List.getElem?_tail] at hline
          exact htext j (by omega) line hline
  | broken hj hbroken hwritten =>
      rw [← shown_cons, ← List.take_succ_cons, ← asked_none _ hnone] at hwritten
      refine .broken ?_ (hbroken.succ hfirst) hwritten
      rw [asked_none _ hnone, List.length_cons]
      omega

/-- A line that is no text ends the interview. -/
theorem Settled.broken_first {p : Prompter} {line : List UInt8} (hnone : item.given = none)
    (hline : lines.head? = some line) (hbroken : Utf8.decode? line = none)
    (hwritten : p.sink.written = past ++ item.question.shown echo) :
    Settled (item :: items) lines past echo (.error .invalidUtf8, p) := by
  rw [List.head?_eq_getElem?] at hline
  refine .broken (j := 0) ?_ ⟨⟨line, hline, hbroken⟩, nofun⟩ ?_
  · rw [asked_none _ hnone]
    exact Nat.zero_lt_succ _
  · rw [asked_none _ hnone, List.take_succ_cons, shown_cons, hwritten]
    exact (List.append_nil _).symm

end Step

section Endings

variable {past : List UInt8} {echo : Bool} {out : Except IoError (List Nat) × Prompter}
  (h : Settled items lines past echo out)

include h

/-- Where all lines that are reached are text, every value is settled. -/
theorem Settled.of_text (htext : ∀ j < (Item.asked items).length, ∀ line, lines[j]? = some line →
    (Utf8.decode? line).isSome) : ∃ values p, out = (.ok values, p) ∧ Answered items lines values
      ∧ p.sink.written = past ++ shown echo (Item.asked items) := by
  cases h with
  | answered hanswered _ hwritten => exact ⟨_, _, rfl, hanswered, hwritten⟩
  | broken hj hbroken hwritten =>
      obtain ⟨line, hline, hnone⟩ := hbroken.broken
      have hsome := htext _ hj line hline
      rw [hnone] at hsome
      cases hsome

/-- Where a line that is reached is no text, the first such line ends the interview. -/
theorem Settled.of_not_text {j : Nat} (hj : j < (Item.asked items).length) {line : List UInt8}
    (hline : lines[j]? = some line) (hnone : Utf8.decode? line = none) :
    ∃ k ≤ j, ∃ p, out = (.error .invalidUtf8, p) ∧ BrokenAt lines k
      ∧ p.sink.written = past ++ shown echo ((Item.asked items).take (k + 1)) := by
  cases h with
  | answered _ htext _ =>
      have hsome := htext j hj line hline
      rw [hnone] at hsome
      cases hsome
  | @broken k p hk hbroken hwritten =>
      refine ⟨k, ?_, p, rfl, hbroken, hwritten⟩
      rcases Nat.lt_or_ge j k with hlt | hle
      · have hsome := hbroken.before j hlt line hline
        rw [hnone] at hsome
        cases hsome
      · exact hle

end Endings

theorem run_settleAll_cons (p : Prompter) :
    (settleAll (item :: items)).run p
      = match p.askUnless item.given item.question with
        | (.error e, p) => (.error e, p)
        | (.ok v, p) =>
          (((settleAll items).run p).1.map (v :: ·), ((settleAll items).run p).2) := by
  rw [settleAll, run_bind_of_state]
  rw [show (Conversation.ask item.given item.question).run p
    = p.askUnless item.given item.question from rfl]
  generalize p.askUnless item.given item.question = asked
  obtain ⟨answer, next⟩ := asked
  cases answer with
  | error e => rfl
  | ok v =>
      show (settleAll items >>= fun values => pure (v :: values)).run next = _
      rw [bind_pure_comp, run_map_of_state]

/-- Each interview ends in one of these ways. -/
theorem settled_run : ∀ (items : List Item) {lines : List (List UInt8)} {past : List UInt8}
    {p : Prompter}, p.Stands lines past →
    Settled items lines past p.echo ((settleAll items).run p)
  | [], lines, past, p, h => by
      refine .answered .nil nofun ?_
      rw [h.sink]
      exact (List.append_nil past).symm
  | item :: items, lines, past, p, h => by
      rw [run_settleAll_cons]
      cases hgiven : item.given with
      | some v => exact (settled_run items h).given hgiven
      | none =>
          obtain ⟨hanswer, hstands, hecho⟩ := h.ask item.question
          rw [Prompter.askUnless]
          generalize p.ask item.question = asked at hanswer hstands hecho
          obtain ⟨answer, next⟩ := asked
          have hrest := settled_run items hstands
          rw [show next.echo = p.echo from hecho] at hrest
          by_cases hfirst : ∀ line, lines.head? = some line → (Utf8.decode? line).isSome
          · obtain ⟨n, hn, htakes⟩ := Question.takes_heard (q := item.question) hfirst
            obtain rfl : answer = .ok n := hanswer.trans hn
            exact hrest.asked hgiven hfirst htakes
          · simp only [Classical.not_forall] at hfirst
            obtain ⟨line, hline, hbroken⟩ := hfirst
            rw [Option.not_isSome_iff_eq_none] at hbroken
            rw [hline, Question.heard_of_not_text hbroken] at hanswer
            obtain rfl : answer = .error .invalidUtf8 := hanswer
            exact .broken_first hgiven hline hbroken (congrArg Sink.written hstands.sink)

end Item

/-- The values that a command line may give or leave to be asked for. -/
def Config.values (c : Config) : List Nat :=
  [c.heapSlots, c.iterations, c.workers, c.foreignAllocs]

namespace Options

/-- The values of the configuration in the order of their questions. -/
def items (o : Options) (d : Defaults) (processors : Nat) : List Item :=
  [⟨o.heapSlots, ⟨"heap size (# of blocks)", d.heapSlots⟩⟩,
    ⟨o.iterations, ⟨"iterations", d.iterations⟩⟩,
    ⟨o.threadCount, ⟨"threads", o.usualThreads d processors⟩⟩,
    ⟨o.foreignAllocs, ⟨"allocs freed from non-allocating thread", d.foreignAllocs⟩⟩]

/-- The configuration with these values. -/
def withValues (o : Options) (values : List Nat) : Config where
  heapSlots := values.getD 0 0
  iterations := values.getD 1 0
  workers := values.getD 2 0
  foreignAllocs := values.getD 3 0
  foreignBurst := o.foreignBurst

theorem values_withValues (o : Options) {values : List Nat} (h : values.length = 4) :
    (o.withValues values).values = values := by
  match values, h with
  | [_, _, _, _], _ => rfl

/-- An interview settles the values one after the other. -/
theorem interview_eq (o : Options) (d : Defaults) (processors : Nat) :
    o.interview d processors = o.withValues <$> Item.settleAll (o.items d processors) := by
  simp [interview, items, Item.settleAll, withValues]

end Options

namespace Session

variable {o : Options} {path : String} {content : List UInt8} {d : Desk} {e : Edition}
  {processors : Nat} {times : Report.TimeFormat} {typed : Option (List UInt8)}
  {capacity : AllocatorKind → Nat}

/-- With a file of answers a session settles its configuration by an interview, and prints what the
interview has shown. -/
theorem run_settleConfig (hinput : o.input = some path)
    (hopen : d.openAnswers path = .ok (.bytes content)) :
    (settleConfig (Desk.host processors times typed capacity) e o).run d
      = let out := (Item.settleAll (o.items e.defaults processors)).run
          { source := .bytes content, sink := {}, echo := !o.quiet }
        ((out.1.map o.withValues).mapError fun cause => .failure (.readAnswers cause),
          { d with printed := d.printed ++ out.2.sink.written }) := by
  unfold settleConfig answers?
  rw [hinput]
  have hopened : (attempt (.openAnswers path)
      ((Desk.host processors times typed capacity).openAnswers path)).run d
        = (.ok (.bytes content), d) := by
    show (Except.mapError _ (d.openAnswers path), d) = _
    rw [hopen]
    rfl
  simp only [run_bind_of_state, hopened, o.interview_eq]
  simp only [run_map_of_state]
  generalize hout : (Item.settleAll _).run _ = out
  rw [show (Desk.host processors times typed capacity).processors = processors from rfl] at hout
  rw [hout]
  obtain ⟨answers, p⟩ := out
  cases answers with
  | error cause => rfl
  | ok values => rfl

/-- Answers stay with their questions. A value that is given is kept. Any other takes the line whose
number is the number of the values before it that are not given, or keeps its default where this line
gives no word or there is none. The questions are shown in their order. A line that is no text ends
all of it if it is reached, and then the questions up to it were shown. -/
theorem answers_aligned (hinput : o.input = some path)
    (hopen : d.openAnswers path = .ok (.bytes content)) :
    let items := o.items e.defaults processors
    let lines := Source.lines content
    let asked := Item.asked items
    let out := (settleConfig (Desk.host processors times typed capacity) e o).run d
    ((∀ j < asked.length, ∀ line, lines[j]? = some line → (Utf8.decode? line).isSome) →
        ∃ c, out.1 = .ok c ∧ c.foreignBurst = o.foreignBurst
          ∧ (∀ i item, items[i]? = some item →
            ∃ v, c.values[i]? = some v ∧ Item.TakesAt items lines i item v)
          ∧ out.2 = { d with printed := d.printed ++ Item.shown (!o.quiet) asked })
      ∧ ∀ j < asked.length, ∀ line, lines[j]? = some line → Utf8.decode? line = none →
        out.1 = .error (.failure (.readAnswers .invalidUtf8))
          ∧ ∃ k ≤ j, Item.BrokenAt lines k
            ∧ out.2 = { d with printed := d.printed ++ Item.shown (!o.quiet) (asked.take (k + 1)) } := by
  intro items lines asked out
  have hout : out = _ := run_settleConfig hinput hopen
  have hstands : Prompter.Stands lines [] { source := .bytes content, sink := {}, echo := !o.quiet } :=
    ⟨⟨content, rfl, rfl⟩, rfl⟩
  have hsettled := Item.settled_run items hstands
  rw [hout]
  generalize (Item.settleAll items).run _ = settled at hsettled ⊢
  constructor
  · intro htext
    obtain ⟨values, p, rfl, hanswered, hwritten⟩ := hsettled.of_text htext
    refine ⟨o.withValues values, rfl, rfl, ?_, ?_⟩
    · intro i item hi
      obtain ⟨v, hv, htakes⟩ := hanswered.takesAt hi
      rw [o.values_withValues hanswered.length_eq]
      exact ⟨v, hv, htakes⟩
    · exact congrArg (fun bytes => { d with printed := d.printed ++ bytes }) hwritten
  · intro j hj line hline hnone
    obtain ⟨k, hk, p, rfl, hbroken, hwritten⟩ := hsettled.of_not_text hj hline hnone
    refine ⟨rfl, k, hk, hbroken, ?_⟩
    exact congrArg (fun bytes => { d with printed := d.printed ++ bytes }) hwritten

/-- A desk with a file of two answers, a number and something else. -/
def answeredDesk : Desk := { folder := { files := [(["a"], Utf8.encode "100\nlots\n")] } }

theorem openAnswers_answeredDesk :
    answeredDesk.openAnswers "a" = .ok (.bytes (Utf8.encode "100\nlots\n")) := by
  -- splitting a text recurses on the bytes left of it, so it is unfolded step by step
  have hnames : Folder.names "a" = ["a"] := by
    rw [Folder.names, String.splitOn, if_neg (by decide), String.splitOnAux, if_neg (by decide),
      if_neg (by decide), String.splitOnAux, if_pos (by decide)]
    decide +kernel
  unfold Desk.openAnswers Folder.read Folder.resolve
  rw [hnames]
  decide +kernel

/-- A benchmark that gives the iterations: the second line goes to the threads, of which there are as
many as processors, since it is no number. -/
theorem answers_aligned_two_lines :
    let o : Options := { iterations := some 9, bench := true, input := some "a" }
    let asked := Item.asked (o.items .standard 4)
    let out := (settleConfig (Desk.host 4 Report.timeFormat) {} o).run answeredDesk
    asked.map (·.label) = ["heap size (# of blocks)", "threads",
        "allocs freed from non-allocating thread"]
      ∧ ∃ c, out.1 = .ok c ∧ c.values = [100, 9, 4, 10000000]
        ∧ (Question.mk "threads" 4).Takes (some (Utf8.encode "lots\n")) 4
        ∧ out.2 = { answeredDesk with printed := Item.shown true asked } := by
  intro o asked out
  have haligned := @answers_aligned o "a" (Utf8.encode "100\nlots\n") answeredDesk {} 4
    Report.timeFormat none Desk.capacity rfl openAnswers_answeredDesk
  obtain ⟨c, hc, hburst, hvalues, hprinted⟩ := haligned.1 (by decide +kernel)
  have hsettled : out.1 = .ok ⟨100, 9, 4, 10000000, none⟩ := by
    have hrun : out = _ := run_settleConfig rfl openAnswers_answeredDesk
    rw [hrun]
    decide +kernel
  obtain rfl : c = ⟨100, 9, 4, 10000000, none⟩ := Except.ok.inj (hc.symm.trans hsettled)
  obtain ⟨v, hv, htakes⟩ := hvalues 2 ⟨none, ⟨"threads", 4⟩⟩ rfl
  obtain rfl : 4 = v := Option.some.inj hv
  exact ⟨by decide +kernel, _, hc, rfl, htakes, hprinted⟩

end Session

end HeapChurn
