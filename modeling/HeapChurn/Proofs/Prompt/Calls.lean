import HeapChurn.Proofs.Prompt.Lines
import Mathlib.Data.List.Induction

/-!
# Calls on a conversation

A call that asks takes a line if its question can be shown, and it is the line whose number is the
number of questions that were shown before. A question that cannot be shown takes none, whether there
was no room for it or something went wrong with that one. A call that is given its value takes no line
and shows nothing (`calls_take_lines`).

Where nothing goes wrong with the output but that it may fill up, what was shown is the questions in a
row, as far as there was room for them (`Past`). Without room there is no more of it later, so the
questions that are shown are the first ones.
-/

namespace HeapChurn

namespace Utf8

theorem encode_append (s t : String) : encode (s ++ t) = encode s ++ encode t := by
  simp [encode]

end Utf8

/-! ## Room -/

namespace Sink

/-- The sink after some bytes, of which it has taken as many as fit. -/
def after (s : Sink) (bytes : List UInt8) : Sink :=
  { s with
    written := s.written ++ s.room.elim bytes bytes.take
    room := s.room.map (· - bytes.length) }

/-- There is room for all of the bytes. -/
def Holds (s : Sink) (bytes : List UInt8) : Prop :=
  ∀ room, s.room = some room → bytes.length ≤ room

variable {s : Sink} {bytes past : List UInt8}

theorem after_nil (s : Sink) : s.after [] = s := by
  obtain ⟨written, room, hitches⟩ := s
  cases room <;> simp [after]

/-- Bytes that come one after the other leave what they leave together. -/
theorem after_after (s : Sink) (xs ys : List UInt8) :
    (s.after xs).after ys = s.after (xs ++ ys) := by
  obtain ⟨written, room, hitches⟩ := s
  cases room with
  | none => simp [after]
  | some room => simp [after, List.take_append, Nat.sub_sub]

theorem put_of_holds (h : s.Holds bytes) : s.put bytes = (.ok (), s.after bytes) := by
  obtain ⟨written, room, hitches⟩ := s
  cases room with
  | none => rfl
  | some room =>
      have hfits : bytes.length ≤ room := h room rfl
      simp [put, after, List.take_of_length_le hfits]

theorem put_of_not_holds (h : ¬s.Holds bytes) :
    s.put bytes = (.error .writeRefused, s.after bytes) := by
  obtain ⟨written, room, hitches⟩ := s
  cases room with
  | none => exact absurd nofun h
  | some room =>
      have hroom : room < bytes.length := by
        refine Nat.lt_of_not_le fun hle => h fun other hother => ?_
        obtain rfl := Option.some.inj hother
        exact hle
      have hrest : room - min room bytes.length = room - bytes.length := by omega
      simp only [put, List.length_take, Nat.min_eq_left (Nat.le_of_lt hroom), if_pos hroom]
      simp [after, Nat.sub_eq_zero_of_le (Nat.le_of_lt hroom)]

/-- Where nothing else goes wrong, a write depends on the room alone. -/
theorem write_of_no_hitches (h : s.hitches = []) (text : String) :
    s.write text = s.put (Utf8.encode text) := by
  obtain ⟨written, room, hitches⟩ := s
  obtain rfl : hitches = [] := h
  rfl

theorem flush_of_no_hitches (h : s.hitches = []) : s.flush = (.ok (), s) := by
  obtain ⟨written, room, hitches⟩ := s
  obtain rfl : hitches = [] := h
  rfl

/-- Bytes have room after others if they have room together with them. Only for no bytes at all there
may be room where there was none for others. -/
theorem holds_after_iff (h : bytes = [] → past = []) :
    (s.after past).Holds bytes ↔ s.Holds (past ++ bytes) := by
  obtain ⟨written, room, hitches⟩ := s
  cases room with
  | none => exact ⟨fun _ => nofun, fun _ => nofun⟩
  | some room =>
      have hpast : bytes.length = 0 → past.length = 0 := fun hzero => by
        rw [h (List.length_eq_zero_iff.mp hzero), List.length_nil]
      simp only [Holds, after, Option.map_some, Option.some.injEq, forall_eq', List.length_append]
      omega

theorem Holds.of_append (h : s.Holds (past ++ bytes)) : s.Holds past := fun room hroom => by
  have hlength := h room hroom
  rw [List.length_append] at hlength
  omega

end Sink

/-! ## One question -/

namespace Question

/-- What a question gets to hear from a line: what the line says to it, or that it is no text. -/
inductive Hears (q : Question) (line? : Option (List UInt8)) : Except IoError Nat → Prop
  | taken {n : Nat} (htext : ∀ line, line? = some line → (Utf8.decode? line).isSome)
      (h : q.Takes line? n) : Hears q line? (.ok n)
  | broken {line : List UInt8} (hline : line? = some line) (h : Utf8.decode? line = none) :
      Hears q line? (.error .invalidUtf8)

variable {q : Question}

theorem hears_heard (q : Question) (line? : Option (List UInt8)) :
    q.Hears line? (q.answer <$> Source.heard line?) := by
  by_cases htext : ∀ line, line? = some line → (Utf8.decode? line).isSome
  · obtain ⟨n, hanswer, htakes⟩ := takes_heard (q := q) htext
    rw [hanswer]
    exact .taken htext htakes
  · simp only [Classical.not_forall] at htext
    obtain ⟨line, rfl, hbroken⟩ := htext
    rw [Option.not_isSome_iff_eq_none] at hbroken
    rw [heard_of_not_text hbroken]
    exact .broken rfl hbroken

/-- A question that is shown shows something. -/
theorem echo_of_shown_eq_nil {echo : Bool} (h : q.shown echo = []) : echo = false := by
  cases echo with
  | false => rfl
  | true =>
      rw [shown, if_pos rfl, prompt, Utf8.encode_append, Utf8.encode_append, Utf8.encode_append,
        Utf8.encode_append] at h
      simp only [List.append_eq_nil_iff] at h
      exact absurd h.1.1.1.1 (by decide +kernel)

theorem flatMap_shown_false (questions : List Question) :
    questions.flatMap (·.shown false) = [] :=
  List.flatMap_eq_nil_iff.mpr fun _ _ => rfl

end Question

namespace Prompter

variable {p : Prompter} {q : Question}

theorem display_of_holds (hsteady : p.sink.hitches = [])
    (h : p.sink.Holds (q.shown p.echo)) :
    p.display q = (.ok (), p.sink.after (q.shown p.echo)) := by
  obtain ⟨source, sink, echo⟩ := p
  cases echo with
  | false =>
      rw [show q.shown false = [] from rfl, Sink.after_nil]
      rfl
  | true =>
      have hput : sink.put (Utf8.encode q.prompt) = _ := Sink.put_of_holds h
      simp only [display, if_true, Sink.write_of_no_hitches hsteady, hput]
      exact Sink.flush_of_no_hitches hsteady

theorem display_of_not_holds (hsteady : p.sink.hitches = [])
    (h : ¬p.sink.Holds (q.shown p.echo)) :
    p.display q = (.error .writeRefused, p.sink.after (q.shown p.echo)) := by
  obtain ⟨source, sink, echo⟩ := p
  cases echo with
  | false => exact absurd (fun _ _ => Nat.zero_le _) h
  | true =>
      have hput : sink.put (Utf8.encode q.prompt) = _ := Sink.put_of_not_holds h
      simp only [display, if_true, Sink.write_of_no_hitches hsteady, hput]
      rfl

theorem sink_ask (p : Prompter) (q : Question) : (p.ask q).2.sink = (p.display q).2 := by
  unfold ask
  split <;> rename_i h <;> rw [h]

theorem echo_ask (p : Prompter) (q : Question) : (p.ask q).2.echo = p.echo := by
  unfold ask
  split <;> rfl

/-! ## Calls in a row -/

/-- A call on a conversation. -/
inductive Call where
  | ask (q : Question)
  /-- Asks for what is not given. -/
  | askUnless (given : Option Nat) (q : Question)
  deriving Repr, DecidableEq

namespace Call

/-- The value that a call is given. -/
def given? : Call → Option Nat
  | ask _ => none
  | askUnless given _ => given

def question : Call → Question
  | ask q => q
  | askUnless _ q => q

/-- What becomes of a call. -/
def run (p : Prompter) : Call → Except IoError Nat × Prompter
  | ask q => p.ask q
  | askUnless given q => p.askUnless given q

/-- The questions that calls ask, in their order. -/
def asked (calls : List Call) : List Question :=
  (calls.filter (·.given?.isNone)).map question

variable {call : Call}

theorem run_of_given {v : Nat} (h : call.given? = some v) (p : Prompter) :
    call.run p = (.ok v, p) := by
  cases call with
  | ask q => cases h
  | askUnless given q =>
      obtain rfl : given = some v := h
      rfl

theorem run_of_none (h : call.given? = none) (p : Prompter) :
    call.run p = p.ask call.question := by
  cases call with
  | ask q => rfl
  | askUnless given q =>
      obtain rfl : given = none := h
      rfl

theorem asked_concat_of_given {v : Nat} (h : call.given? = some v) (calls : List Call) :
    asked (calls ++ [call]) = asked calls := by
  simp [asked, List.filter_append, h]

theorem asked_concat_of_none (h : call.given? = none) (calls : List Call) :
    asked (calls ++ [call]) = asked calls ++ [call.question] := by
  simp [asked, List.filter_append, h]

end Call

/-- Makes calls one after the other, whatever becomes of each. -/
def converse (p : Prompter) : List Call → List (Except IoError Nat) × Prompter
  | [] => ([], p)
  | call :: calls =>
    let (result, p) := call.run p
    let (results, p) := p.converse calls
    (result :: results, p)

theorem converse_cons (p : Prompter) (call : Call) (calls : List Call) :
    p.converse (call :: calls) = ((call.run p).1 :: ((call.run p).2.converse calls).1,
      ((call.run p).2.converse calls).2) := rfl

theorem converse_append : ∀ (p : Prompter) (xs ys : List Call), p.converse (xs ++ ys)
    = ((p.converse xs).1 ++ ((p.converse xs).2.converse ys).1, ((p.converse xs).2.converse ys).2)
  | _, [], _ => rfl
  | p, x :: xs, ys => by
      rw [List.cons_append, converse_cons, converse_cons, converse_append (x.run p).2 xs ys]
      rfl

theorem converse_concat (p : Prompter) (calls : List Call) (call : Call) :
    p.converse (calls ++ [call]) = ((p.converse calls).1 ++ [(call.run (p.converse calls).2).1],
      (call.run (p.converse calls).2).2) := by
  rw [converse_append]
  rfl

theorem length_converse : ∀ (p : Prompter) (calls : List Call),
    (p.converse calls).1.length = calls.length
  | _, [] => rfl
  | p, call :: calls => congrArg (· + 1) (length_converse (call.run p).2 calls)

theorem take_succ_of_getElem? {calls : List Call} {i : Nat} {call : Call}
    (h : calls[i]? = some call) : calls.take (i + 1) = calls.take i ++ [call] := by
  rw [List.take_add_one, h]
  rfl

/-- The result of a call is the one that it has where it is made. -/
theorem getElem?_converse {calls : List Call} {i : Nat} {call : Call} (h : calls[i]? = some call)
    (p : Prompter) :
    (p.converse calls).1[i]? = some (call.run (p.converse (calls.take i)).2).1 := by
  have hlt : i < calls.length := (List.getElem?_eq_some_iff.mp h).1
  have hlength : (p.converse (calls.take i)).1.length = i := by
    rw [length_converse, List.length_take, Nat.min_eq_left (Nat.le_of_lt hlt)]
  conv => lhs; rw [← List.take_append_drop (i + 1) calls, converse_append, take_succ_of_getElem? h,
    converse_concat]
  rw [List.append_assoc, List.getElem?_append_right (Nat.le_of_eq hlength), hlength, Nat.sub_self]
  rfl

/-! ## Lines -/

/-- The question of this call is asked and shown. -/
def Shows (p : Prompter) (call : Call) : Prop :=
  call.given? = none ∧ (p.display call.question).1 = .ok ()

instance (p : Prompter) (call : Call) : Decidable (p.Shows call) :=
  inferInstanceAs (Decidable (_ ∧ _))

theorem not_shows_of_given {call : Call} {v : Nat} (h : call.given? = some v) (p : Prompter) :
    ¬p.Shows call := fun hshows => by
  cases h.symm.trans hshows.1

/-- The questions that calls show. -/
def shows (p : Prompter) : List Call → Nat
  | [] => 0
  | call :: calls => (if p.Shows call then 1 else 0) + (call.run p).2.shows calls

theorem shows_concat (call : Call) : ∀ (p : Prompter) (calls : List Call),
    p.shows (calls ++ [call])
      = p.shows calls + if (p.converse calls).2.Shows call then 1 else 0
  | p, [] => Nat.add_comm _ _
  | p, first :: calls => by
      rw [List.cons_append, shows, shows, shows_concat call (first.run p).2 calls, Nat.add_assoc]
      rfl

/-- A call takes a line exactly if it shows a question. -/
theorem source_run {content : List UInt8} (hcontent : p.source = .bytes content) (call : Call) :
    ∃ rest, (call.run p).2.source = .bytes rest
      ∧ Source.lines rest = (Source.lines content).drop (if p.Shows call then 1 else 0) := by
  cases hgiven : call.given? with
  | some v =>
      rw [Call.run_of_given hgiven, if_neg (not_shows_of_given hgiven p)]
      exact ⟨content, hcontent, rfl⟩
  | none =>
      rw [Call.run_of_none hgiven]
      cases hshown : (p.display call.question).1 with
      | ok _ =>
          obtain ⟨rest, hrest, hask⟩ := ask_of_shown hcontent hshown
          rw [hask, if_pos ⟨hgiven, hshown⟩]
          exact ⟨rest, rfl, hrest.trans List.drop_one.symm⟩
      | error e =>
          have hshows : ¬p.Shows call := fun h => by
            cases hshown.symm.trans h.2
          rw [ask_of_not_shown hshown, if_neg hshows]
          exact ⟨content, hcontent, rfl⟩

/-- Calls take as many lines as they show questions. -/
theorem source_converse : ∀ (calls : List Call) {p : Prompter} {content : List UInt8},
    p.source = .bytes content → ∃ rest, (p.converse calls).2.source = .bytes rest
      ∧ Source.lines rest = (Source.lines content).drop (p.shows calls)
  | [], _, content, h => ⟨content, h, rfl⟩
  | call :: calls, p, _, h => by
      obtain ⟨next, hnext, hlines⟩ := source_run h call
      obtain ⟨rest, hrest, hdrop⟩ := source_converse calls hnext
      refine ⟨rest, hrest, ?_⟩
      rw [hdrop, hlines, List.drop_drop]
      rfl

/-! ## Output -/

/-- A conversation after these questions, that began with this sink. Nothing goes wrong with it but
that it may fill up. -/
structure Past (sink : Sink) (echo : Bool) (asked : List Question) (p : Prompter) : Prop where
  steady : p.sink.hitches = []
  echo_eq : p.echo = echo
  sink_eq : p.sink = sink.after (asked.flatMap (·.shown echo))

section Past

variable {sink : Sink} {echo : Bool} {asked : List Question}

theorem flatMap_shown_concat (asked : List Question) (q : Question) (echo : Bool) :
    (asked ++ [q]).flatMap (·.shown echo) = asked.flatMap (·.shown echo) ++ q.shown echo := by
  simp

/-- There is room for a question if there is room for all the questions up to it. -/
theorem Past.holds_iff (h : Past sink echo asked p) (q : Question) :
    p.sink.Holds (q.shown p.echo) ↔ sink.Holds ((asked ++ [q]).flatMap (·.shown echo)) := by
  rw [h.echo_eq, h.sink_eq, flatMap_shown_concat]
  refine Sink.holds_after_iff fun hnil => ?_
  rw [Question.echo_of_shown_eq_nil hnil]
  exact Question.flatMap_shown_false asked

theorem Past.display_of_holds (h : Past sink echo asked p)
    (hroom : sink.Holds ((asked ++ [q]).flatMap (·.shown echo))) :
    (p.display q).1 = .ok () := by
  rw [Prompter.display_of_holds h.steady ((h.holds_iff q).mpr hroom)]

theorem Past.display_of_not_holds (h : Past sink echo asked p)
    (hroom : ¬sink.Holds ((asked ++ [q]).flatMap (·.shown echo))) :
    (p.display q).1 = .error .writeRefused := by
  rw [Prompter.display_of_not_holds h.steady fun hfits => hroom ((h.holds_iff q).mp hfits)]

theorem Past.ask (h : Past sink echo asked p) (q : Question) :
    Past sink echo (asked ++ [q]) (p.ask q).2 := by
  have hsink : (p.ask q).2.sink = p.sink.after (q.shown p.echo) := by
    rw [sink_ask]
    by_cases hroom : p.sink.Holds (q.shown p.echo)
    · rw [Prompter.display_of_holds h.steady hroom]
    · rw [Prompter.display_of_not_holds h.steady hroom]
  refine ⟨?_, (echo_ask p q).trans h.echo_eq, ?_⟩
  · rw [hsink]
    exact h.steady
  · rw [hsink, flatMap_shown_concat, ← Sink.after_after, ← h.sink_eq, h.echo_eq]

theorem past_converse (hsteady : p.sink.hitches = []) (calls : List Call) :
    Past p.sink p.echo (Call.asked calls) (p.converse calls).2 := by
  -- The calls are made in order, so what the last one meets is the past of those before it.
  induction calls using List.reverseRecOn with
  | nil => exact ⟨hsteady, rfl, (Sink.after_nil p.sink).symm⟩
  | append_singleton calls call ih =>
      rw [converse_concat]
      cases hgiven : call.given? with
      | some v =>
          rw [Call.run_of_given hgiven, Call.asked_concat_of_given hgiven]
          exact ih
      | none =>
          rw [Call.run_of_none hgiven, Call.asked_concat_of_none hgiven]
          exact ih.ask call.question

/-- As long as there is room, all questions are shown. -/
theorem shows_eq_length (hsteady : p.sink.hitches = []) (calls : List Call)
    (hroom : p.sink.Holds ((Call.asked calls).flatMap (·.shown p.echo))) :
    p.shows calls = (Call.asked calls).length := by
  induction calls using List.reverseRecOn with
  | nil => rfl
  | append_singleton calls call ih =>
      have hpast := past_converse hsteady calls
      rw [shows_concat]
      cases hgiven : call.given? with
      | some v =>
          rw [Call.asked_concat_of_given hgiven] at hroom ⊢
          rw [if_neg (not_shows_of_given hgiven _), ih hroom]
          rfl
      | none =>
          rw [Call.asked_concat_of_none hgiven] at hroom ⊢
          rw [if_pos ⟨hgiven, hpast.display_of_holds hroom⟩, List.length_append]
          rw [flatMap_shown_concat] at hroom
          rw [ih hroom.of_append]
          rfl

end Past

/-- Every question that is shown takes a line of its own. A call that asks and can show its question
hears the line whose number is the number of questions shown before: the number that the line gives,
the default, or that the line is no text. If it cannot show its question, it returns what went wrong
and takes no line. A call that is given its value returns it and leaves the conversation as it is.

If nothing ever goes wrong with the output but that it fills up, it is the questions in a row, and as
long as they have room the number of the line is that of the calls before which ask. -/
theorem calls_take_lines (content : List UInt8) (sink : Sink) (echo : Bool) (calls : List Call) :
    let p : Prompter := ⟨.bytes content, sink, echo⟩
    let output := fun asked : List Question => asked.flatMap (·.shown echo)
    (p.converse calls).1.length = calls.length
      ∧ (sink.hitches = [] → (p.converse calls).2.sink = sink.after (output (Call.asked calls)))
      ∧ ∀ i call, calls[i]? = some call → ∃ result, (p.converse calls).1[i]? = some result
        ∧ (∀ v, call.given? = some v →
          result = .ok v ∧ (p.converse (calls.take (i + 1))).2 = (p.converse (calls.take i)).2)
        ∧ (call.given? = none →
          let shown := ((p.converse (calls.take i)).2.display call.question).1
          let asked := Call.asked (calls.take i)
          (shown = .ok () →
            call.question.Hears (Source.lines content)[p.shows (calls.take i)]? result)
          ∧ (∀ e, shown = .error e → result = .error e
            ∧ (p.converse (calls.take (i + 1))).2.source = (p.converse (calls.take i)).2.source)
          ∧ (sink.hitches = [] →
            (sink.Holds (output (asked ++ [call.question])) →
              call.question.Hears (Source.lines content)[asked.length]? result)
            ∧ (¬sink.Holds (output (asked ++ [call.question])) →
              result = .error .writeRefused ∧ (p.converse (calls.take (i + 1))).2.source
                = (p.converse (calls.take i)).2.source))) := by
  intro p output
  refine ⟨length_converse p calls, fun hsteady => (past_converse (p := p) hsteady calls).sink_eq, ?_⟩
  intro i call hcall
  refine ⟨_, getElem?_converse hcall p, fun v hgiven => ?_, fun hgiven => ?_⟩
  · rw [take_succ_of_getElem? hcall, converse_concat, Call.run_of_given hgiven]
    exact ⟨rfl, rfl⟩
  · intro shown asked
    rw [take_succ_of_getElem? hcall, converse_concat, Call.run_of_none hgiven]
    have hhears : shown = .ok () → call.question.Hears
        (Source.lines content)[p.shows (calls.take i)]?
        ((p.converse (calls.take i)).2.ask call.question).1 := fun hshown => by
      obtain ⟨here, hhere, hlines⟩ := source_converse (calls.take i) (p := p) rfl
      obtain ⟨rest, -, hask⟩ := ask_of_shown hhere hshown
      rw [hask, hlines, List.head?_drop]
      exact call.question.hears_heard _
    have hkept : ∀ e, shown = .error e →
        ((p.converse (calls.take i)).2.ask call.question).1 = .error e
          ∧ ((p.converse (calls.take i)).2.ask call.question).2.source
            = (p.converse (calls.take i)).2.source := fun e he => by
      rw [ask_of_not_shown he]
      exact ⟨rfl, rfl⟩
    refine ⟨hhears, hkept, fun hsteady => ?_⟩
    have hpast := past_converse (p := p) hsteady (calls.take i)
    refine ⟨fun hroom => ?_, fun hroom => hkept _ (hpast.display_of_not_holds hroom)⟩
    have hbefore : sink.Holds (output asked) := by
      have hall := hroom
      simp only [output, flatMap_shown_concat] at hall
      exact hall.of_append
    rw [← shows_eq_length (p := p) hsteady (calls.take i) hbefore]
    exact hhears (hpast.display_of_holds hroom)

/-- The second question meets a line that is no text. The third has no room, so the third line stays,
and the value that is given is not asked for. Another output fails at a single flush: the question of
that flush takes no line, and the next one takes the line in its stead. -/
theorem calls_take_lines_without_room :
    let content := Utf8.encode "100\n" ++ [255, 10] ++ Utf8.encode " +5"
    let p : Prompter := ⟨.bytes content, { room := some 30 }, true⟩
    let calls : List Call := [.ask ⟨"heap", 1⟩, .askUnless (some 9) ⟨"iterations", 2⟩,
      .askUnless none ⟨"threads", 3⟩, .ask ⟨"foreign", 4⟩]
    let results := (p.converse calls).1
    let failing : Prompter :=
      ⟨.bytes (Utf8.encode "7\n8\n"), { hitches := [none, some ⟨0, .noSpace⟩] }, true⟩
    let twice : List Call := [.ask ⟨"heap", 1⟩, .ask ⟨"threads", 2⟩]
    results = [.ok 100, .ok 9, .error .invalidUtf8, .error .writeRefused]
      ∧ (∃ result, results[0]? = some result
        ∧ (Question.mk "heap" 1).Hears (some (Utf8.encode "100\n")) result)
      ∧ (∃ result, results[2]? = some result
        ∧ (Question.mk "threads" 3).Hears (some [255, 10]) result)
      ∧ (p.converse calls).2.source = (p.converse (calls.take 3)).2.source
      ∧ (p.converse calls).2.sink
        = p.sink.after (Utf8.encode "\nheap [1]: \nthreads [3]: \nforeign [4]: ")
      ∧ (failing.converse twice).1 = [.error .noSpace, .ok 7]
      ∧ (failing.converse (twice.take 1)).2.source = failing.source
      ∧ ∃ result, (failing.converse twice).1[1]? = some result
        ∧ (Question.mk "threads" 2).Hears (some (Utf8.encode "7\n")) result := by
  intro content p calls results failing twice
  obtain ⟨-, hsink, hcalls⟩ := calls_take_lines content { room := some 30 } true calls
  obtain ⟨first, hfirst, -, hasks⟩ := hcalls 0 _ rfl
  obtain ⟨third, hthird, -, hasks'⟩ := hcalls 2 _ rfl
  obtain ⟨last, -, -, hasks''⟩ := hcalls 3 _ rfl
  obtain ⟨-, -, hcalls'⟩ := calls_take_lines (Utf8.encode "7\n8\n")
    { hitches := [none, some ⟨0, .noSpace⟩] } true twice
  obtain ⟨_, -, -, hfails⟩ := hcalls' 0 _ rfl
  obtain ⟨next, hnext, -, hshows⟩ := hcalls' 1 _ rfl
  have hroom : ∀ {bytes : List UInt8}, bytes.length ≤ 30 → p.sink.Holds bytes :=
    fun hlength room hsome => Option.some.inj hsome ▸ hlength
  refine ⟨by decide +kernel, ⟨first, hfirst, ?_⟩, ⟨third, hthird, ?_⟩, ?_, ?_, by decide +kernel, ?_,
    next, hnext, ?_⟩
  · exact ((hasks rfl).2.2 rfl).1 (hroom (by decide +kernel))
  · exact ((hasks' rfl).2.2 rfl).1 (hroom (by decide +kernel))
  · refine (((hasks'' rfl).2.2 rfl).2 fun hholds => ?_).2
    exact absurd (hholds 30 rfl) (by decide +kernel)
  · exact (hsink rfl).trans (by decide +kernel)
  · exact ((hfails rfl).2.1 .noSpace (by decide +kernel)).2
  · exact (hshows rfl).1 (by decide +kernel)

end Prompter

end HeapChurn
