import HeapChurn.Toml.Document
import HeapChurn.Proofs.Numeral.Reading
import Mathlib.Algebra.Ring.Nat

/-!
# Integers read from a file

A number in decimal, up to the end of its line, is read back as an integer, unless it is out of the
range of integers (`value_toDigits`). A reader that looks for a date or a time first takes some of the
digits too, but finds neither a dash nor a colon behind them (`Figures.moment_eq_none`).
-/

namespace HeapChurn

namespace Toml

/-- Digits up to the end of the line. -/
inductive Figures : List Char → Prop
  | done {rest : List Char} : Figures ('\n' :: rest)
  | digit {c : Char} {rest : List Char} (hc : c.isDigit = true) (h : Figures rest) :
      Figures (c :: rest)

namespace Figures

variable {c : Char} {s rest : List Char}

theorem of_digits : ∀ {digits : List Char}, (∀ c ∈ digits, c.isDigit = true) →
    Figures (digits ++ '\n' :: rest)
  | [], _ => .done
  | _ :: _, h => by
      obtain ⟨hc, hdigits⟩ := List.forall_mem_cons.mp h
      exact .digit hc (of_digits hdigits)

/-- The line ends before any other character that is no digit. -/
theorem not_cons (hc : ¬c.isDigit = true) (hline : c ≠ '\n') : ¬Figures (c :: rest) := by
  intro h
  cases h with
  | done => exact hline rfl
  | digit hd _ => exact hc hd

theorem tail (h : Figures (c :: rest)) (hc : c.isDigit = true) : Figures rest := by
  cases h with
  | done => exact absurd hc (by decide)
  | digit _ h => exact h

theorem expect_eq_none (h : Figures s) (hc : ¬c.isDigit = true) (hline : c ≠ '\n') :
    expect c s = none := by
  cases s with
  | nil => rfl
  | cons d rest =>
      refine if_neg ?_
      rintro rfl
      exact not_cons hc hline h

theorem skipBlanks_eq (h : Figures s) : skipBlanks s = s := by
  cases s with
  | nil => rfl
  | cons c rest =>
      refine List.dropWhile_cons_of_neg fun hblank => ?_
      rcases Bool.or_eq_true_iff.mp hblank with hspace | htab
      · exact not_cons (by decide) (by decide) (of_decide_eq_true hspace ▸ h)
      · exact not_cons (by decide) (by decide) (of_decide_eq_true htab ▸ h)

theorem of_fixedDigits : ∀ {count : Nat} {s ds rest : List Char}, Figures s →
    fixedDigits count s = some (ds, rest) → Figures rest
  | 0, _, _, _, h, hread => by
      obtain ⟨-, rfl⟩ := Prod.mk.inj (Option.some.inj hread)
      exact h
  | count + 1, _, _, _, h, hread => by
      cases h with
      | done => cases hread
      | digit _ h =>
          obtain ⟨_, -, hread⟩ := Option.bind_eq_some_iff.mp hread
          obtain ⟨⟨_, _⟩, hmore, hread⟩ := Option.bind_eq_some_iff.mp hread
          obtain ⟨-, rfl⟩ := Prod.mk.inj (Option.some.inj hread)
          exact of_fixedDigits h hmore

theorem of_field {count low high value : Nat} (h : Figures s)
    (hread : field count low high s = some (value, rest)) : Figures rest := by
  obtain ⟨⟨_, _⟩, hdigits, hread⟩ := Option.bind_eq_some_iff.mp hread
  dsimp only at hread
  split at hread
  · obtain ⟨-, rfl⟩ := Prod.mk.inj (Option.some.inj hread)
    exact h.of_fixedDigits hdigits
  · cases hread

theorem date_eq_none (h : Figures s) : date s = none := by
  unfold date
  cases hyear : field 4 0 9999 s with
  | none => rfl
  | some out =>
      change (expect '-' out.2 >>= _) = none
      rw [(h.of_field hyear).expect_eq_none (by decide) (by decide)]
      rfl

theorem timeOfDay_eq_none (h : Figures s) : timeOfDay s = none := by
  unfold timeOfDay
  cases hhour : field 2 0 23 s with
  | none => rfl
  | some out =>
      change (expect ':' out.2 >>= _) = none
      rw [(h.of_field hhour).expect_eq_none (by decide) (by decide)]
      rfl

theorem moment_eq_none (h : Figures s) : moment s = none := by
  unfold moment
  rw [h.date_eq_none, h.timeOfDay_eq_none]
  rfl

theorem sign_eq (h : Figures s) : sign s = (false, s) := by
  unfold sign
  split
  · exact absurd h (not_cons (by decide) (by decide))
  · exact absurd h (not_cons (by decide) (by decide))
  · rfl

/-- Digits are a decimal number; the other kinds have a letter among them. -/
theorem number_eq (h : Figures s) : number s = decimal false s := by
  unfold number
  split
  · exact absurd (h.tail (by decide)) (not_cons (by decide) (by decide))
  · exact absurd (h.tail (by decide)) (not_cons (by decide) (by decide))
  · exact absurd (h.tail (by decide)) (not_cons (by decide) (by decide))
  · rw [h.sign_eq]
    split
    · rename_i heq
      obtain ⟨-, rfl⟩ := Prod.mk.inj heq
      exact absurd h (not_cons (by decide) (by decide))
    · rename_i heq
      obtain ⟨-, rfl⟩ := Prod.mk.inj heq
      exact absurd h (not_cons (by decide) (by decide))
    · rename_i heq
      obtain ⟨rfl, rfl⟩ := Prod.mk.inj heq
      rfl

theorem value_eq (h : Figures (c :: rest)) (hc : c.isDigit = true) (depth : Nat) :
    value depth (c :: rest) = decimal false (c :: rest) := by
  have hother : ∀ d : Char, ¬d.isDigit = true → c ≠ d := by
    rintro d hd rfl
    exact hd hc
  unfold value
  dsimp only
  rw [if_neg (not_or.mpr ⟨hother _ (by decide), hother _ (by decide)⟩),
    if_neg (hother _ (by decide)), if_neg (hother _ (by decide)), if_neg (hother _ (by decide)),
    if_neg (hother _ (by decide)), h.moment_eq_none]
  exact h.number_eq

end Figures

variable {digits : List Char} {rest : List Char}

theorem moreDigits_append : ∀ {digits : List Char}, (∀ c ∈ digits, c.isDigit = true) →
    moreDigits 10 (digits ++ '\n' :: rest) = some (digits, '\n' :: rest)
  | [], _ => by
      rw [List.nil_append, moreDigits]
      · rfl
      all_goals simp
  | c :: digits, h => by
      obtain ⟨hc, hdigits⟩ := List.forall_mem_cons.mp h
      have hne : c ≠ '_' := by
        rintro rfl
        exact absurd hc (by decide)
      rw [List.cons_append, moreDigits]
      · rw [Numeral.digit?_of_isDigit hc, moreDigits_append hdigits]
        rfl
      all_goals simp [hne]

theorem digits_append (h : ∀ c ∈ digits, c.isDigit = true) (hne : digits ≠ []) :
    Toml.digits 10 (digits ++ '\n' :: rest) = some (digits, '\n' :: rest) := by
  obtain ⟨c, more, rfl⟩ := List.exists_cons_of_ne_nil hne
  obtain ⟨hc, hmore⟩ := List.forall_mem_cons.mp h
  rw [List.cons_append, Toml.digits, Numeral.digit?_of_isDigit hc, moreDigits_append hmore]
  rfl

theorem foldl_digits : ∀ {digits : List Char} {value : Nat}, (∀ c ∈ digits, c.isDigit = true) →
    digits.foldl (fun value c => value * 10 + (Numeral.digit? 10 c).getD 0) value
      = Nat.ofDigitChars 10 digits value
  | [], _, _ => rfl
  | c :: digits, value, h => by
      obtain ⟨hc, hdigits⟩ := List.forall_mem_cons.mp h
      rw [List.foldl_cons, foldl_digits hdigits, Numeral.digit?_of_isDigit hc, Nat.ofDigitChars_cons,
        Nat.mul_comm]
      rfl

theorem figures_toDigits (n : Nat) : Figures (Nat.toDigits 10 n ++ '\n' :: rest) :=
  .of_digits (Numeral.isDigit_toDigits n)

theorem digitsValue_toDigits (n : Nat) : digitsValue 10 (Nat.toDigits 10 n) = n :=
  (foldl_digits (Numeral.isDigit_toDigits n)).trans (Nat.ofDigitChars_toDigits (by decide) (by decide))

theorem exists_toDigits_eq_cons (n : Nat) : ∃ c digits, Nat.toDigits 10 n = c :: digits :=
  List.exists_cons_of_ne_nil Nat.toDigits_ne_nil

/-- No zero leads a number. -/
theorem toDigits_ne_cons_zero {n : Nat} (hn : n ≠ 0) (rest : List Char) :
    Nat.toDigits 10 n ≠ '0' :: rest := by
  induction n using Nat.strongRecOn generalizing rest with
  | _ n ih =>
      by_cases hlt : n < 10
      · rw [Nat.toDigits_of_lt_base hlt]
        have hdigit : ∀ d < 10, d ≠ 0 → Nat.digitChar d ≠ '0' := by decide
        exact fun heq => hdigit n hlt hn (List.cons.inj heq).1
      · rw [Nat.toDigits_of_base_le (by decide) (Nat.le_of_not_lt hlt)]
        -- The first digit is that of the number without its last digit.
        obtain ⟨c, more, hmore⟩ := exists_toDigits_eq_cons (n / 10)
        rw [hmore]
        rintro ⟨⟩
        exact ih (n / 10) (by omega) (by omega) more hmore

theorem wholeDigits_toDigits (n : Nat) :
    wholeDigits (Nat.toDigits 10 n ++ '\n' :: rest) = some (Nat.toDigits 10 n, '\n' :: rest) := by
  by_cases hn : n = 0
  · subst hn
    rfl
  · rw [wholeDigits]
    · exact digits_append (Numeral.isDigit_toDigits n) Nat.toDigits_ne_nil
    · intro more heq
      obtain ⟨c, digits, hdigits⟩ := exists_toDigits_eq_cons n
      rw [hdigits] at heq
      obtain ⟨rfl, -⟩ := List.cons.inj heq
      exact toDigits_ne_cons_zero hn digits hdigits

theorem decimal_toDigits (n : Nat) : decimal false (Nat.toDigits 10 n ++ '\n' :: rest)
    = (integer? n).map fun v => (v, '\n' :: rest) := by
  rw [decimal, wholeDigits_toDigits]
  change (integer? ((digitsValue 10 (Nat.toDigits 10 n) : Nat) : Int) >>= fun v =>
    some (v, '\n' :: rest)) = _
  rw [digitsValue_toDigits]
  cases integer? (n : Int) <;> rfl

/-- A number at the end of a line is read if it is an integer. -/
theorem value_toDigits (depth n : Nat) : value depth (Nat.toDigits 10 n ++ '\n' :: rest)
    = (integer? n).map fun v => (v, '\n' :: rest) := by
  have hfigures : Figures (Nat.toDigits 10 n ++ '\n' :: rest) := figures_toDigits n
  have hdigits := Numeral.isDigit_toDigits n
  rw [← decimal_toDigits]
  obtain ⟨c, digits, heq⟩ := exists_toDigits_eq_cons n
  rw [heq] at hfigures hdigits ⊢
  exact hfigures.value_eq (hdigits c List.mem_cons_self) depth

theorem integer?_eq_some {n : Nat} (h : n < 2 ^ 63) : integer? n = some (.integer n) := by
  have hleast : leastInteger = -2 ^ 63 := by decide
  have hlargest : largestInteger = 2 ^ 63 - 1 := by decide
  refine if_pos ⟨?_, ?_⟩ <;> omega

theorem integer?_eq_none {n : Nat} (h : 2 ^ 63 ≤ n) : integer? n = none := by
  have hlargest : largestInteger = 2 ^ 63 - 1 := by decide
  refine if_neg fun hrange => ?_
  omega

end Toml

end HeapChurn
