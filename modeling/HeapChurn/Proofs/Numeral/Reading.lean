import HeapChurn.Numeral

/-!
# Words read from text

A word is read digit by digit, and the reader gives up as soon as the value leaves the range of a
word. That is the same as reading the whole number and looking at its size then, since a number that
has left the range does not come back (`le_ofDigitChars`). So a text is read as a word exactly when
it denotes one (`readWord_eq_ok_iff`).
-/

namespace HeapChurn

namespace Numeral

/-- The text denotes the number: an optional plus sign and at least one decimal digit. -/
def Denotes (text : List Char) (n : Nat) : Prop :=
  ∃ sign digits, text = sign ++ digits ∧ (sign = [] ∨ sign = ['+']) ∧ digits ≠ []
    ∧ (∀ c ∈ digits, c.isDigit = true) ∧ n = Nat.ofDigitChars 10 digits 0

theorem isDigit_iff {c : Char} : c.isDigit = true ↔ '0' ≤ c ∧ c ≤ '9' := by
  simp [Char.isDigit, Char.le_def]

theorem digit?_of_isDigit {c : Char} (h : c.isDigit = true) :
    digit? 10 c = some (c.toNat - '0'.toNat) := by
  have hhigh : c.toNat ≤ '9'.toNat := (Char.isDigit_iff_toNat.mp h).2
  have hten : '9'.toNat - '0'.toNat < 10 := by decide
  rw [digit?, if_pos (isDigit_iff.mp h), Option.filter_some, if_pos]
  simp only [decide_eq_true_eq]
  omega

/-- Letters stand for ten and more. -/
theorem digit?_of_not_isDigit {c : Char} (h : ¬c.isDigit = true) : digit? 10 c = none := by
  have hletter : ∀ n : Nat, (some (n + 10)).filter (fun m => decide (m < 10)) = none := fun n => by
    rw [Option.filter_some, if_neg]
    simp
  rw [digit?, if_neg fun hrange => h (isDigit_iff.mpr hrange)]
  split
  · exact hletter _
  · split
    · exact hletter _
    · rfl

theorem isDigit_toDigits (n : Nat) : ∀ c ∈ Nat.toDigits 10 n, c.isDigit = true :=
  fun _ hc => Nat.isDigit_of_mem_toDigits (by decide) (by decide) hc

/-- More digits do not make a number smaller. -/
theorem le_ofDigitChars : ∀ (digits : List Char) (value : Nat),
    value ≤ Nat.ofDigitChars 10 digits value
  | [], _ => Nat.le_refl _
  | c :: digits, value => by
      rw [Nat.ofDigitChars_cons]
      have hrest := le_ofDigitChars digits (10 * value + (c.toNat - '0'.toNat))
      omega

theorem readDigits_eq_ok_iff {n : Nat} : ∀ {digits : List Char} {value : Nat}, value < Word.modulus →
    (readDigits value digits = .ok n ↔ (∀ c ∈ digits, c.isDigit = true)
      ∧ n = Nat.ofDigitChars 10 digits value ∧ n < Word.modulus)
  | [], value, hvalue => by
      constructor
      · rintro ⟨⟩
        exact ⟨nofun, rfl, hvalue⟩
      · rintro ⟨-, rfl, -⟩
        rfl
  | c :: digits, value, hvalue => by
      rw [readDigits]
      by_cases hc : c.isDigit = true
      · rw [digit?_of_isDigit hc, Nat.ofDigitChars_cons, Nat.mul_comm 10]
        simp only [List.forall_mem_cons, hc, true_and]
        by_cases hlt : value * 10 + (c.toNat - '0'.toNat) < Word.modulus
        · rw [if_pos hlt]
          exact readDigits_eq_ok_iff hlt
        · rw [if_neg hlt]
          have hle := le_ofDigitChars digits (value * 10 + (c.toNat - '0'.toNat))
          constructor
          · nofun
          · rintro ⟨-, rfl, hn⟩
            omega
      · rw [digit?_of_not_isDigit hc]
        constructor
        · nofun
        · rintro ⟨hall, -⟩
          exact absurd (hall c List.mem_cons_self) hc

/-- A text is read as the word that it denotes, if it denotes one. -/
theorem readWord_eq_ok_iff {text : List Char} {n : Nat} :
    readWord text = .ok n ↔ Denotes text n ∧ n < Word.modulus := by
  have hzero : 0 < Word.modulus := by decide
  constructor
  · intro h
    unfold readWord at h
    split at h
    · cases h
    · cases h
    · rename_i digits hne
      obtain ⟨hdigits, hn, hlt⟩ := (readDigits_eq_ok_iff hzero).mp h
      exact ⟨⟨['+'], digits, rfl, Or.inr rfl, fun heq => hne (heq ▸ rfl), hdigits, hn⟩, hlt⟩
    · rename_i hne _ _
      obtain ⟨hdigits, hn, hlt⟩ := (readDigits_eq_ok_iff hzero).mp h
      exact ⟨⟨[], text, rfl, Or.inl rfl, hne, hdigits, hn⟩, hlt⟩
  · rintro ⟨⟨sign, digits, rfl, hsign, hne, hdigits, hn⟩, hlt⟩
    have hread := (readDigits_eq_ok_iff hzero).mpr ⟨hdigits, hn, hlt⟩
    obtain ⟨c, rest, rfl⟩ := List.exists_cons_of_ne_nil hne
    rcases hsign with rfl | rfl
    · have hplus : c ≠ '+' := by
        rintro rfl
        exact absurd (hdigits '+' List.mem_cons_self) (by decide)
      rw [List.nil_append, readWord]
      · exact hread
      all_goals simp [hplus]
    · exact hread

end Numeral

end HeapChurn
