import HeapChurn.Word

/-!
# Numerals

How a number is written and read. A number is written in decimal without leading zeros. A word is
read from an optional plus sign and at least one decimal digit, and has to stay below
`Word.modulus`; the fault is the one met first from the left.
-/

namespace HeapChurn

namespace Numeral

/-- A number in decimal, without leading zeros. -/
def render (n : Nat) : String := String.ofList (Nat.toDigits 10 n)

def renderInt : Int → String
  | .ofNat n => render n
  | .negSucc n => "-" ++ render (n + 1)

/-- Why a text does not denote a word. -/
inductive Fault where
  | empty
  | invalidDigit
  | tooLarge
  deriving Repr, DecidableEq

def Fault.message : Fault → String
  | .empty => "cannot parse integer from empty string"
  | .invalidDigit => "invalid digit found in string"
  | .tooLarge => "number too large to fit in target type"

/-- The value of a digit in a base of at most sixteen. -/
def digit? (base : Nat) (c : Char) : Option Nat :=
  let value? :=
    if '0' ≤ c ∧ c ≤ '9' then some (c.toNat - '0'.toNat)
    else if 'a' ≤ c ∧ c ≤ 'f' then some (c.toNat - 'a'.toNat + 10)
    else if 'A' ≤ c ∧ c ≤ 'F' then some (c.toNat - 'A'.toNat + 10)
    else none
  value?.filter (· < base)

/-- Reads on from `value`, digit by digit. -/
def readDigits (value : Nat) : List Char → Except Fault Nat
  | [] => .ok value
  | c :: rest =>
    match digit? 10 c with
    | none => .error .invalidDigit
    | some d =>
      if value * 10 + d < Word.modulus then readDigits (value * 10 + d) rest
      else .error .tooLarge

/-- The word that a text denotes: an optional plus sign and decimal digits. -/
def readWord (text : List Char) : Except Fault Nat :=
  match text with
  | [] => .error .empty
  | ['+'] => .error .invalidDigit
  | '+' :: digits => readDigits 0 digits
  | digits => readDigits 0 digits

end Numeral

end HeapChurn
