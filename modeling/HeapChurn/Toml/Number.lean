import HeapChurn.Toml.Reader
import HeapChurn.Toml.Value

/-!
# Numbers

Integers in four bases and decimal fractions. An underscore may stand between two digits. A decimal
number has no leading zeros and may have a sign; the other bases have neither. An integer fits 64
bits with a sign, and a fraction that is too large to be a number is refused.
-/

namespace HeapChurn

namespace Toml

/-- The digits that follow a digit, without the underscores between them. -/
def moreDigits (base : Nat) : Reader (List Char)
  | '_' :: c :: rest => do
    let _ ← Numeral.digit? base c
    let (digits, rest) ← moreDigits base rest
    some (c :: digits, rest)
  | ['_'] => none
  | c :: rest =>
    match Numeral.digit? base c with
    | none => some ([], c :: rest)
    | some _ => do
      let (digits, rest) ← moreDigits base rest
      some (c :: digits, rest)
  | [] => some ([], [])

/-- At least one digit. -/
def digits (base : Nat) : Reader (List Char)
  | c :: rest => do
    let _ ← Numeral.digit? base c
    let (more, rest) ← moreDigits base rest
    some (c :: more, rest)
  | [] => none

/-- Digits without a leading zero. -/
def wholeDigits : Reader (List Char)
  | '0' :: rest => some (['0'], rest)
  | s => digits 10 s

/-- The value of digits in some base. -/
def digitsValue (base : Nat) (cs : List Char) : Nat :=
  cs.foldl (fun value c => value * base + (Numeral.digit? base c).getD 0) 0

def largestInteger : Int := Int64.maxValue.toInt

def leastInteger : Int := Int64.minValue.toInt

/-- Integers fit 64 bits with a sign. -/
def integer? (value : Int) : Option Value :=
  if leastInteger ≤ value ∧ value ≤ largestInteger then some (.integer value) else none

/-- A sign, if there is one, and whether it is a minus. -/
def sign : List Char → Bool × List Char
  | '+' :: rest => (false, rest)
  | '-' :: rest => (true, rest)
  | rest => (false, rest)

/-- The decimals after the point, if there is one. -/
def decimals? : Reader (Option (List Char))
  | '.' :: rest => do
    let (ds, rest) ← digits 10 rest
    some (some ds, rest)
  | rest => some (none, rest)

/-- The exponent, if there is one. -/
def exponent? : Reader (Option Int)
  | c :: rest =>
    if c = 'e' ∨ c = 'E' then do
      let (negative, rest) := sign rest
      let (ds, rest) ← digits 10 rest
      let value : Int := digitsValue 10 ds
      some (some (if negative then -value else value), rest)
    else some (none, c :: rest)
  | [] => some (none, [])

/-- A decimal number without its sign: an integer, or a fraction if it has decimals or an
exponent. -/
def decimal (negative : Bool) : Reader Value := fun s => do
  let (whole, s) ← wholeDigits s
  let (ds?, s) ← decimals? s
  let (exp?, s) ← exponent? s
  match ds?, exp? with
  | none, none =>
    let value : Int := digitsValue 10 whole
    some (← integer? (if negative then -value else value), s)
  | _, _ =>
    let ds := ds?.getD []
    let scale : Int := exp?.getD 0 - ds.length
    match Binary64.ofDecimal negative (digitsValue 10 (whole ++ ds)) scale with
    | .infinite false => none
    | value => some (.float value, s)

/-- A number of any kind. -/
def number : Reader Value
  | '0' :: 'x' :: rest => based 16 rest
  | '0' :: 'o' :: rest => based 8 rest
  | '0' :: 'b' :: rest => based 2 rest
  | s =>
    match sign s with
    | (negative, 'i' :: 'n' :: 'f' :: rest) => some (.float (.infinite negative), rest)
    | (_, 'n' :: 'a' :: 'n' :: rest) => some (.float .nan, rest)
    | (negative, rest) => decimal negative rest
where
  based (base : Nat) : Reader Value := fun s => do
    let (ds, s) ← digits base s
    some (← integer? (digitsValue base ds), s)

end Toml

end HeapChurn
