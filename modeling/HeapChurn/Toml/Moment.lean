import HeapChurn.Toml.Number

/-!
# Dates and times

A calendar date, a time of day, or a date and a time, the last perhaps with an offset from universal
time. Dates that the calendar does not have are refused.
-/

namespace HeapChurn

namespace Toml

/-- Exactly `count` digits, none of them after an underscore. -/
def fixedDigits : Nat → Reader (List Char)
  | 0, s => some ([], s)
  | count + 1, c :: rest => do
    let _ ← Numeral.digit? 10 c
    let (ds, rest) ← fixedDigits count rest
    some (c :: ds, rest)
  | _ + 1, [] => none

/-- A number of `count` digits from `low` to `high`. -/
def field (count low high : Nat) : Reader Nat := fun s => do
  let (ds, s) ← fixedDigits count s
  let value := digitsValue 10 ds
  if low ≤ value ∧ value ≤ high then some (value, s) else none

/-- One expected character. -/
def expect (c : Char) : List Char → Option (List Char)
  | d :: rest => if d = c then some rest else none
  | [] => none

def isLeapYear (year : Nat) : Bool := year % 4 = 0 && (year % 100 ≠ 0 || year % 400 = 0)

def daysInMonth (year month : Nat) : Nat :=
  if month = 2 then if isLeapYear year then 29 else 28
  else if [4, 6, 9, 11].contains month then 30
  else 31

/-- Skips a calendar date. -/
def date (s : List Char) : Option (List Char) := do
  let (year, s) ← field 4 0 9999 s
  let s ← expect '-' s
  let (month, s) ← field 2 1 12 s
  let s ← expect '-' s
  let (_, s) ← field 2 1 (daysInMonth year month) s
  some s

/-- Skips the fraction of a second, if there is one. -/
def fraction (s : List Char) : List Char :=
  match s with
  | '.' :: c :: rest =>
    if (Numeral.digit? 10 c).isSome then rest.dropWhile fun d => (Numeral.digit? 10 d).isSome
    else s
  | _ => s

/-- Skips a time of day. A minute may have a leap second. -/
def timeOfDay (s : List Char) : Option (List Char) := do
  let (_, s) ← field 2 0 23 s
  let s ← expect ':' s
  let (_, s) ← field 2 0 59 s
  let s ← expect ':' s
  let (_, s) ← field 2 0 60 s
  some (fraction s)

/-- Skips an offset from universal time. -/
def offset (s : List Char) : Option (List Char) :=
  match s with
  | [] => none
  | c :: rest =>
    if c = 'Z' ∨ c = 'z' then some rest
    else if c = '+' ∨ c = '-' then do
      let (_, rest) ← field 2 0 23 rest
      let rest ← expect ':' rest
      let (_, rest) ← field 2 0 59 rest
      some rest
    else none

/-- Skips the time after a date, and its offset, if there are any. -/
def timeAfterDate (s : List Char) : List Char :=
  match s with
  | [] => []
  | c :: rest =>
    if c = 'T' ∨ c = 't' ∨ c = ' ' then
      match timeOfDay rest with
      | some rest => (offset rest).getD rest
      | none => s
    else s

/-- A date, a time, or both. -/
def moment : Reader Value := fun s =>
  let rest? :=
    match date s with
    | some rest => some (timeAfterDate rest)
    | none => timeOfDay s
  rest?.map fun rest => (.moment (String.ofList (s.take (s.length - rest.length))), rest)

end Toml

end HeapChurn
