import HeapChurn.Numeral

/-!
# Binary floating point numbers

Double-precision numbers as exact dyadic fractions: a natural mantissa below `2 ^ 53` times a power
of two. All arithmetic is done on exact fractions and rounded once, to the nearest number and to
the even one of two neighbours at the same distance. A number is written either with a fixed count
of decimals or with the fewest digits that still tell it from its neighbours.
-/

namespace HeapChurn

/-- A quotient rounded to the nearest natural number; a half goes to the even neighbour. -/
def roundDiv (num den : Nat) : Nat :=
  let quotient := num / den
  let twice := 2 * (num % den)
  if twice < den then quotient
  else if den < twice then quotient + 1
  else quotient + quotient % 2

/-- A double-precision number. A finite one has the value `mantissa * 2 ^ exponent`. -/
inductive Binary64 where
  | finite (negative : Bool) (mantissa : Nat) (exponent : Int)
  | infinite (negative : Bool)
  | nan
  deriving Repr, DecidableEq

namespace Binary64

/-- The exponent of the smallest positive number. -/
def leastExponent : Int := -1074

/-- The greatest exponent of a finite number. -/
def greatestExponent : Int := 971

/-- Mantissas of normal numbers start here and end below twice this. -/
def leastNormal : Nat := 1 <<< 52

/-- The exponent of the leading binary digit of `num / den`, for a positive fraction. -/
def leadingExponent (num den : Nat) : Int :=
  let guess : Int := (num.log2 : Int) - den.log2
  let reached :=
    if 0 ≤ guess then den <<< guess.toNat ≤ num else den ≤ num <<< (-guess).toNat
  if reached then guess else guess - 1

/-- The number nearest to `num / den`. -/
def ofRatio (negative : Bool) (num den : Nat) : Binary64 :=
  if num = 0 then .finite negative 0 leastExponent
  else
    let exponent := max (leadingExponent num den - 52) leastExponent
    let mantissa :=
      if 0 ≤ exponent then roundDiv num (den <<< exponent.toNat)
      else roundDiv (num <<< (-exponent).toNat) den
    let (mantissa, exponent) :=
      if mantissa = 2 * leastNormal then (leastNormal, exponent + 1) else (mantissa, exponent)
    if greatestExponent < exponent then .infinite negative
    else .finite negative mantissa exponent

/-- A dyadic fraction as numerator and denominator. -/
def ratio (mantissa : Nat) (exponent : Int) : Nat × Nat :=
  if 0 ≤ exponent then (mantissa <<< exponent.toNat, 1)
  else (mantissa, 1 <<< (-exponent).toNat)

/-- The number nearest to `digits * 10 ^ scale`. Past four hundred decimal places either way the
answer is settled by the place of the leading digit, so no large power is formed. -/
def ofDecimal (negative : Bool) (digits : Nat) (scale : Int) : Binary64 :=
  let places : Int := (Nat.toDigits 10 digits).length
  if digits = 0 then .finite negative 0 leastExponent
  else if 400 < scale + places then .infinite negative
  else if scale + places < -400 then .finite negative 0 leastExponent
  else if 0 ≤ scale then ofRatio negative (digits * Nat.pow 10 scale.toNat) 1
  else ofRatio negative digits (Nat.pow 10 (-scale).toNat)

/-- Billionths in one. -/
def billion : Nat := 1000000000

/-- `seconds` and `nanos` billionths of a second: the whole seconds and the rest are rounded, then
their sum. -/
def ofSeconds (seconds nanos : Nat) : Binary64 :=
  match ofRatio false (seconds + nanos / billion) 1, ofRatio false (nanos % billion) billion with
  | .finite _ m e, .finite _ m' e' =>
    let (num, den) := ratio m e
    let (num', den') := ratio m' e'
    ofRatio false (num * den' + num' * den) (den * den')
  | whole, _ => whole

/-! ## Fixed decimals -/

/-- Pads a digit string with zeros on the left. -/
def padZeros (width : Nat) (digits : List Char) : List Char :=
  List.replicate (width - digits.length) '0' ++ digits

/-- A number of `1 / 10 ^ places` units, written with a decimal point. -/
def placePoint (units : Nat) (places : Nat) : String :=
  let digits := padZeros (places + 1) (Nat.toDigits 10 units)
  let whole := digits.take (digits.length - places)
  let decimals := digits.drop (digits.length - places)
  String.ofList (whole ++ (if places = 0 then [] else '.' :: decimals))

/-- The exact value rounded to `places` decimals; a half goes to the even neighbour. -/
def toFixed (places : Nat) : Binary64 → String
  | .finite negative mantissa exponent =>
    let (num, den) := ratio mantissa exponent
    (if negative then "-" else "") ++ placePoint (roundDiv (num * Nat.pow 10 places) den) places
  | .infinite negative => if negative then "-inf" else "inf"
  | .nan => "NaN"

/-! ## The fewest digits

A decimal reads back as the number exactly when it lies in the interval of reals that round to it:
half a unit to either side, a quarter below a power of two, ends included when the mantissa is even.
For one digit, two digits and so on the two neighbours of the number on that decimal grid are
tried, and the first grid with a neighbour inside the interval gives the answer: of two such
neighbours the nearer one, and the one farther from zero if both are at the same distance. -/

/-- The interval of reals that round to a positive number, in units of `2 ^ (exponent - 2)`. -/
structure Interval where
  low : Nat
  centre : Nat
  high : Nat
  closed : Bool
  exponent : Int

def interval (mantissa : Nat) (exponent : Int) : Interval where
  low :=
    if mantissa = leastNormal ∧ leastExponent < exponent then 4 * mantissa - 1
    else 4 * mantissa - 2
  centre := 4 * mantissa
  high := 4 * mantissa + 2
  closed := mantissa % 2 = 0
  exponent := exponent - 2

/-- The decimal place of the leading digit of `num / den`, counted so that the value lies below
`10 ^ place` and not below `10 ^ (place - 1)`; `guess` is at most one too large. -/
def decimalPlace (num den : Nat) : Int :=
  let guess : Int := (Nat.toDigits 10 num).length - (Nat.toDigits 10 den).length + 1
  let below (place : Int) : Bool :=
    if 0 ≤ place then num < den * Nat.pow 10 place.toNat
    else num * Nat.pow 10 (-place).toNat < den
  if below (guess - 1) then guess - 1 else guess

/-- Tries grids of `count` digits and more, `fuel` of them. Only on the first grid can the upper
neighbour have a digit more than the others: it is the next power of ten then. -/
def fewestDigits (i : Interval) (place : Int) : Nat → Nat → Nat × Int
  | 0, count => (i.centre, place - count)
  | fuel + 1, count =>
    let step := place - count
    -- the grid and the interval on one common denominator
    let (unitNum, unitDen) :=
      if 0 ≤ step then (Nat.pow 10 step.toNat, 1) else (1, Nat.pow 10 (-step).toNat)
    let (num, den) := ratio 1 i.exponent
    let scaleBound (bound : Nat) : Nat := bound * num * unitDen
    let scaleGrid (grid : Nat) : Nat := grid * unitNum * den
    let inside (grid : Nat) : Bool :=
      if i.closed then scaleBound i.low ≤ scaleGrid grid ∧ scaleGrid grid ≤ scaleBound i.high
      else scaleBound i.low < scaleGrid grid ∧ scaleGrid grid < scaleBound i.high
    let below := scaleBound i.centre / (unitNum * den)
    let lowerGap := scaleBound i.centre - scaleGrid below
    let upperGap := scaleGrid (below + 1) - scaleBound i.centre
    if inside below ∧ (lowerGap < upperGap ∨ ¬ inside (below + 1)) then (below, step)
    else if inside (below + 1) then
      if below + 1 = Nat.pow 10 count then (1, place) else (below + 1, step)
    else fewestDigits i place fuel (count + 1)

/-- Digits times a power of ten in positional notation, without a point when it is whole. -/
def positional (digits : Nat) (scale : Int) : String :=
  if 0 ≤ scale then String.ofList (Nat.toDigits 10 (digits * Nat.pow 10 scale.toNat))
  else placePoint digits (-scale).toNat

/-- The fewest digits that read back as the number, in positional notation. -/
def toShortest : Binary64 → String
  | .finite negative 0 _ => if negative then "-0" else "0"
  | .finite negative mantissa exponent =>
    let (num, den) := ratio mantissa exponent
    let (digits, scale) := fewestDigits (interval mantissa exponent) (decimalPlace num den) 17 1
    (if negative then "-" else "") ++ positional digits scale
  | .infinite negative => if negative then "-inf" else "inf"
  | .nan => "NaN"

end Binary64

end HeapChurn
