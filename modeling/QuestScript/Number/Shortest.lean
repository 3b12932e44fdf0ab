import QuestScript.Number.Binary

/-! The fewest decimal digits that read back as the same binary number. -/

namespace QuestScript

/-- The decimal number `digits * 10 ^ exponent`. -/
structure Decimal where
  digits : Nat
  exponent : Int
deriving DecidableEq, Repr

/-- Which of two equally near decimals is taken. -/
inductive TieRule where
  /-- The greater one. -/
  | up
  /-- The one whose last digit is even. -/
  | even
deriving DecidableEq, Repr

/-- The decimals that read back as one binary number: those between `low` and `high`, over a common
denominator, and these two as well when `closed`. -/
structure RoundingRange where
  low : Nat
  middle : Nat
  high : Nat
  denominator : Nat
  closed : Bool
deriving DecidableEq, Repr

namespace RoundingRange

/-- The range of `mantissa * 2 ^ exponent`: it ends halfway to the two neighbouring numbers. -/
def ofNumber (format : BinaryFormat) (mantissa : Nat) (exponent : Int) : RoundingRange :=
  -- All numerators count quarters of the last place.
  let place := 2 - exponent
  let quarters (count : Nat) := (scaleDown count 1 place).1
  -- The lower neighbour of a power of two is twice as close as the upper one.
  let below := if mantissa = format.hidden ∧ format.leastExponent < exponent then 1 else 2
  { low := quarters (4 * mantissa - below)
    middle := quarters (4 * mantissa)
    high := quarters (4 * mantissa + 2)
    denominator := (scaleDown 1 1 place).2
    closed := mantissa % 2 == 0 }

/-- A power of ten that is greater than the number in the middle of the range. -/
def topExponent (range : RoundingRange) : Int :=
  ((range.middle.log2 : Int) - range.denominator.log2 + 1) * 30103 / 100000 + 1

/-- Whether `count * 10 ^ exponent` reads back as the number of the range. -/
def holds (range : RoundingRange) (count : Nat) (exponent : Int) : Bool :=
  let factor := Nat.pow 10 (-exponent).toNat
  let candidate := count * range.denominator * Nat.pow 10 exponent.toNat
  if range.closed then range.low * factor ≤ candidate && candidate ≤ range.high * factor
  else range.low * factor < candidate && candidate < range.high * factor

/-- The nearer of the two multiples of `10 ^ exponent` around the number that read back as it. -/
def nearest? (range : RoundingRange) (tie : TieRule) (exponent : Int) : Option Nat :=
  let scaled := range.middle * Nat.pow 10 (-exponent).toNat
  let unit := range.denominator * Nat.pow 10 exponent.toNat
  let floor := scaled / unit
  match range.holds floor exponent, range.holds (floor + 1) exponent with
  | false, false => none
  | true, false => some floor
  | false, true => some (floor + 1)
  | true, true =>
    let twice := 2 * (scaled % unit)
    if twice < unit then some floor
    else if unit < twice then some (floor + 1)
    else match tie with
      | .up => some (floor + 1)
      | .even => some (floor + floor % 2)

/-- The first grid of multiples of a power of ten, from `exponent` down, that holds a decimal of the
range. -/
def search (range : RoundingRange) (tie : TieRule) : Nat → Int → Decimal
  | 0, exponent => ⟨0, exponent⟩
  | steps + 1, exponent =>
    match range.nearest? tie exponent with
    | some digits => ⟨digits, exponent⟩
    | none => range.search tie steps (exponent - 1)

end RoundingRange

/-- Grids tried before giving up: seventeen digits name every number of 64 bits, and the search
starts at most three powers of ten above the first of them. -/
def maxGrids : Nat := 24

/-- The digits of the shortest decimal that reads back as `mantissa * 2 ^ exponent`. -/
def shortestDecimal (format : BinaryFormat) (tie : TieRule) (mantissa : Nat) (exponent : Int) :
    Decimal :=
  let range := RoundingRange.ofNumber format mantissa exponent
  range.search tie maxGrids range.topExponent

end QuestScript
