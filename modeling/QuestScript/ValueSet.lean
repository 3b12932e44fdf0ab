/-! Sets of 32-bit values, as lists of intervals. -/

namespace QuestScript

/-- The values from `low` to `high`, both included; none if `high` is the lesser. -/
structure Interval where
  low : Int32
  high : Int32
deriving DecidableEq, Repr

namespace Interval

/-- Intervals are ordered by their low ends, and by their high ends if these are equal. -/
def le (a b : Interval) : Bool :=
  a.low.toInt < b.low.toInt || (a.low.toInt == b.low.toInt && a.high.toInt ≤ b.high.toInt)

/-- Whether a value is in an interval. -/
def contains (interval : Interval) (value : Int32) : Bool :=
  interval.low.toInt ≤ value.toInt && value.toInt ≤ interval.high.toInt

/-- Values counted up from the low end. -/
def firstValues (interval : Interval) (count : Nat) : List Int32 :=
  (List.range count).map fun (step : Nat) => .ofInt (interval.low.toInt + step)

/-- How many values an interval has. -/
def count (interval : Interval) : Nat := (interval.high.toInt - interval.low.toInt + 1).toNat

/-- The values of an interval, ascending. -/
def values (interval : Interval) : List Int32 := interval.firstValues interval.count

/-- The size of an interval in a 64-bit word, around which that of a reversed one wraps. -/
def wordSize (interval : Interval) : Nat :=
  ((interval.high.toInt - interval.low.toInt + 1) % 18446744073709551616).toNat

/-- An interval of whole numbers brought back into 32 bits, in two parts if it crosses a bound. -/
def wrapped (low high : Int) : List Interval :=
  if 2147483647 < low then [⟨.ofInt (low - 4294967296), .ofInt (high - 4294967296)⟩]
  else if high < -2147483648 then [⟨.ofInt (low + 4294967296), .ofInt (high + 4294967296)⟩]
  else if 2147483647 < high then
    [⟨.ofInt low, Int32.maxValue⟩, ⟨Int32.minValue, .ofInt (high - 4294967296)⟩]
  else if low < -2147483648 then
    [⟨.ofInt (low + 4294967296), Int32.maxValue⟩, ⟨Int32.minValue, .ofInt high⟩]
  else [⟨.ofInt low, .ofInt high⟩]

/-- An interval as text. -/
def text (interval : Interval) : String :=
  if interval.low = interval.high then toString interval.low.toInt
  else s!"{interval.low.toInt}..={interval.high.toInt}"

/-- Ordered intervals with those joined that overlap or touch. -/
def joinFrom (current : Interval) : List Interval → List Interval
  | [] => [current]
  | next :: rest =>
    if next.low.toInt ≤ current.high.toInt + 1 then
      let high := if current.high.toInt < next.high.toInt then next.high else current.high
      joinFrom ⟨current.low, high⟩ rest
    else current :: joinFrom next rest

/-- Intervals in order, with those joined that overlap or touch. -/
def normalized (intervals : List Interval) : List Interval :=
  match intervals.mergeSort le with
  | [] => []
  | first :: rest => joinFrom first rest

end Interval

/-- A set of values. -/
structure ValueSet where
  intervals : List Interval
deriving DecidableEq, Repr

namespace ValueSet

/-- No value. -/
def empty : ValueSet := ⟨[]⟩

/-- The values between two, in whatever order these are given. -/
def interval (a b : Int32) : ValueSet :=
  if a.toInt ≤ b.toInt then ⟨[⟨a, b⟩]⟩ else ⟨[⟨b, a⟩]⟩

/-- Every value. -/
def all : ValueSet := interval Int32.minValue Int32.maxValue

/-- One value. -/
def of (value : Int32) : ValueSet := interval value value

/-- The values of a list. -/
def ofList (values : List Int32) : ValueSet :=
  ⟨Interval.normalized (values.map fun value => ⟨value, value⟩)⟩

/-- Whether there is no interval. -/
def isEmpty (set : ValueSet) : Bool := set.intervals.isEmpty

/-- Whether the one interval holds every value. -/
def isAll (set : ValueSet) : Bool := set.intervals == [⟨Int32.minValue, Int32.maxValue⟩]

/-- How many values there are, in a 64-bit word.

The sum only wraps around the word for a reversed interval that is joined with others: all values
together are far fewer than fit. -/
def size (set : ValueSet) : Nat :=
  (set.intervals.map Interval.wordSize).foldr (· + ·) 0 % 18446744073709551616

/-- The low end of the first interval. -/
def min? (set : ValueSet) : Option Int32 := set.intervals.head?.map (·.low)

/-- The high end of the last interval. -/
def max? (set : ValueSet) : Option Int32 := set.intervals.getLast?.map (·.high)

/-- Whether a value is in the set. -/
def contains (set : ValueSet) (value : Int32) : Bool := set.intervals.any (·.contains value)

/-- The values, ascending. -/
def values (set : ValueSet) : List Int32 := set.intervals.flatMap Interval.values

/-- The first values of some intervals, `count` of them at most. -/
def firstOf (count : Nat) : List Interval → List Int32
  | [] => []
  | interval :: rest =>
    let here := min count interval.count
    interval.firstValues here ++ firstOf (count - here) rest

/-- The first values, `count` of them at most. -/
def firstValues (set : ValueSet) (count : Nat) : List Int32 := firstOf count set.intervals

/-- The values of either set. -/
def union (a b : ValueSet) : ValueSet := ⟨Interval.normalized (a.intervals ++ b.intervals)⟩

/-- Every value plus a number, modulo 2^32. -/
def add (set : ValueSet) (number : Int32) : ValueSet :=
  ⟨Interval.normalized (set.intervals.flatMap fun i =>
    Interval.wrapped (i.low.toInt + number.toInt) (i.high.toInt + number.toInt))⟩

/-- Every value minus a number, modulo 2^32. -/
def sub (set : ValueSet) (number : Int32) : ValueSet :=
  -- The least number is its own negative, and adding it is the same as subtracting it.
  set.add (-number)

/-- Sets with more values than this are multiplied by interval. -/
def exactLimit : Nat := 256

/-- The least and the greatest product of an interval's ends with a number. -/
def products (number : Int32) (interval : Interval) : Int × Int :=
  let a := interval.low.toInt * number.toInt
  let b := interval.high.toInt * number.toInt
  (min a b, max a b)

/-- Every value times a number, modulo 2^32; a large set yields the intervals that its products lie
in. -/
def mul (set : ValueSet) (number : Int32) : ValueSet :=
  if set.isEmpty then set
  else if set.size ≤ exactLimit then ofList (set.values.map (· * number))
  else
    let spans := set.intervals.map (products number)
    -- Products as far apart as this wrap around onto every value.
    if spans.any fun (low, high) => 4294967296 ≤ high - low then all
    else ⟨Interval.normalized (spans.flatMap fun (low, high) => Interval.wrapped low high)⟩

/-- The quotient of a value and a number without its fraction, or the nearest 32-bit value. -/
def quotient (value number : Int32) : Int32 :=
  .ofInt (max (-2147483648) (min (value.toInt.tdiv number.toInt) 2147483647))

/-- Every value divided by a number; by zero, every value there is. -/
def div (set : ValueSet) (number : Int32) : ValueSet :=
  if number = 0 then all
  else ⟨Interval.normalized (set.intervals.map fun i =>
    let a := quotient i.low number
    let b := quotient i.high number
    if a.toInt ≤ b.toInt then ⟨a, b⟩ else ⟨b, a⟩)⟩

/-- The values, unless there are more than `bound`. -/
def resolve? (set : ValueSet) (bound : Nat) : Option (List Int32) :=
  if set.size ≤ bound then some set.values else none

/-- The set as text. -/
def text (set : ValueSet) : String :=
  "\x7b" ++ ", ".intercalate (set.intervals.map Interval.text) ++ "\x7d"

end ValueSet

end QuestScript
