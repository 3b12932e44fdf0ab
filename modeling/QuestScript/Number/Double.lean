import QuestScript.Number.Single

/-! Numbers of 64 bits, for ratios and their limits. -/

namespace QuestScript

/-- A double-precision number. -/
structure Double where
  bits : UInt64
deriving DecidableEq, Repr

namespace Double

/-- What the number's bits stand for. -/
def value (number : Double) : BinaryValue := BinaryFormat.double.decode number.bits.toNat

/-- The number's place in the numeric order, none for what is no number. -/
def key? (number : Double) : Option Int := BinaryFormat.double.key? number.bits.toNat

/-- Whether `a` is less than `b`; false when either is no number. -/
def lt (a b : Double) : Bool :=
  match a.key?, b.key? with
  | some a, some b => a < b
  | _, _ => false

/-- Whether `a` is at most `b`; false when either is no number. -/
def le (a b : Double) : Bool :=
  match a.key?, b.key? with
  | some a, some b => a ≤ b
  | _, _ => false

/-- Numeric equality: both zeros are equal, and what is no number differs from everything. -/
def same (a b : Double) : Bool :=
  match a.key?, b.key? with
  | some a, some b => a == b
  | _, _ => false

/-- A pattern with the given sign. -/
def ofMagnitude (negative : Bool) (magnitude : Nat) : Double :=
  ⟨.ofNat (BinaryFormat.double.withSign negative magnitude)⟩

/-- The infinity of a sign. -/
def infinity (negative : Bool) : Double := ofMagnitude negative BinaryFormat.double.infinity

/-- The pattern that is no number. -/
def nan : Double := ofMagnitude false (BinaryFormat.double.infinity + BinaryFormat.double.hidden / 2)

/-- The number nearest a quotient. -/
def ofRatio (numerator denominator : Nat) : Double :=
  ofMagnitude false (BinaryFormat.double.ofRatio numerator denominator)

/-- The number nearest a whole number. -/
def ofInt (whole : Int) : Double :=
  ofMagnitude (whole < 0) (BinaryFormat.double.ofRatio whole.natAbs 1)

/-- The number nearest the decimal `digits * 10 ^ exponent`. -/
def ofDecimal (negative : Bool) (digits : Nat) (exponent : Int) : Double :=
  -- Outside these bounds the result is infinite or zero, and the power of ten would be enormous.
  let size := (digitChars digits).length + exponent
  let magnitude :=
    if digits = 0 ∨ size < -400 then 0
    else if 400 < size then BinaryFormat.double.infinity
    else if 0 ≤ exponent then BinaryFormat.double.ofRatio (digits * Nat.pow 10 exponent.toNat) 1
    else BinaryFormat.double.ofRatio digits (Nat.pow 10 (-exponent).toNat)
  ofMagnitude negative magnitude

/-- A single-precision number, which a double holds exactly. -/
def ofSingle (number : Single) : Double :=
  match number.value with
  | .nan => nan
  | .infinite negative => infinity negative
  | .finite negative mantissa exponent =>
    let (scaled, unit) := scaleDown mantissa 1 (-exponent)
    ofMagnitude negative (BinaryFormat.double.ofRatio scaled unit)

/-- A hundred times a number that is not negative. -/
def percent (number : Double) : Double :=
  match number.value with
  | .finite _ mantissa exponent =>
    let (scaled, unit) := scaleDown (100 * mantissa) 1 (-exponent)
    ofRatio scaled unit
  | _ => number

/-- A number that is not negative, rounded to one decimal place; a half goes to the even digit. -/
def oneDecimal (number : Double) : String :=
  match number.value with
  | .finite _ mantissa exponent =>
    let (scaled, unit) := scaleDown (10 * mantissa) 1 (-exponent)
    let tenths := roundHalfEven scaled unit
    s!"{tenths / 10}.{tenths % 10}"
  | value => NumberLayout.plain.text .double value

/-- The number as a message shows it. -/
def plainText (number : Double) : String := NumberLayout.plain.text .double number.value

/-- The number as JSON holds it; JSON has no word for what is not finite. -/
def jsonText (number : Double) : String :=
  match number.value with
  | .finite negative mantissa exponent =>
    NumberLayout.json.finite .double negative mantissa exponent
  | _ => "null"

end Double

end QuestScript
