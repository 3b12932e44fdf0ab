/-! Binary floating-point formats: what a bit pattern stands for, and the pattern nearest a quotient. -/

namespace QuestScript

/-- The widths of a format's fraction and exponent fields. -/
structure BinaryFormat where
  fractionBits : Nat
  exponentBits : Nat
deriving DecidableEq, Repr

/-- The number a bit pattern stands for; a finite one is `mantissa * 2 ^ exponent`. -/
inductive BinaryValue where
  | nan
  | infinite (negative : Bool)
  | finite (negative : Bool) (mantissa : Nat) (exponent : Int)
deriving DecidableEq, Repr

/-- The whole number nearest a quotient; a half goes to the even neighbour. -/
def roundHalfEven (numerator denominator : Nat) : Nat :=
  let floor := numerator / denominator
  let twice := 2 * (numerator % denominator)
  if twice < denominator then floor
  else if denominator < twice then floor + 1
  else floor + floor % 2

/-- The quotient `numerator / (denominator * 2 ^ exponent)` as a pair of whole numbers. -/
def scaleDown (numerator denominator : Nat) (exponent : Int) : Nat × Nat :=
  if 0 ≤ exponent then (numerator, denominator <<< exponent.toNat)
  else (numerator <<< (-exponent).toNat, denominator)

namespace BinaryFormat

/-- Numbers of 32 bits. -/
def single : BinaryFormat := ⟨23, 8⟩

/-- Numbers of 64 bits. -/
def double : BinaryFormat := ⟨52, 11⟩

/-- The leading bit that normal numbers leave unwritten. -/
def hidden (format : BinaryFormat) : Nat := 1 <<< format.fractionBits

/-- The pattern of infinity; greater ones, up to the sign bit, are not numbers. -/
def infinity (format : BinaryFormat) : Nat := (1 <<< format.exponentBits - 1) * format.hidden

/-- The sign bit. -/
def sign (format : BinaryFormat) : Nat := 1 <<< (format.fractionBits + format.exponentBits)

/-- The exponent of the smallest positive number. -/
def leastExponent (format : BinaryFormat) : Int :=
  2 - (1 <<< (format.exponentBits - 1) : Nat) - format.fractionBits

/-- What a bit pattern stands for. -/
def decode (format : BinaryFormat) (bits : Nat) : BinaryValue :=
  let negative := format.sign ≤ bits
  let magnitude := bits % format.sign
  if format.infinity < magnitude then .nan
  else if magnitude = format.infinity then .infinite negative
  else
    let field := magnitude / format.hidden
    let fraction := magnitude % format.hidden
    -- The numbers below the first normal one have no leading bit and share its exponent.
    if field = 0 then .finite negative fraction format.leastExponent
    else .finite negative (format.hidden + fraction) (format.leastExponent + field - 1)

/-- The unsigned pattern nearest a quotient; a half goes to the even pattern. -/
def ofRatio (format : BinaryFormat) (numerator denominator : Nat) : Nat :=
  if numerator = 0 then 0
  else
    -- Scaled by this exponent, the quotient lies between a half and two leading bits.
    let guess : Int := numerator.log2 - denominator.log2 - format.fractionBits
    let (scaled, unit) := scaleDown numerator denominator guess
    let exponent := max (if scaled < format.hidden * unit then guess - 1 else guess)
      format.leastExponent
    let (scaled, unit) := scaleDown numerator denominator exponent
    -- A mantissa that rounds up to the next power of two carries into the exponent field.
    let bits := (exponent - format.leastExponent).toNat * format.hidden + roundHalfEven scaled unit
    min bits format.infinity

/-- The pattern of a number with the given sign. -/
def withSign (format : BinaryFormat) (negative : Bool) (magnitude : Nat) : Nat :=
  if negative then format.sign + magnitude else magnitude

/-- A whole number in the order of the numbers that patterns stand for; none for a pattern that is
no number. -/
def key? (format : BinaryFormat) (bits : Nat) : Option Int :=
  let magnitude := bits % format.sign
  if format.infinity < magnitude then none
  else if format.sign ≤ bits then some (-magnitude)
  else some magnitude

end BinaryFormat

end QuestScript
