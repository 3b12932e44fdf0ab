import QuestScript.Number.Layout

/-! Numbers of 32 bits, kept as bit patterns so that no payload is lost. -/

namespace QuestScript

/-- A single-precision number. -/
structure Single where
  bits : UInt32
deriving DecidableEq, Repr

namespace Single

/-- What the number's bits stand for. -/
def value (number : Single) : BinaryValue := BinaryFormat.single.decode number.bits.toNat

/-- Zero. -/
def zero : Single := ⟨0⟩

/-- Numeric equality: both zeros are equal, and what is no number differs from everything. -/
def same (a b : Single) : Bool :=
  match BinaryFormat.single.key? a.bits.toNat, BinaryFormat.single.key? b.bits.toNat with
  | some a, some b => a == b
  | _, _ => false

/-- The number nearest a whole number. -/
def ofInt32 (value : Int32) : Single :=
  let magnitude := BinaryFormat.single.ofRatio value.toInt.natAbs 1
  ⟨.ofNat (BinaryFormat.single.withSign (value.toInt < 0) magnitude)⟩

/-- The whole number in a 32-bit word nearest the number with its fraction dropped, and zero for
what is no number. -/
def toInt32 (number : Single) : Int32 :=
  match number.value with
  | .nan => 0
  | .infinite negative => if negative then Int32.minValue else Int32.maxValue
  | .finite negative mantissa exponent =>
    let (scaled, unit) := scaleDown mantissa 1 (-exponent)
    let whole : Int := scaled / unit
    let whole := if negative then -whole else whole
    .ofInt (max (-2147483648) (min whole 2147483647))

/-- The number as a listing shows it. -/
def listingText (number : Single) : String := NumberLayout.listing.text .single number.value

/-- The number as a string argument holds it. -/
def plainText (number : Single) : String := NumberLayout.plain.text .single number.value

end Single

end QuestScript
