import QuestScript.Number.Shortest

/-! Decimal digits laid out as text. -/

namespace QuestScript

/-- The decimal digits of a whole number. -/
def digitChars (number : Nat) : List Char := Nat.toDigits 10 number

/-- How floating-point numbers are written. -/
structure NumberLayout where
  /-- The exponents of the first digit that are written with powers of ten. -/
  scientific : Int → Bool
  /-- Whether whole numbers end in `.0`. -/
  pointZero : Bool
  /-- Whether exponents above zero have a plus sign. -/
  plusSign : Bool
  /-- The decimal taken of two equally near ones. -/
  tie : TieRule

namespace NumberLayout

/-- Numbers in listings: positional from 1e-4 to below 1e16, and never without a point there. -/
def listing : NumberLayout :=
  { scientific := fun exponent => exponent < -4 || 16 ≤ exponent
    pointZero := true, plusSign := false, tie := .up }

/-- Numbers in messages and in place of strings: always positional, as short as can be. -/
def plain : NumberLayout :=
  { scientific := fun _ => false, pointZero := false, plusSign := false, tie := .up }

/-- Numbers in JSON: positional from 1e-5 to below 1e16, and never without a point there. -/
def json : NumberLayout :=
  { scientific := fun exponent => exponent < -5 || 16 ≤ exponent
    pointZero := true, plusSign := true, tie := .even }

/-- Digits with the point after the first `point` of them. -/
def positional (layout : NumberLayout) (digits : List Char) (point : Int) : List Char :=
  if point ≤ 0 then '0' :: '.' :: List.replicate (-point).toNat '0' ++ digits
  else if digits.length ≤ point.toNat then
    digits ++ List.replicate (point.toNat - digits.length) '0'
      ++ (if layout.pointZero then ['.', '0'] else [])
  else digits.take point.toNat ++ '.' :: digits.drop point.toNat

/-- Digits with the point after the first of them, and the power of ten that makes up for it. -/
def powerOfTen (layout : NumberLayout) (digits : List Char) (exponent : Int) : List Char :=
  let mantissa := match digits with
    | first :: second :: rest => first :: '.' :: second :: rest
    | short => short
  let mark := if exponent < 0 then ['-'] else if layout.plusSign then ['+'] else []
  mantissa ++ 'e' :: mark ++ digitChars exponent.natAbs

/-- A positive decimal number as text. -/
def decimal (layout : NumberLayout) (number : Decimal) : List Char :=
  let digits := digitChars number.digits
  let point := digits.length + number.exponent
  -- Zeros at the end only say where the point is.
  let significant := (digits.reverse.dropWhile (· == '0')).reverse
  if layout.scientific (point - 1) then layout.powerOfTen significant (point - 1)
  else layout.positional significant point

/-- A finite number as text. -/
def finite (layout : NumberLayout) (format : BinaryFormat) (negative : Bool) (mantissa : Nat)
    (exponent : Int) : String :=
  let body :=
    if mantissa = 0 then (if layout.pointZero then ['0', '.', '0'] else ['0'])
    else layout.decimal (shortestDecimal format layout.tie mantissa exponent)
  String.ofList (if negative then '-' :: body else body)

/-- A number as text, with words for those that are not finite. -/
def text (layout : NumberLayout) (format : BinaryFormat) : BinaryValue → String
  | .nan => "NaN"
  | .infinite false => "inf"
  | .infinite true => "-inf"
  | .finite negative mantissa exponent => layout.finite format negative mantissa exponent

end NumberLayout

end QuestScript
