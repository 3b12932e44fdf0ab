import QuestScript.Toml.Token

/-! Numbers, dates and times in TOML documents. -/

namespace QuestScript.Toml

/-- Digits of a class, with single underscores between them. -/
def digits (isIn : Char → Bool) : Scan (List Char) := do
  let first ← Scan.char isIn
  let others ← Scan.many (Scan.char isIn <|> (do Scan.word "_"; Scan.char isIn))
  return first :: others

/-- A sign, if there is one; the result says whether it is a minus. -/
def sign : Scan Bool := do
  return (← Scan.optional (Scan.char fun c => c == '+' || c == '-')) == some '-'

/-- Decimal digits of which the first is zero only if it is the last. -/
def wholeDigits : Scan (List Char) :=
  (do Scan.word "0"; return ['0']) <|> digits Char.isDigit

/-- Whole numbers have 64 bits. -/
def integerItem (value : Int) : Scan Item :=
  if -0x8000000000000000 ≤ value ∧ value < 0x8000000000000000 then return .integer value
  else failure

/-- A number with a mark of its base. -/
def basedInteger (mark : String) (base : Nat) (isIn : Char → Bool) : Scan Item := do
  Scan.word mark
  integerItem (natOfDigits base (← digits isIn))

/-- A decimal whole number. -/
def decimalInteger : Scan Item := do
  let negative ← sign
  let magnitude : Int := natOfDigits 10 (← wholeDigits)
  integerItem (if negative then -magnitude else magnitude)

/-- A whole number. -/
def integer : Scan Item :=
  basedInteger "0x" 16 isHexDigit <|> basedInteger "0o" 8 (fun c => '0' ≤ c && c ≤ '7') <|>
    basedInteger "0b" 2 (fun c => c == '0' || c == '1') <|> decimalInteger

/-- An exponent of ten. -/
def exponent : Scan Int := do
  discard (Scan.char fun c => c == 'e' || c == 'E')
  let negative ← sign
  let magnitude : Int := natOfDigits 10 (← digits Char.isDigit)
  return if negative then -magnitude else magnitude

/-- Digits after a point. -/
def fraction : Scan (List Char) := do
  Scan.word "."
  digits Char.isDigit

/-- A number with a fraction, an exponent, or both; it may not be too great. -/
def decimalFloat : Scan Item := do
  let negative ← sign
  let front ← wholeDigits
  let back ← Scan.optional fraction
  let power ← Scan.optional exponent
  if back.isNone && power.isNone then failure
  let places := back.getD []
  let value := Double.ofDecimal negative (natOfDigits 10 (front ++ places))
    (power.getD 0 - places.length)
  if value = Double.infinity false then failure else return .float value

/-- A number by name. -/
def namedFloat : Scan Item := do
  let negative ← sign
  (do Scan.word "inf"; return .float (Double.infinity negative)) <|>
    (do Scan.word "nan"; return .float Double.nan)

/-- A number of two digits within bounds. -/
def twoDigits (low high : Nat) : Scan Nat := do
  let number := natOfDigits 10 (← exactly Char.isDigit 2)
  if low ≤ number ∧ number ≤ high then return number else failure

/-- Days of a month. -/
def daysInMonth (year month : Nat) : Nat :=
  let leap := year % 4 == 0 && (year % 100 != 0 || year % 400 == 0)
  if month = 2 then (if leap then 29 else 28) else if month ∈ [4, 6, 9, 11] then 30 else 31

/-- A date. -/
def date : Scan Unit := do
  let year := natOfDigits 10 (← exactly Char.isDigit 4)
  Scan.word "-"
  let month ← twoDigits 1 12
  Scan.word "-"
  discard (twoDigits 1 (daysInMonth year month))

/-- A time of day. -/
def time : Scan Unit := do
  discard (twoDigits 0 23)
  Scan.word ":"
  discard (twoDigits 0 59)
  Scan.word ":"
  -- A minute can have a leap second.
  discard (twoDigits 0 60)
  discard (Scan.optional do
    Scan.word "."
    discard (Scan.char Char.isDigit)
    discard (Scan.span Char.isDigit))

/-- The distance of a time from the universal one. -/
def timeOffset : Scan Unit :=
  (do discard (Scan.char fun c => c == 'Z' || c == 'z')) <|> do
    discard (Scan.char fun c => c == '+' || c == '-')
    discard (twoDigits 0 23)
    Scan.word ":"
    discard (twoDigits 0 59)

/-- A date, a time, or both. -/
def moment : Scan Item := do
  let dated : Scan Unit := do
    date
    discard (Scan.optional do
      discard (Scan.char fun c => c == 'T' || c == 't' || c == ' ')
      time
      discard (Scan.optional timeOffset))
  dated <|> time
  return .moment

/-- A number or a date; the longer forms come first. -/
def number : Scan Item := moment <|> decimalFloat <|> namedFloat <|> integer

end QuestScript.Toml
