/-! Hexadecimal digits, always in lower case. -/

namespace QuestScript

/-- The digits of a number in base sixteen, with zeros in front to make up `width` of them. -/
def hexDigits (width number : Nat) : String :=
  let digits := Nat.toDigits 16 number
  String.ofList (List.replicate (width - digits.length) '0' ++ digits)

/-- Bytes as pairs of digits with blanks between them. -/
def hexDump (bytes : List UInt8) : String :=
  " ".intercalate (bytes.map fun byte => hexDigits 2 byte.toNat)

end QuestScript
