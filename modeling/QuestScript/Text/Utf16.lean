/-! Characters as UTF-16 units, and back. -/

namespace QuestScript.Utf16

/-- Units that open a surrogate pair. -/
def isHigh (unit : UInt16) : Bool := 0xD800 ≤ unit.toNat && unit.toNat < 0xDC00

/-- Units that close a surrogate pair. -/
def isLow (unit : UInt16) : Bool := 0xDC00 ≤ unit.toNat && unit.toNat < 0xE000

/-- One unit for a character of the basic plane, a surrogate pair for any other. -/
def encodeChar (c : Char) : List UInt16 :=
  if c.toNat < 0x10000 then [.ofNat c.toNat]
  else
    let index := c.toNat - 0x10000
    [.ofNat (0xD800 + index / 0x400), .ofNat (0xDC00 + index % 0x400)]

/-- The units of a text. -/
def encode (text : List Char) : List UInt16 := text.flatMap encodeChar

/-- The character of a surrogate pair. -/
def pairChar (high low : UInt16) : Char :=
  Char.ofNat (0x10000 + (high.toNat - 0xD800) * 0x400 + (low.toNat - 0xDC00))

/-- The text of some units, unless a surrogate stands without its partner. -/
def decode : List UInt16 → Option (List Char)
  | [] => some []
  | unit :: rest =>
    if isLow unit then none
    else if isHigh unit then
      match rest with
      | low :: rest => if isLow low then (decode rest).map (pairChar unit low :: ·) else none
      | [] => none
    else (decode rest).map (Char.ofNat unit.toNat :: ·)

end QuestScript.Utf16
