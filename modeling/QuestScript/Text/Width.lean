import QuestScript.Bytes.Words
import QuestScript.Text.Utf16

/-! Strings in one-byte and two-byte units, as scripts store them. -/

namespace QuestScript

/-- The size of the units that a script's strings are made of. -/
inductive CharWidth where
  /-- One byte for each character. -/
  | narrow
  /-- UTF-16, two bytes for each unit. -/
  | wide
deriving DecidableEq, Repr, Inhabited

namespace CharWidth

/-- The word that names a width in options and listings. -/
def name : CharWidth → String
  | narrow => "narrow"
  | wide => "wide"

/-- Bytes in one unit. -/
def unitSize : CharWidth → Nat
  | narrow => 1
  | wide => 2

/-- The unit of a character in narrow strings, which hold only the first 256 characters. -/
def narrowUnit (c : Char) : UInt16 :=
  if c.toNat ≤ 0xFF then .ofNat c.toNat else .ofNat '?'.toNat

/-- The units of a text. -/
def units : CharWidth → String → List UInt16
  | narrow, text => text.toList.map narrowUnit
  | wide, text => Utf16.encode text.toList

/-- The text of some units; only wide units can fail to spell one. -/
def text? : CharWidth → List UInt16 → Option String
  | narrow, units => some (String.ofList (units.map fun unit => Char.ofNat (unit.toNat % 256)))
  | wide, units => (Utf16.decode units).map String.ofList

/-- The bytes of one unit. -/
def unitBytes : CharWidth → UInt16 → List UInt8
  | narrow, unit => [.ofNat unit.toNat]
  | wide, unit => wordBytes unit

/-- The whole units at the front of some bytes. -/
def unitsOfBytes : CharWidth → List UInt8 → List UInt16
  | narrow, bytes => bytes.map fun byte => .ofNat byte.toNat
  | wide, bytes => wordsOfBytes bytes

/-- A text in exactly `size` bytes: units that do not fit are cut, and zeros fill what is left. -/
def field (width : CharWidth) (text : String) (size : Nat) : List UInt8 :=
  let body := ((width.units text).take (size / width.unitSize)).flatMap width.unitBytes
  body ++ List.replicate (size - body.length) 0

/-- Bytes of a text with its terminator. -/
def terminatedSize (width : CharWidth) (text : String) : Nat :=
  width.unitSize * (width.units text).length + width.unitSize

/-- Bytes of a text with its terminator, filled up to a multiple of four. -/
def paddedSize (width : CharWidth) (text : String) : Nat :=
  4 * ((width.terminatedSize text + 3) / 4)

end CharWidth

end QuestScript
