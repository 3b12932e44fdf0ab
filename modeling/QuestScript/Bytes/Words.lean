/-! Little-endian words and the bytes that spell them. -/

namespace QuestScript

/-- The 16-bit word spelled by a low and a high byte. -/
def wordOfBytes (low high : UInt8) : UInt16 :=
  .ofNat (low.toNat + 256 * high.toNat)

/-- The two bytes of a 16-bit word, low byte first. -/
def wordBytes (word : UInt16) : List UInt8 :=
  [.ofNat word.toNat, .ofNat (word.toNat / 256)]

/-- The 32-bit word spelled by four bytes, lowest first. -/
def doubleWordOfBytes (a b c d : UInt8) : UInt32 :=
  .ofNat (a.toNat + 256 * b.toNat + 65536 * c.toNat + 16777216 * d.toNat)

/-- The four bytes of a 32-bit word, lowest first. -/
def doubleWordBytes (word : UInt32) : List UInt8 :=
  [.ofNat word.toNat, .ofNat (word.toNat / 256), .ofNat (word.toNat / 65536),
    .ofNat (word.toNat / 16777216)]

/-- The words spelled by consecutive pairs of bytes; an odd last byte spells none. -/
def wordsOfBytes : List UInt8 → List UInt16
  | low :: high :: rest => wordOfBytes low high :: wordsOfBytes rest
  | _ => []

end QuestScript
