import QuestScript.Text.Width

/-! Reading words and strings from the front of a range of bytes. -/

namespace QuestScript

/-- Why bytes could not be read as an instruction. -/
inductive DecodeError where
  /-- Fewer bytes were left than a value needs. -/
  | truncated (offset needed available : Nat)
  /-- A wide string holds a surrogate without its partner. -/
  | invalidUtf16 (offset : Nat)
  /-- A parameter of this type has no spelling in bytes. -/
  | unsupportedParam (mnemonic type : String)
deriving DecidableEq, Repr

/-- What a decoding error says. -/
def DecodeError.message : DecodeError → String
  | truncated offset needed available =>
    s!"Truncated input at offset {offset}: needed {needed} bytes, {available} available"
  | invalidUtf16 offset => s!"Invalid UTF-16 string at offset {offset}"
  | unsupportedParam mnemonic type => s!"Parameter type {type} of {mnemonic} can't be decoded"

/-- A place in a script, with the bytes from there to the end of the range being read. -/
structure Reader where
  position : Nat
  rest : List UInt8
deriving DecidableEq, Repr

/-- Reading steps; a step that fails says where the reader was left. -/
abbrev Decoding := EStateM DecodeError Reader

namespace Reader

/-- A reader at `start` that stops at `stop`; both are moved inside the data. -/
def within (data : List UInt8) (start stop : Nat) : Reader :=
  let stop := min stop data.length
  let start := min start stop
  ⟨start, (data.take stop).drop start⟩

/-- A reader of all the data. -/
def ofBytes (data : List UInt8) : Reader := ⟨0, data⟩

/-- The position at which a reader runs out of bytes. -/
def stop (reader : Reader) : Nat := reader.position + reader.rest.length

/-- The reader `count` bytes further on. -/
def skip (reader : Reader) (count : Nat) : Reader :=
  ⟨reader.position + count, reader.rest.drop count⟩

/-- The first `count` bytes and the others, unless there are too few. -/
def splitExact : Nat → List UInt8 → Option (List UInt8 × List UInt8)
  | 0, rest => some ([], rest)
  | _ + 1, [] => none
  | count + 1, byte :: rest =>
    (splitExact count rest).map fun (taken, left) => (byte :: taken, left)

/-- The next `count` bytes; nothing is read when there are too few. -/
def take (count : Nat) : Decoding (List UInt8) := fun reader =>
  match splitExact count reader.rest with
  | some (taken, rest) => .ok taken ⟨reader.position + count, rest⟩
  | none => .error (.truncated reader.position count reader.rest.length) reader

/-- The next byte. -/
def u8 : Decoding UInt8 := fun reader =>
  match reader.rest with
  | byte :: rest => .ok byte ⟨reader.position + 1, rest⟩
  | [] => .error (.truncated reader.position 1 0) reader

/-- The next 16-bit word. -/
def u16 : Decoding UInt16 := fun reader =>
  match reader.rest with
  | low :: high :: rest => .ok (wordOfBytes low high) ⟨reader.position + 2, rest⟩
  | short => .error (.truncated reader.position 2 short.length) reader

/-- The next 32-bit word. -/
def u32 : Decoding UInt32 := fun reader =>
  match reader.rest with
  | a :: b :: c :: d :: rest => .ok (doubleWordOfBytes a b c d) ⟨reader.position + 4, rest⟩
  | short => .error (.truncated reader.position 4 short.length) reader

/-- The next `count` 16-bit words. -/
def u16s (count : Nat) : Decoding (List UInt16) := do
  return wordsOfBytes (← take (2 * count))

/-- A string of at most `limit` bytes that ends at the first zero unit.

The reader stops after the terminator, or after the whole span when `whole` is set. It has moved
also when the units spell no text. -/
def string (width : CharWidth) (limit : Nat) (whole : Bool) : Decoding String := fun reader =>
  let span := reader.rest.take limit
  let units := width.unitsOfBytes span
  let body := units.takeWhile (· != 0)
  -- A terminator is read with the text if the span holds one.
  let read := min (body.length + 1) units.length
  let used := if whole then span.length else width.unitSize * read
  match width.text? body with
  | some text => .ok text (reader.skip used)
  | none => .error (.invalidUtf16 reader.position) (reader.skip used)

end Reader

end QuestScript
