import QuestScript.Json
import QuestScript.Script

/-! Scripts as JSON, as one value or with a line for each segment. -/

namespace QuestScript

/-- An argument as JSON; a floating-point number is written in double precision. -/
def Arg.toJson : Arg → Json
  | int value => .int value.toInt
  | float value => .double (.ofSingle value)
  | string text => .string text

/-- An instruction at an offset as JSON. -/
def Instruction.toJson (offset : Nat) (instruction : Instruction) : Json :=
  .object [
    ("offset", .int offset),
    ("opcode", .string ("0x" ++ hexDigits 2 instruction.opcode.code.toNat)),
    ("mnemonic", .string instruction.opcode.mnemonic),
    ("args", .array (instruction.args.map Arg.toJson)),
    ("valid", .bool instruction.valid)]

/-- Instructions, with the offsets they have when the first one is at `start`. -/
def placedInstructions (width : CharWidth) (start : Nat) (instructions : List Instruction) :
    List (Nat × Instruction) :=
  (startsFrom start (instructions.map (·.size width))).zip instructions

/-- The field for a content at an offset. -/
def Content.toJsonField (width : CharWidth) (offset : Nat) : Content → String × Json
  | code instructions =>
    ("instructions", .array ((placedInstructions width offset instructions).map fun (start, it) =>
      it.toJson start))
  | data bytes => ("data", .string (hexDump bytes))
  | text value _ => ("value", .string value)

/-- A segment at an offset as JSON. -/
def Segment.toJson (width : CharWidth) (offset : Nat) (segment : Segment) : Json :=
  .object [
    ("offset", .int offset),
    ("type", .string segment.kind.name),
    ("labels", .array (segment.labels.map fun (label : Nat) => .int label)),
    ("size", .int (segment.size width)),
    segment.content.toJsonField width offset]

/-- The segments of a script as JSON. -/
def Script.segmentsToJson (width : CharWidth) (script : Script) : List Json :=
  ((script.offsets width).zip script.segments).map fun (offset, segment) =>
    segment.toJson width offset

/-- A script as JSON. -/
def Script.toJson (width : CharWidth) (script : Script) : Json :=
  .object [
    ("width", .string width.name),
    ("size", .int (script.size width)),
    ("segments", .array (script.segmentsToJson width))]

/-- A script as lines of JSON. -/
def Script.toJsonLines (width : CharWidth) (script : Script) : String :=
  String.join ((script.segmentsToJson width).map fun segment => segment.sorted.compact ++ "\n")

end QuestScript
