import QuestScript.Csv
import QuestScript.Listing.Json

/-! Scripts as tables, with a row for each instruction and each other segment. -/

namespace QuestScript

/-- The names of the columns. -/
def csvHeader : List String :=
  ["segment", "segment_type", "labels", "offset", "size", "mnemonic", "operands"]

/-- A row of a segment with the given number and kind. -/
def csvRow (number : Nat) (kind : SegmentKind) (labels : LabelSet) (offset size : Nat)
    (mnemonic operands : String) : List String :=
  [toString number, kind.name, " ".intercalate (labels.map toString), toString offset,
    toString size, mnemonic, operands]

/-- The rows of instructions; only the first has the labels. -/
def codeRows (width : CharWidth) (number : Nat) (labels : LabelSet) :
    List (Nat × Instruction) → List (List String)
  | [] => []
  | (offset, instruction) :: rest =>
    csvRow number .code labels offset (instruction.size width) instruction.opcode.mnemonic
      instruction.operandText :: codeRows width number [] rest

/-- The rows of a segment at an offset. -/
def Segment.csvRows (width : CharWidth) (number offset : Nat) (segment : Segment) :
    List (List String) :=
  let whole := csvRow number segment.kind segment.labels offset (segment.size width) ""
  match segment.content with
  | .code instructions =>
    codeRows width number segment.labels (placedInstructions width offset instructions)
  | .data bytes => [whole (hexDump bytes)]
  | .text value _ => [whole value]

/-- The rows of a script. -/
def Script.csvRows (width : CharWidth) (script : Script) : List (List String) :=
  ((script.offsets width).zip script.segments).zipIdx.flatMap
    fun ((offset, segment), number) => segment.csvRows width number offset

/-- A script as a table. -/
def Script.toCsv (width : CharWidth) (script : Script) : String :=
  Csv.tableText (csvHeader :: script.csvRows width)

end QuestScript
