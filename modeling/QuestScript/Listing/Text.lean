import QuestScript.Script

/-! Scripts as assembly listings. -/

namespace QuestScript

/-- The line in front of segments of a kind. -/
def SegmentKind.marker : SegmentKind → String
  | code => ".code"
  | data => ".data"
  | text => ".string"

/-- Bytes on one line of a listing. -/
def bytesPerLine : Nat := 16

/-- Lists of at most `size + 1` elements that make up a list. -/
def chunks {α : Type} (size : Nat) (list : List α) : List (List α) :=
  match list with
  | [] => []
  | first :: rest => (first :: rest.take size) :: chunks size (rest.drop size)
termination_by list.length
decreasing_by simp only [List.length_drop, List.length_cons]; omega

/-- A line of a segment's content. -/
def contentLine (text : String) : String := "    " ++ text

/-- An instruction; what could not be decoded is marked. -/
def Instruction.listingLine (instruction : Instruction) : String :=
  if instruction.valid then contentLine instruction.listing
  else contentLine (instruction.opcode.mnemonic ++ " ; invalid")

/-- Bytes with a mark that they are hexadecimal. -/
def byteLine (bytes : List UInt8) : String :=
  contentLine (" ".intercalate (bytes.map fun byte => "0x" ++ hexDigits 2 byte.toNat))

/-- The lines of a content. -/
def Content.listingLines : Content → List String
  | code instructions => instructions.map (·.listingLine)
  | data bytes => (chunks (bytesPerLine - 1) bytes).map byteLine
  | text value _ => [contentLine (quoted value)]

/-- The lines of a segment that follows one of the given kind.

Its kind is announced where that changes, after an empty line if anything stands before it. -/
def Segment.listingLines (previous : Option SegmentKind) (segment : Segment) : List String :=
  let marker :=
    if previous = some segment.kind then []
    else (if previous.isSome then [""] else []) ++ [segment.kind.marker]
  marker ++ segment.labels.map (s!"{·}:") ++ segment.content.listingLines

/-- The lines of segments that follow one of the given kind. -/
def listingLines (previous : Option SegmentKind) : List Segment → List String
  | [] => []
  | segment :: rest => segment.listingLines previous ++ listingLines (some segment.kind) rest

/-- A script as a listing. -/
def Script.toListing (script : Script) : String :=
  String.join ((listingLines none script.segments).map (· ++ "\n"))

end QuestScript
