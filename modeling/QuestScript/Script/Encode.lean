import QuestScript.Instruction.Encode
import QuestScript.Script

/-! Writing scripts as bytes and a label table. -/

namespace QuestScript

/-- A script as it is stored. -/
structure EncodedScript where
  bytes : List UInt8
  labels : LabelTable
deriving DecidableEq, Repr

namespace Segment

/-- The bytes of a segment. -/
def encode (width : CharWidth) (segment : Segment) : Except EncodeError (List UInt8) :=
  match segment.content with
  | .code instructions => do return (← instructions.mapM (·.encode width)).flatten
  | .data bytes => .ok bytes
  | .text value _ => .ok (width.field value (segment.size width))

/-- What is logged while instructions are written, up to one that cannot be. -/
def codeJournal (width : CharWidth) : List Instruction → Journal
  | [] => []
  | instruction :: rest =>
    match instruction.encode width with
    | .error _ => instruction.encodeJournal width
    | .ok _ => instruction.encodeJournal width ++ codeJournal width rest

/-- What is logged while a segment is written. -/
def encodeJournal (width : CharWidth) (segment : Segment) : Journal :=
  match segment.content with
  | .code instructions => codeJournal width instructions
  | _ => []

end Segment

/-- The table word of a label: where the last segment that carries it starts. -/
def placedAt (placed : List (LabelSet × Nat)) (label : Label) : UInt32 :=
  match placed.reverse.find? fun entry => entry.1.contains label with
  | some entry => .ofNat entry.2
  | none => noOffset

/-- The label table of sets of labels with their offsets; it ends with the greatest label. -/
def labelTable (placed : List (LabelSet × Nat)) : LabelTable :=
  let count := (placed.flatMap (·.1)).foldl (fun count label => max count (label + 1)) 0
  (List.range count).map (placedAt placed)

namespace Script

/-- The bytes and the label table of a script. -/
def encode (width : CharWidth) (script : Script) : Except EncodeError EncodedScript := do
  let pieces ← script.segments.mapM (·.encode width)
  let starts := startsFrom 0 (pieces.map List.length)
  return ⟨pieces.flatten, labelTable ((script.segments.map (·.labels)).zip starts)⟩

/-- What is logged while segments are written, up to one that cannot be. -/
def segmentsJournal (width : CharWidth) : List Segment → Journal
  | [] => []
  | segment :: rest =>
    match segment.encode width with
    | .error _ => segment.encodeJournal width
    | .ok _ => segment.encodeJournal width ++ segmentsJournal width rest

/-- What is logged while a script is written. -/
def encodeJournal (width : CharWidth) (script : Script) : Journal :=
  segmentsJournal width script.segments ++
    match script.encode width with
    | .error _ => []
    | .ok encoded =>
      [⟨.debug, .encoding,
        s!"Wrote {script.segments.length} segments, {encoded.bytes.length} bytes, " ++
          s!"{encoded.labels.length} label slots"⟩]

end Script

end QuestScript
