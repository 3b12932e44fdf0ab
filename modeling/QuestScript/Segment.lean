import QuestScript.Instruction
import QuestScript.Label

/-! Segments: the labelled ranges that a script is made of. -/

namespace QuestScript

/-- What a range of a script can be taken for. -/
inductive SegmentKind where
  | data
  | text
  | code
deriving DecidableEq, Repr

namespace SegmentKind

/-- The word for a kind. -/
def name : SegmentKind → String
  | data => "data"
  | text => "string"
  | code => "instructions"

/-- A request for a kind of higher priority wins over what a range was taken for. -/
def priority : SegmentKind → Nat
  | data => 0
  | text => 1
  | code => 2

end SegmentKind

/-- What a range of a script holds. -/
inductive Content where
  | code (instructions : List Instruction)
  | data (bytes : List UInt8)
  /-- A text, and the bytes it takes up if that is known. -/
  | text (value : String) (stored : Option Nat)
deriving DecidableEq, Repr

namespace Content

/-- The kind of a content. -/
def kind : Content → SegmentKind
  | code _ => .code
  | data _ => .data
  | text _ _ => .text

/-- Bytes of a content. -/
def size (width : CharWidth) : Content → Nat
  | code instructions => (instructions.map (·.size width)).foldr (· + ·) 0
  | data bytes => bytes.length
  | text value stored => stored.getD (width.paddedSize value)

/-- Equality of values. -/
def same : Content → Content → Bool
  | code a, code b => a.length == b.length && (a.zip b).all fun (x, y) => x.same y
  | data a, data b => a == b
  | text a m, text b n => a == b && m == n
  | _, _ => false

end Content

/-- A range of a script with the labels that point at its start. -/
structure Segment where
  labels : LabelSet
  content : Content
deriving DecidableEq, Repr

namespace Segment

/-- The kind of a segment. -/
def kind (segment : Segment) : SegmentKind := segment.content.kind

/-- Bytes of a segment. -/
def size (width : CharWidth) (segment : Segment) : Nat := segment.content.size width

/-- The segment with one more label. -/
def addLabel (segment : Segment) (label : Label) : Segment :=
  { segment with labels := segment.labels.insert label }

/-- The segment with some more labels. -/
def addLabels (segment : Segment) (labels : List Label) : Segment :=
  { segment with labels := segment.labels.union labels }

/-- Equality of labels and values. -/
def same (a b : Segment) : Bool := a.labels == b.labels && a.content.same b.content

end Segment

end QuestScript
