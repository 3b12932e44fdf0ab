import QuestScript.Segment

/-! Scripts: segments one after the other. -/

namespace QuestScript

/-- A script is the list of its segments. -/
structure Script where
  segments : List Segment
deriving DecidableEq, Repr

/-- Where parts of the given sizes start, the first of them at `start`. -/
def startsFrom : Nat → List Nat → List Nat
  | _, [] => []
  | start, size :: sizes => start :: startsFrom (start + size) sizes

namespace Script

/-- Bytes of a script. -/
def size (width : CharWidth) (script : Script) : Nat :=
  (script.segments.map (·.size width)).foldr (· + ·) 0

/-- The offset of each segment. -/
def offsets (width : CharWidth) (script : Script) : List Nat :=
  startsFrom 0 (script.segments.map (·.size width))

/-- Equality of segments. -/
def same (a b : Script) : Bool :=
  a.segments.length == b.segments.length &&
    (a.segments.zip b.segments).all fun (x, y) => x.same y

end Script

end QuestScript
