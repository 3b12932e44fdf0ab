/-! Labels: the numbers by which a script refers to places in itself. -/

namespace QuestScript

/-- A label is its position in the label table, a number below 2^32: no table has more entries than
that. -/
abbrev Label := Nat

/-- The table word of a label that has no place. -/
def noOffset : UInt32 := 0xFFFFFFFF

/-- The offset of each label, or `noOffset`. -/
abbrev LabelTable := List UInt32

/-- A set of labels, ascending. -/
abbrev LabelSet := List Label

/-- A set of labels with one more in it. -/
def LabelSet.insert (labels : LabelSet) (label : Label) : LabelSet :=
  match labels with
  | [] => [label]
  | first :: rest =>
    if label < first then label :: first :: rest
    else if label = first then first :: rest
    else first :: LabelSet.insert rest label

/-- A set of labels with some more in it. -/
def LabelSet.union (labels : LabelSet) (more : List Label) : LabelSet :=
  more.foldl LabelSet.insert labels

/-- The set of the labels in a list. -/
def LabelSet.ofList (labels : List Label) : LabelSet := LabelSet.union [] labels

/-- A label and the offset it stands for. -/
structure LabelPlace where
  offset : Nat
  label : Label
deriving DecidableEq, Repr

/-- Places are ordered by offset, and by label at the same offset. -/
def LabelPlace.le (a b : LabelPlace) : Bool :=
  a.offset < b.offset || (a.offset == b.offset && a.label ≤ b.label)

/-- The place at which a search in halves ends: each step tests the item in the middle of what is
left, and goes on behind it if it passes and before it if not. -/
def partitionFrom (passes : α → Bool) (items : List α) : (steps low high : Nat) → Nat
  | 0, low, _ => low
  | steps + 1, low, high =>
    if low < high then
      let middle := (low + high) / 2
      if items[middle]?.any passes then partitionFrom passes items steps (middle + 1) high
      else partitionFrom passes items steps low middle
    else low

/-- The number of items that pass a test, where these stand in front of all others. -/
def partitionPoint (passes : α → Bool) (items : List α) : Nat :=
  partitionFrom passes items items.length 0 items.length

/-- The places of all labels that have one, and where to find them. -/
structure LabelIndex where
  /-- By offset, and by label at the same offset. -/
  places : List LabelPlace
  /-- The position of each label's place. -/
  positions : List (Label × Nat)
  /-- The labels at each offset, ascending. -/
  byOffset : List (Nat × List Label)
deriving DecidableEq, Repr

/-- What an index says of a label: its offset, and the first place beyond that. -/
structure LabelInfo where
  offset : Nat
  next : Option LabelPlace
deriving DecidableEq, Repr

namespace LabelIndex

/-- The place of the table word at a position, unless it stands for none. -/
def place? (entry : UInt32 × Nat) : Option LabelPlace :=
  if entry.1 = noOffset then none else some ⟨entry.1.toNat, entry.2⟩

/-- The labels by their offsets, with one more behind those at an offset. -/
def pushAt (offset : Nat) (label : Label) : List (Nat × List Label) → List (Nat × List Label)
  | [] => [(offset, [label])]
  | (other, labels) :: rest =>
    if other = offset then (other, labels ++ [label]) :: rest
    else (other, labels) :: pushAt offset label rest

/-- An index in which the place at a position can be found. -/
def enter (index : LabelIndex) (entry : LabelPlace × Nat) : LabelIndex :=
  { index with
    positions := (entry.1.label, entry.2) :: index.positions
    byOffset := pushAt entry.1.offset entry.1.label index.byOffset }

/-- The index of ordered places, entered one after the other. -/
def ofPlaces (places : List LabelPlace) : LabelIndex :=
  places.zipIdx.foldl enter ⟨places, [], []⟩

/-- The index of a label table. -/
def ofTable (table : LabelTable) : LabelIndex :=
  ofPlaces ((table.zipIdx.filterMap place?).mergeSort LabelPlace.le)

/-- Whether a label has a place. -/
def contains (index : LabelIndex) (label : Label) : Bool :=
  (index.positions.lookup label).isSome

/-- The offset of a label. -/
def offset? (index : LabelIndex) (label : Label) : Option Nat := do
  let position ← index.positions.lookup label
  let place ← index.places[position]?
  return place.offset

/-- The labels at an offset, ascending, if there are any. -/
def labelsAt? (index : LabelIndex) (offset : Nat) : Option (List Label) :=
  index.byOffset.lookup offset

/-- The labels at an offset, ascending. -/
def labelsAt (index : LabelIndex) (offset : Nat) : List Label :=
  (index.labelsAt? offset).getD []

/-- The first place beyond an offset. -/
def firstAfter? (index : LabelIndex) (offset : Nat) : Option LabelPlace :=
  index.places[partitionPoint (·.offset ≤ offset) index.places]?

/-- The offset of a label, and the first place beyond it. -/
def info? (index : LabelIndex) (label : Label) : Option LabelInfo :=
  (index.offset? label).map fun offset => ⟨offset, index.firstAfter? offset⟩

/-- The end of the range that starts at an offset: the next place, or the end of the script. -/
def rangeEnd (index : LabelIndex) (size offset : Nat) : Nat :=
  match index.firstAfter? offset with
  | some place => min place.offset size
  | none => size

end LabelIndex

end QuestScript
