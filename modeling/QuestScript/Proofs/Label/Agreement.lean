import Mathlib.Data.List.Sort
import QuestScript.Proofs.Label

/-! The label index agrees with the label table.

An index keeps the places of a table in order, beside the position of each label and the labels at
each offset, and looks for the next place in halves. Every answer is the one that reading through
the whole table would give. -/

namespace QuestScript

namespace LabelTable

/-- The labels that a table puts at an offset, ascending. -/
def labelsAt (table : LabelTable) (offset : Nat) : List Label :=
  (List.range table.length).filter fun label => table.offset? label == some offset

variable {table : LabelTable} {label : Label} {offset : Nat}

/-- The labels at an offset are the ones that have it. -/
theorem mem_labelsAt : label ∈ table.labelsAt offset ↔ table.offset? label = some offset := by
  simp only [labelsAt, List.mem_filter, List.mem_range, beq_iff_eq, and_iff_right_iff_imp]
  -- A label that has an offset has a word of the table, so it is looked at.
  intro given
  obtain ⟨word, there, -⟩ := offset?_eq_some.mp given
  exact (List.getElem?_eq_some_iff.mp there).1

end LabelTable

namespace LabelIndex

/-- An index answers every question as the table would. -/
structure Agrees (index : LabelIndex) (table : LabelTable) : Prop where
  /-- The places are those of all labels that have one. -/
  mem_places (place : LabelPlace) :
    place ∈ index.places ↔ table.offset? place.label = some place.offset
  /-- No place is listed twice, and all are in order. -/
  ascending : index.places.Pairwise LabelPlace.Before
  /-- The labels at an offset are listed unless there are none. -/
  labelsAt? (offset : Nat) : index.labelsAt? offset =
    if table.labelsAt offset = [] then none else some (table.labelsAt offset)
  /-- A label is known if it has an offset. -/
  contains (label : Label) : index.contains label = (table.offset? label).isSome
  /-- The first place beyond an offset is the smallest one. -/
  firstAfter?_eq_some (offset : Nat) (place : LabelPlace) :
    index.firstAfter? offset = some place ↔ table.FirstBeyond offset place
  /-- There is none if no label is beyond the offset. -/
  firstAfter?_eq_none (offset : Nat) : index.firstAfter? offset = none ↔
    ∀ label other, table.offset? label = some other → other ≤ offset
  /-- A label with an offset has that, and the first place beyond it. -/
  info? (label : Label) : index.info? label =
    (table.offset? label).map fun offset => ⟨offset, index.firstAfter? offset⟩

variable {table : LabelTable} {label : Label} {offset : Nat}

/-- The labels at an offset ascend. -/
theorem pairwise_labelsOf : (labelsOf (ofTable table).places offset).Pairwise (· < ·) := by
  rw [labelsOf, List.pairwise_map]
  refine (pairwise_before.filter _).imp_of_mem fun {a b} first second before => ?_
  -- All places that are left are at the offset.
  have here : a.offset = offset := by simpa using (List.mem_filter.mp first).2
  have there : b.offset = offset := by simpa using (List.mem_filter.mp second).2
  rcases before with earlier | ⟨-, smaller⟩
  · omega
  · exact smaller

/-- The index lists the labels at an offset as the table does. -/
theorem labelsAt_ofTable : (ofTable table).labelsAt offset = table.labelsAt offset := by
  rw [filed_ofTable.group]
  -- Both lists are in the order of the labels, so it is enough that they have the same ones.
  have numbered : (table.labelsAt offset).Pairwise (· < ·) := List.pairwise_lt_range.filter _
  refine pairwise_labelsOf.eq_of_mem_iff numbered fun label => ?_
  rw [← filed_ofTable.group, mem_labelsAt, LabelTable.mem_labelsAt]

/-- The index lists the labels at an offset if there are any. -/
theorem labelsAt?_ofTable : (ofTable table).labelsAt? offset =
    if table.labelsAt offset = [] then none else some (table.labelsAt offset) := by
  have listed := @labelsAt_ofTable table offset
  cases found : (ofTable table).labelsAt? offset with
  | none =>
    rw [labelsAt, found, Option.getD_none] at listed
    rw [if_pos listed.symm]
  | some labels =>
    rw [labelsAt, found, Option.getD_some] at listed
    -- No offset is kept without a label.
    have occupied : labels ≠ [] := fun empty => filed_ofTable.occupied offset (empty ▸ found)
    rw [← listed, if_neg occupied]

/-- The index knows the labels that have an offset. -/
theorem contains_ofTable : (ofTable table).contains label = (table.offset? label).isSome := by
  -- A label is unknown if it has no position, which is if it has no offset.
  rw [contains, Bool.eq_iff_iff, Option.isSome_iff_ne_none, Option.isSome_iff_ne_none]
  exact not_congr lookup_positions_eq_none

/-- The index of a table agrees with it. -/
theorem ofTable_agrees (table : LabelTable) : (ofTable table).Agrees table where
  mem_places _ := mem_places
  ascending := pairwise_before
  labelsAt? _ := labelsAt?_ofTable
  contains _ := contains_ofTable
  firstAfter?_eq_some _ _ := firstAfter?_eq_some_iff
  firstAfter?_eq_none _ := firstAfter?_eq_none
  info? label := by rw [info?, offset?_ofTable]

-- The first place beyond two labels at one offset is at a greater one.
example : (ofTable [0, 10, 30, noOffset, 10]).labelsAt? 10 = some [1, 4] ∧
    (ofTable [0, 10, 30, noOffset, 10]).info? 1 = some ⟨10, some ⟨30, 2⟩⟩ ∧
    (ofTable [0, 10, 30, noOffset, 10]).info? 3 = none := by cbv

end LabelIndex

end QuestScript
