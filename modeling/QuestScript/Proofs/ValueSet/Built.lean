import Mathlib
import QuestScript.Proofs.ValueSet.Arithmetic

/-! Sets that are made by any number of operations, products apart: they are canonical, and every
operation has exactly the values that it should have. -/

namespace QuestScript

namespace ValueSet

/-- A set that is made by operations other than products. -/
inductive Built : ValueSet → Prop where
  | empty : Built .empty
  | all : Built .all
  | of (value : Int32) : Built (.of value)
  | interval (a b : Int32) : Built (.interval a b)
  | ofList (values : List Int32) : Built (.ofList values)
  | union {set other : ValueSet} (first : Built set) (second : Built other) :
    Built (set.union other)
  | add {set : ValueSet} (built : Built set) (number : Int32) : Built (set.add number)
  | sub {set : ValueSet} (built : Built set) (number : Int32) : Built (set.sub number)
  | div {set : ValueSet} (built : Built set) (number : Int32) : Built (set.div number)

/-- What the operations make of a set, and of it and another one. -/
structure OperatesExactly (set other : ValueSet) : Prop where
  /-- The intervals ascend, each has a value, and no two of them overlap or touch. -/
  canonical : set.Canonical
  /-- A union has the values of both sets. -/
  union (value : Int32) :
    (set.union other).contains value = true ↔
      set.contains value = true ∨ other.contains value = true
  /-- A number is added to each value, modulo 2^32. -/
  add (number value : Int32) :
    (set.add number).contains value = true ↔
      ∃ before, set.contains before = true ∧ value = .ofInt (before.toInt + number.toInt)
  /-- A number is subtracted from each value, modulo 2^32. -/
  sub (number value : Int32) :
    (set.sub number).contains value = true ↔
      ∃ before, set.contains before = true ∧ value = .ofInt (before.toInt - number.toInt)
  /-- Each value is divided by a number; the quotient loses its fraction, and is kept within 32
  bits. -/
  div (number value : Int32) (nonzero : number ≠ 0) :
    (set.div number).contains value = true ↔
      ∃ before, set.contains before = true ∧
        value.toInt = max (-2147483648) (min (before.toInt.tdiv number.toInt) 2147483647)
  /-- Divided by zero, a value may become any other. -/
  div_zero : set.div 0 = .all

variable {set other : ValueSet}

/-- Sets that are made by operations are canonical. -/
theorem Built.canonical (built : set.Built) : set.Canonical := by
  -- Each operation brings its intervals into the canonical form, whatever came before.
  induction built with
  | empty => exact canonical_empty
  | all => exact canonical_all
  | of value => exact canonical_of value
  | interval a b => exact canonical_interval a b
  | ofList values => exact canonical_ofList values
  | union _ _ first second => exact first.union second
  | add _ number canonical => exact canonical.add number
  | sub _ number canonical => exact canonical.sub number
  | div _ number _ => exact canonical_div _ number

/-- The operations do to sets that are made by them what they should do to each of their values. -/
theorem Built.operatesExactly (built : set.Built) (other : ValueSet) :
    set.OperatesExactly other where
  canonical := built.canonical
  union value := contains_union
  add number value := by
    rw [built.canonical.contains_add]
    simp only [Int32.ofInt_add, Int32.ofInt_toInt]
  sub number value := by
    rw [built.canonical.contains_sub]
    simp only [Int32.ofInt_sub, Int32.ofInt_toInt]
  div number value nonzero := by
    rw [built.canonical.contains_div_iff nonzero]
    refine exists_congr fun before => and_congr_right fun _ => ?_
    -- Words are the same if their numbers are.
    rw [← Int32.toInt_inj, toInt_quotient]
  div_zero := if_pos rfl

/-- Values that are moved beyond the greatest one, so that they are at both ends of the words, and a
list of values divided by two. -/
theorem operatesExactly_wrapped :
    ((interval 2147483640 2147483647).add 3).Built ∧
      ((interval 2147483640 2147483647).add 3).OperatesExactly ((ofList [-3, 8, 5]).div 2) :=
  ⟨.add (.interval _ _) 3, Built.operatesExactly (.add (.interval _ _) 3) _⟩

end ValueSet

end QuestScript
