import QuestScript.Proofs.ValueSet.Values

/-! Products of a set with a number. Those of a large set are followed by interval, and are only all
there if no interval is torn apart, or if the others make up for it. -/

namespace QuestScript

namespace Interval

variable {low high : Int} {value : Int32}

/-- A range of numbers brought back into 32 bits covers the words of its numbers, and none at all if
it is torn. -/
theorem covers_wrapped_iff (ordered : low ≤ high) (narrow : high - low < 4294967296) :
    Covers (wrapped low high) value.toInt ↔
      ¬Torn low high ∧ ∃ number, low ≤ number ∧ number ≤ high ∧ value = .ofInt number := by
  by_cases torn : Torn low high
  · -- A torn range becomes one interval, which ends before it starts.
    obtain ⟨parts, stop⟩ := wrapped_of_torn ordered narrow torn
    simp only [parts, covers_cons, covers_nil, or_false, torn, not_true_eq_false, false_and,
      iff_false]
    omega
  · rw [covers_wrapped ordered narrow torn, and_iff_right torn]

/-- The word before that of a number is the word of the number before, unless it is the least
one. -/
theorem toInt_ofInt_pred (above : -2147483648 < (Int32.ofInt low).toInt) :
    (Int32.ofInt (low - 1)).toInt = (Int32.ofInt low).toInt - 1 := by
  obtain ⟨turn, word⟩ := exists_turn low
  obtain ⟨other, before⟩ := exists_turn (low - 1)
  have least := int32_bounds (.ofInt (low - 1))
  have greatest := int32_bounds (.ofInt low)
  -- Both words are in the same turn, as there is room for one below the other.
  omega

end Interval

namespace ValueSet

variable {set : ValueSet} {interval : Interval} {value number : Int32}

/-- How far apart the products of the ends of an interval are. -/
def breadth (number : Int32) (interval : Interval) : Int :=
  (products number interval).2 - (products number interval).1

/-- The products of an interval cross the end of a turn around the words that is no end of the words
themselves. -/
def TornBy (number : Int32) (interval : Interval) : Prop :=
  Interval.Torn (products number interval).1 (products number interval).2

/-- A value that lies between the products of an interval that is not torn, modulo 2^32. -/
def Spans (set : ValueSet) (number value : Int32) : Prop :=
  ∃ interval ∈ set.intervals, ¬TornBy number interval ∧
    ∃ product, (products number interval).1 ≤ product ∧ product ≤ (products number interval).2 ∧
      value = .ofInt product

/-- What comes right before the products of an interval is spanned, or the least of them itself if
they go all the way around. -/
def SpansStart (set : ValueSet) (number : Int32) (interval : Interval) : Prop :=
  set.Spans number (.ofInt ((products number interval).1 - 1)) ∨
    breadth number interval = 4294967295 ∧ set.Spans number (.ofInt (products number interval).1)

/-- Intervals that make up for one that is torn. -/
structure MakesUpFor (set : ValueSet) (number : Int32) (interval : Interval) : Prop where
  /-- The products of its values lie between those of the others. -/
  spans (value : Int32) : interval.contains value = true → set.Spans number (value * number)
  /-- The others start before its products, so that nothing is left of it. -/
  spansStart : set.SpansStart number interval

/-- The intervals that the products of a set are brought back into. -/
def spread (set : ValueSet) (number : Int32) : List Interval :=
  set.intervals.flatMap fun interval =>
    Interval.wrapped (products number interval).1 (products number interval).2

/-- The products of the ends of an interval are in order. -/
theorem products_ordered : (products number interval).1 ≤ (products number interval).2 := by
  -- The lesser product comes first, whichever end it is of.
  unfold products
  dsimp only
  omega

/-- The product of a value of an interval is between those of the ends. -/
theorem product_between (member : interval.contains value = true) :
    (products number interval).1 ≤ value.toInt * number.toInt ∧
      value.toInt * number.toInt ≤ (products number interval).2 := by
  simp only [Interval.contains, Bool.and_eq_true, decide_eq_true_eq] at member
  obtain ⟨above, below⟩ := member
  unfold products
  dsimp only
  -- A negative number turns the order of the products around.
  rcases Int.le_total 0 number.toInt with positive | negative
  · have first := Int.mul_le_mul_of_nonneg_right above positive
    have second := Int.mul_le_mul_of_nonneg_right below positive
    omega
  · have first := Int.mul_le_mul_of_nonpos_right above negative
    have second := Int.mul_le_mul_of_nonpos_right below negative
    omega

/-- The product of a value of an interval that is not torn is spanned. -/
theorem spans_product (listed : interval ∈ set.intervals) (whole : ¬TornBy number interval)
    (member : interval.contains value = true) : set.Spans number (value * number) := by
  -- The product lies between those of the ends, and is brought back into 32 bits.
  obtain ⟨above, below⟩ := product_between member
  refine ⟨interval, listed, whole, _, above, below, ?_⟩
  rw [Int32.ofInt_mul, Int32.ofInt_toInt, Int32.ofInt_toInt]

/-- A small set is multiplied by value. A large one is multiplied by interval, unless one of these
is so wide that its products can be anything. -/
theorem mul_cases (set : ValueSet) (number : Int32) :
    set.size ≤ exactLimit ∧ set.mul number = ofList (set.values.map (· * number)) ∨
      exactLimit < set.size ∧ (∃ interval ∈ set.intervals, 4294967296 ≤ breadth number interval) ∧
        set.mul number = all ∨
      exactLimit < set.size ∧ (∀ interval ∈ set.intervals, breadth number interval < 4294967296) ∧
        set.mul number = ⟨Interval.normalized (set.spread number)⟩ := by
  obtain ⟨intervals⟩ := set
  unfold mul
  split
  · -- Without intervals there is nothing to multiply, in whatever way.
    rename_i none
    obtain rfl : intervals = [] := List.isEmpty_iff.mp none
    refine .inl ⟨by decide, ?_⟩
    simp [ofList, values, Interval.normalized]
  · split
    · -- The size is small, and all values are multiplied one by one.
      rename_i small
      exact .inl ⟨small, rfl⟩
    · rename_i large
      dsimp only
      split
      · -- The products of an interval go all the way around, or those of each one are brought back.
        rename_i wide
        refine .inr (.inl ⟨by omega, ?_, rfl⟩)
        simpa [breadth] using wide
      · rename_i narrow
        refine .inr (.inr ⟨by omega, ?_, ?_⟩)
        · simpa [breadth] using narrow
        · rw [spread, List.flatMap_map]

/-- A value is covered by what the products of a set are brought back into if it is spanned. -/
theorem covers_spread (narrow : ∀ interval ∈ set.intervals, breadth number interval < 4294967296) :
    Interval.Covers (set.spread number) value.toInt ↔ set.Spans number value := by
  rw [spread, Interval.covers_flatMap]
  -- Each interval is brought back by itself.
  refine exists_congr fun interval => and_congr_right fun listed => ?_
  exact Interval.covers_wrapped_iff products_ordered (narrow interval listed)

/-- What a torn interval is brought back into is absorbed if its start is spanned. -/
theorem absorb_spread_iff
    (narrow : ∀ interval ∈ set.intervals, breadth number interval < 4294967296)
    (listed : interval ∈ set.intervals) (torn : TornBy number interval) :
    (∀ part ∈ Interval.wrapped (products number interval).1 (products number interval).2,
      part.high.toInt < part.low.toInt → Interval.Absorb (set.spread number) part) ↔
        set.SpansStart number interval := by
  have slim := narrow interval listed
  unfold breadth at slim
  obtain ⟨parts, stop⟩ := Interval.wrapped_of_torn products_ordered slim torn
  have bounds := int32_bounds (.ofInt (products number interval).2)
  -- The only part is reversed, and so starts above the least word.
  have before : (Int32.ofInt ((products number interval).1 - 1)).toInt =
      (Int32.ofInt (products number interval).1).toInt - 1 :=
    Interval.toInt_ofInt_pred (by omega)
  simp only [parts, List.forall_mem_singleton, Interval.Absorb]
  rw [← before, covers_spread narrow, covers_spread narrow, SpansStart, breadth]
  constructor
  · intro absorbed
    refine (absorbed (by omega)).imp_right ?_
    rintro ⟨beside, spanned⟩
    exact ⟨by omega, spanned⟩
  · intro spanned _
    refine spanned.imp_right ?_
    rintro ⟨around, spanned⟩
    exact ⟨by omega, spanned⟩

/-- The products of a large set are canonical if and only if nothing is left of the intervals that
are torn. -/
theorem canonical_spread_iff
    (narrow : ∀ interval ∈ set.intervals, breadth number interval < 4294967296) :
    Interval.Canonical (Interval.normalized (set.spread number)) ↔
      ∀ interval ∈ set.intervals, TornBy number interval → set.SpansStart number interval := by
  rw [Interval.canonical_normalized_iff]
  constructor
  · intro absorbed interval listed torn
    refine (absorb_spread_iff narrow listed torn).mp fun part inside => ?_
    exact absorbed part (List.mem_flatMap.mpr ⟨interval, listed, inside⟩)
  · intro started part inside reversed
    obtain ⟨interval, listed, wrapped⟩ := List.mem_flatMap.mp inside
    by_cases torn : TornBy number interval
    · exact (absorb_spread_iff narrow listed torn).mpr (started interval listed torn) part wrapped
        reversed
    · -- The parts of an interval that is not torn are not reversed.
      have proper := Interval.proper_wrapped products_ordered (narrow interval listed) torn part
        wrapped
      omega

/-- Products are all there, in canonical form, if and only if the set is small, or an interval is so
wide that its products can be anything, or the others make up for each one that is torn. -/
theorem mul_sound_iff (set : ValueSet) (number : Int32) :
    ((∀ value, set.contains value = true → (set.mul number).contains (value * number) = true) ∧
        (set.mul number).Canonical) ↔
      set.size ≤ exactLimit ∨
        (∃ interval ∈ set.intervals, 4294967296 ≤ breadth number interval) ∨
        ∀ interval ∈ set.intervals, TornBy number interval → set.MakesUpFor number interval := by
  rcases mul_cases set number with ⟨small, result⟩ | ⟨large, wide, result⟩ | ⟨large, narrow, result⟩
  · -- The products of all values are listed.
    refine iff_of_true ⟨?_, ?_⟩ (.inl small)
    · intro value member
      rw [result, contains_ofList]
      exact List.mem_map.mpr ⟨value, mem_values.mpr member, rfl⟩
    · rw [result]
      exact canonical_ofList _
  · -- Nothing is known about the products any more, so that every value is among them.
    refine iff_of_true ⟨?_, ?_⟩ (.inr (.inl wide))
    · intro value _
      rw [result]
      exact contains_all
    · rw [result]
      exact canonical_all
  · -- All products are brought back, and those of torn intervals may get lost.
    have slim : ¬∃ interval ∈ set.intervals, 4294967296 ≤ breadth number interval := by
      rintro ⟨interval, listed, wide⟩
      have := narrow interval listed
      omega
    have products : ∀ value, (set.mul number).contains value = true ↔ set.Spans number value := by
      intro value
      rw [result, contains_iff, Interval.covers_normalized, covers_spread narrow]
    have form : (set.mul number).Canonical ↔ ∀ interval ∈ set.intervals,
        TornBy number interval → set.SpansStart number interval := by
      rw [result]
      exact canonical_spread_iff narrow
    rw [or_iff_right (by omega), or_iff_right slim, form]
    simp only [products]
    constructor
    · rintro ⟨sound, starts⟩ interval listed torn
      refine ⟨fun value member => sound value ?_, starts interval listed torn⟩
      exact List.any_eq_true.mpr ⟨interval, listed, member⟩
    · intro makesUp
      refine ⟨fun value member => ?_, fun interval listed torn =>
        (makesUp interval listed torn).spansStart⟩
      obtain ⟨interval, listed, inside⟩ := List.any_eq_true.mp member
      -- A value of a torn interval relies on the others, and any other on its own interval.
      by_cases torn : TornBy number interval
      · exact (makesUp interval listed torn).spans value inside
      · exact spans_product listed torn inside

-- The products of these values go around the words twice in the middle, and none of them is left.
example : (ValueSet.interval 1610612000 1610613000).contains 1610612736 = true ∧
    ((ValueSet.interval 1610612000 1610613000).mul 4).contains (1610612736 * 4) = false := by cbv

end ValueSet

end QuestScript
