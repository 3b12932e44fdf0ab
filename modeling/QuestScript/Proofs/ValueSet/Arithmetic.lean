import QuestScript.Flow.Register
import QuestScript.Proofs.ValueSet.Canonical

/-! Arithmetic with sets of values, and what it makes of each of their values. -/

namespace QuestScript

/-- A value is the 32-bit word of a number if both differ by a multiple of all words. -/
theorem eq_ofInt_iff {value : Int32} {number : Int} :
    value = .ofInt number ↔ (value.toInt - number) % 4294967296 = 0 := by
  have low := Int32.le_toInt value
  have high := Int32.toInt_lt value
  rw [← Int32.toInt_inj, Int32.toInt_ofInt, Int.bmod_def, show Int32.size = 4294967296 from rfl]
  -- The word of a number is its remainder, or that less all words.
  split <;> omega

/-- The word of a number that fits into one is that number. -/
theorem toInt_ofInt {number : Int} (low : -2147483648 ≤ number) (high : number ≤ 2147483647) :
    (Int32.ofInt number).toInt = number :=
  Int32.toInt_ofInt_of_le (by omega) (by omega)

/-- The least and the greatest value of a word. -/
theorem int32_bounds (word : Int32) : -2147483648 ≤ word.toInt ∧ word.toInt ≤ 2147483647 := by
  have least := Int32.le_toInt word
  have greatest := Int32.toInt_lt word
  omega

/-- The word of a number is the number less some turns around all words. -/
theorem exists_turn (number : Int) :
    ∃ turn : Int, (Int32.ofInt number).toInt = number - 4294967296 * turn := by
  -- The difference to the word is a whole number of turns.
  have same := eq_ofInt_iff.mp (rfl : Int32.ofInt number = .ofInt number)
  exact ⟨-(((Int32.ofInt number).toInt - number) / 4294967296), by omega⟩

/-- A turn around all words leads to the same word. -/
theorem ofInt_eq_ofInt {first second : Int} (same : (first - second) % 4294967296 = 0) :
    Int32.ofInt first = .ofInt second := by
  -- Both numbers are some turns away from the same word.
  obtain ⟨turn, word⟩ := exists_turn first
  rw [eq_ofInt_iff, word]
  omega

namespace Interval

/-- A range of numbers that crosses the end of a turn around the words, other than the two ends of
the words themselves. -/
def Torn (low high : Int) : Prop :=
  ∃ turn : Int, turn ≠ 0 ∧ turn ≠ -1 ∧ low ≤ 2147483647 + 4294967296 * turn ∧
    2147483647 + 4294967296 * turn < high

variable {low high : Int} {value : Int32}

/-- A range that is at most a turn away from the words is not torn. -/
theorem not_torn (above : -4294967296 ≤ low) (below : high < 4294967296) : ¬Torn low high := by
  -- The place where the range is torn is more than a turn away.
  rintro ⟨turn, other, another, before, behind⟩
  omega

/-- Only a range that crosses an end of the words is brought back in two parts. -/
theorem wrapped_eq :
    wrapped low high =
      if low ≤ 2147483647 ∧ 2147483647 < high ∨ low < -2147483648 ∧ -2147483648 ≤ high then
        [⟨.ofInt low, Int32.maxValue⟩, ⟨Int32.minValue, .ofInt high⟩]
      else [⟨.ofInt low, .ofInt high⟩] := by
  have down : ∀ number : Int, Int32.ofInt (number - 4294967296) = .ofInt number :=
    fun number => ofInt_eq_ofInt (by omega)
  have up : ∀ number : Int, Int32.ofInt (number + 4294967296) = .ofInt number :=
    fun number => ofInt_eq_ofInt (by omega)
  -- Moving an end by a turn does not change its word, so that only the number of parts counts.
  unfold wrapped
  simp only [down, up]
  split
  · rw [if_neg (by omega)]
  · split
    · rw [if_neg (by omega)]
    · split
      · rw [if_pos (by omega)]
      · split
        · rw [if_pos (by omega)]
        · rw [if_neg (by omega)]

/-- A range brought back into 32 bits stays whole if it is within one turn, is cut in two where it
crosses an end of the words, and is reversed if it is torn. -/
theorem wrapped_cases (ordered : low ≤ high) (narrow : high - low < 4294967296) :
    ∃ first last : Int, (Int32.ofInt low).toInt = low - 4294967296 * first ∧
      (Int32.ofInt high).toInt = high - 4294967296 * last ∧
      (last = first ∧ ¬Torn low high ∧ wrapped low high = [⟨.ofInt low, .ofInt high⟩] ∨
        last = first + 1 ∧ ¬Torn low high ∧
          wrapped low high = [⟨.ofInt low, Int32.maxValue⟩, ⟨Int32.minValue, .ofInt high⟩] ∨
        last = first + 1 ∧ Torn low high ∧ wrapped low high = [⟨.ofInt low, .ofInt high⟩]) := by
  obtain ⟨first, start⟩ := exists_turn low
  obtain ⟨last, stop⟩ := exists_turn high
  refine ⟨first, last, start, stop, ?_⟩
  have least := int32_bounds (.ofInt low)
  have greatest := int32_bounds (.ofInt high)
  -- Less than a turn lies between the ends, so that they are in one turn or in neighbouring ones.
  have near : last = first ∨ last = first + 1 := by omega
  rcases near with same | next
  · refine .inl ⟨same, ?_, ?_⟩
    · rintro ⟨turn, -, -, before, behind⟩
      omega
    · rw [wrapped_eq, if_neg (by omega)]
  · -- The range is only cut if the turn that it leaves ends at an end of the words.
    by_cases ends : first = 0 ∨ first = -1
    · refine .inr (.inl ⟨next, ?_, ?_⟩)
      · rintro ⟨turn, other, another, before, behind⟩
        omega
      · rw [wrapped_eq, if_pos (by omega)]
    · refine .inr (.inr ⟨next, ⟨first, by omega, by omega, by omega, by omega⟩, ?_⟩)
      rw [wrapped_eq, if_neg (by omega)]

/-- A range of numbers that is not torn, brought back into 32 bits, covers the words of its
numbers. -/
theorem covers_wrapped (ordered : low ≤ high) (narrow : high - low < 4294967296)
    (whole : ¬Torn low high) :
    Covers (wrapped low high) value.toInt ↔
      ∃ number, low ≤ number ∧ number ≤ high ∧ value = .ofInt number := by
  obtain ⟨first, last, start, stop, shape⟩ := wrapped_cases ordered narrow
  have least := int32_bounds (.ofInt low)
  have greatest := int32_bounds (.ofInt high)
  have middle := int32_bounds value
  -- A number between the ends is in the turn of the first one or of the last one.
  have turns : (∃ number, low ≤ number ∧ number ≤ high ∧ value = .ofInt number) ↔
      (low ≤ value.toInt + 4294967296 * first ∧ value.toInt + 4294967296 * first ≤ high) ∨
        (low ≤ value.toInt + 4294967296 * last ∧ value.toInt + 4294967296 * last ≤ high) := by
    simp only [eq_ofInt_iff]
    constructor
    · rintro ⟨number, after, before, same⟩
      omega
    · rintro (early | late)
      · exact ⟨value.toInt + 4294967296 * first, early.1, early.2, by omega⟩
      · exact ⟨value.toInt + 4294967296 * last, late.1, late.2, by omega⟩
  rw [turns]
  -- Within one turn the range is one interval, and over two turns there is one for each.
  rcases shape with ⟨same, -, parts⟩ | ⟨next, -, parts⟩ | ⟨-, torn, -⟩
  · simp only [parts, covers_cons, covers_nil, or_false]
    omega
  · simp only [parts, covers_cons, covers_nil, or_false, Int32.toInt_maxValue,
      Int32.toInt_minValue]
    omega
  · exact absurd torn whole

/-- No part of a range that is not torn is reversed when it is brought back into 32 bits. -/
theorem proper_wrapped (ordered : low ≤ high) (narrow : high - low < 4294967296)
    (whole : ¬Torn low high) :
    ∀ interval ∈ wrapped low high, interval.low.toInt ≤ interval.high.toInt := by
  obtain ⟨first, last, start, stop, shape⟩ := wrapped_cases ordered narrow
  have least := int32_bounds (.ofInt low)
  have greatest := int32_bounds (.ofInt high)
  intro interval listed
  -- The range is one interval, or two that meet at the ends of the words.
  rcases shape with ⟨same, -, parts⟩ | ⟨next, -, parts⟩ | ⟨-, torn, -⟩
  · rw [parts, List.mem_singleton] at listed
    rw [listed]
    dsimp only
    omega
  · rw [parts, List.mem_cons, List.mem_singleton] at listed
    rcases listed with rfl | rfl
    · exact least.2
    · exact greatest.1
  · exact absurd torn whole

/-- A torn range is brought back as one reversed interval. -/
theorem wrapped_of_torn (ordered : low ≤ high) (narrow : high - low < 4294967296)
    (torn : Torn low high) :
    wrapped low high = [⟨.ofInt low, .ofInt high⟩] ∧
      (Int32.ofInt high).toInt = (Int32.ofInt low).toInt + (high - low) - 4294967296 := by
  obtain ⟨first, last, start, stop, shape⟩ := wrapped_cases ordered narrow
  -- The first two shapes are those of ranges that are not torn.
  rcases shape with ⟨-, whole, -⟩ | ⟨-, whole, -⟩ | ⟨next, -, parts⟩
  · exact absurd torn whole
  · exact absurd torn whole
  · exact ⟨parts, by omega⟩

end Interval

namespace ValueSet

variable {set lower upper : ValueSet} {value number : Int32}

/-- Numbers that are added leave a set canonical. -/
theorem Canonical.add (canonical : set.Canonical) (number : Int32) :
    (set.add number).Canonical := by
  refine Interval.canonical_normalized ?_
  intro part listed
  obtain ⟨interval, inside, wrapped⟩ := List.mem_flatMap.mp listed
  -- No number moves an interval far enough to tear it.
  have proper := canonical.proper interval inside
  have least := int32_bounds interval.low
  have greatest := int32_bounds interval.high
  have moved := int32_bounds number
  exact Interval.proper_wrapped (by omega) (by omega)
    (Interval.not_torn (by omega) (by omega)) part wrapped

/-- Adding a number to a set adds it to each of its values. -/
theorem Canonical.contains_add (canonical : set.Canonical) :
    (set.add number).contains value = true ↔
      ∃ before, set.contains before = true ∧ value = before + number := by
  have bounds := int32_bounds number
  -- Each interval is moved as a whole, and then brought back into 32 bits.
  have moved : ∀ interval ∈ set.intervals,
      (Interval.Covers (Interval.wrapped (interval.low.toInt + number.toInt)
        (interval.high.toInt + number.toInt)) value.toInt ↔
        ∃ before : Int32, (interval.low.toInt ≤ before.toInt ∧
          before.toInt ≤ interval.high.toInt) ∧ value = before + number) := by
    intro interval inside
    have proper := canonical.proper interval inside
    have least := int32_bounds interval.low
    have greatest := int32_bounds interval.high
    rw [Interval.covers_wrapped (by omega) (by omega) (Interval.not_torn (by omega) (by omega))]
    constructor
    · -- Every number of the moved interval comes from a word of the interval.
      rintro ⟨sum, after, before, rfl⟩
      have same : (Int32.ofInt (sum - number.toInt)).toInt = sum - number.toInt :=
        toInt_ofInt (by omega) (by omega)
      refine ⟨.ofInt (sum - number.toInt), by omega, ?_⟩
      rw [← Int32.ofInt_toInt number, ← Int32.ofInt_add, Int32.ofInt_toInt]
      congr 1
      omega
    · rintro ⟨before, between, rfl⟩
      refine ⟨before.toInt + number.toInt, by omega, by omega, ?_⟩
      rw [Int32.ofInt_add, Int32.ofInt_toInt, Int32.ofInt_toInt]
  simp only [contains_iff, ValueSet.add, Interval.covers_normalized, Interval.covers_flatMap]
  constructor
  · rintro ⟨interval, inside, covered⟩
    obtain ⟨before, between, same⟩ := (moved interval inside).mp covered
    exact ⟨before, ⟨interval, inside, between⟩, same⟩
  · rintro ⟨before, ⟨interval, inside, between⟩, same⟩
    exact ⟨interval, inside, (moved interval inside).mpr ⟨before, between, same⟩⟩

/-- Numbers that are subtracted leave a set canonical. -/
theorem Canonical.sub (canonical : set.Canonical) (number : Int32) : (set.sub number).Canonical :=
  canonical.add (-number)

/-- Subtracting a number from a set subtracts it from each of its values. -/
theorem Canonical.contains_sub (canonical : set.Canonical) :
    (set.sub number).contains value = true ↔
      ∃ before, set.contains before = true ∧ value = before - number := by
  simp only [ValueSet.sub, canonical.contains_add, Int32.sub_eq_add_neg]

/-- A quotient as a number. -/
theorem toInt_quotient (value number : Int32) :
    (quotient value number).toInt =
      max (-2147483648) (min (value.toInt.tdiv number.toInt) 2147483647) :=
  toInt_ofInt (by omega) (by omega)

/-- Quotients without their fraction keep the order of the dividends, or turn it around. -/
theorem tdiv_ordered {divisor : Int} (nonzero : divisor ≠ 0) :
    (∀ first second : Int, first ≤ second → first.tdiv divisor ≤ second.tdiv divisor) ∨
      ∀ first second : Int, first ≤ second → second.tdiv divisor ≤ first.tdiv divisor := by
  rcases Int.lt_or_gt_of_ne nonzero with negative | positive
  · -- The quotient by a negative number is the negative of that by its opposite.
    refine .inr fun first second ordered => ?_
    have opposite := Int.tdiv_le_tdiv (c := -divisor) (by omega) ordered
    rw [Int.tdiv_neg, Int.tdiv_neg] at opposite
    omega
  · exact .inl fun _ _ ordered => Int.tdiv_le_tdiv positive ordered

/-- A number is not zero if its word is not. -/
theorem toInt_ne_zero (nonzero : number ≠ 0) : number.toInt ≠ 0 :=
  fun same => nonzero (Int32.toInt_inj.mp same)

/-- The quotient of a value between two others is between their quotients. -/
theorem quotient_between {low high : Int32} (nonzero : number ≠ 0)
    (above : low.toInt ≤ value.toInt) (below : value.toInt ≤ high.toInt) :
    (quotient low number).toInt ≤ (quotient value number).toInt ∧
        (quotient value number).toInt ≤ (quotient high number).toInt ∨
      (quotient high number).toInt ≤ (quotient value number).toInt ∧
        (quotient value number).toInt ≤ (quotient low number).toInt := by
  simp only [toInt_quotient]
  -- Division keeps the order or turns it around, by the sign of the number.
  rcases tdiv_ordered (toInt_ne_zero nonzero) with kept | turned
  · have first := kept _ _ above
    have second := kept _ _ below
    omega
  · have first := turned _ _ above
    have second := turned _ _ below
    omega

/-- Quotients leave no holes: what is between those of two values is one of a value between them. -/
theorem exists_quotient_eq {low high : Int32} (nonzero : number ≠ 0)
    (ordered : low.toInt ≤ high.toInt)
    (between : (quotient low number).toInt ≤ value.toInt ∧
        value.toInt ≤ (quotient high number).toInt ∨
      (quotient high number).toInt ≤ value.toInt ∧
        value.toInt ≤ (quotient low number).toInt) :
    ∃ before : Int32, (low.toInt ≤ before.toInt ∧ before.toInt ≤ high.toInt) ∧
      value = quotient before number := by
  have zero := toInt_ne_zero nonzero
  have bounds := int32_bounds value
  have least := int32_bounds low
  have greatest := int32_bounds high
  -- The product has this quotient, and so has the end of the interval that is nearest to it.
  have exactly : (value.toInt * number.toInt).tdiv number.toInt = value.toInt :=
    Int.mul_tdiv_cancel _ zero
  simp only [← Int32.toInt_inj, toInt_quotient] at between ⊢
  rcases Int.lt_or_le (value.toInt * number.toInt) low.toInt with below | inside
  · -- The product comes before the interval, whose low end has this quotient.
    refine ⟨low, ⟨Int.le_refl _, ordered⟩, ?_⟩
    rcases tdiv_ordered zero with kept | turned
    · have first := kept _ _ (Int.le_of_lt below)
      have second := kept _ _ ordered
      omega
    · have first := turned _ _ (Int.le_of_lt below)
      have second := turned _ _ ordered
      omega
  · rcases Int.lt_or_le high.toInt (value.toInt * number.toInt) with above | within
    · -- The product comes after the interval, whose high end has this quotient.
      refine ⟨high, ⟨ordered, Int.le_refl _⟩, ?_⟩
      rcases tdiv_ordered zero with kept | turned
      · have first := kept _ _ (Int.le_of_lt above)
        have second := kept _ _ ordered
        omega
      · have first := turned _ _ (Int.le_of_lt above)
        have second := turned _ _ ordered
        omega
    · -- The product is in the interval itself.
      have same : (Int32.ofInt (value.toInt * number.toInt)).toInt = value.toInt * number.toInt :=
        toInt_ofInt (by omega) (by omega)
      refine ⟨.ofInt (value.toInt * number.toInt), ?_, ?_⟩
      · rw [same]
        exact ⟨inside, within⟩
      · rw [same, exactly]
        omega

/-- A division leaves a set canonical. -/
theorem canonical_div (set : ValueSet) (number : Int32) : (set.div number).Canonical := by
  unfold ValueSet.div
  split
  · exact canonical_all
  · refine Interval.canonical_normalized ?_
    intro interval listed
    -- The ends of each quotient are put in order.
    obtain ⟨before, -, rfl⟩ := List.mem_map.mp listed
    dsimp only
    split
    · assumption
    · dsimp only
      omega

/-- A set divided by a number has what lies between the quotients of the ends of an interval. -/
theorem contains_div_iff_between (nonzero : number ≠ 0) :
    (set.div number).contains value = true ↔ ∃ interval ∈ set.intervals,
      (quotient interval.low number).toInt ≤ value.toInt ∧
          value.toInt ≤ (quotient interval.high number).toInt ∨
        (quotient interval.high number).toInt ≤ value.toInt ∧
          value.toInt ≤ (quotient interval.low number).toInt := by
  rw [ValueSet.div, if_neg nonzero, contains_iff, Interval.covers_normalized, Interval.covers_map]
  refine exists_congr fun interval => and_congr_right fun _ => ?_
  dsimp only
  -- The ends of each quotient are put in order.
  split
  · dsimp only
    omega
  · dsimp only
    omega

/-- A set divided by a number has the quotients of its values. -/
theorem contains_div (member : set.contains value = true) :
    (set.div number).contains (quotient value number) = true := by
  -- Nothing is known about a division by zero.
  by_cases zero : number = 0
  · rw [ValueSet.div, if_pos zero]
    exact contains_all
  · obtain ⟨interval, listed, above, below⟩ := contains_iff.mp member
    exact (contains_div_iff_between zero).mpr ⟨interval, listed, quotient_between zero above below⟩

/-- A set divided by a number has no more than the quotients of its values. -/
theorem Canonical.contains_div_iff (canonical : set.Canonical) (nonzero : number ≠ 0) :
    (set.div number).contains value = true ↔
      ∃ before, set.contains before = true ∧ value = quotient before number := by
  constructor
  · intro member
    -- Quotients leave no gaps, so a value between two of them is one.
    obtain ⟨interval, listed, between⟩ := (contains_div_iff_between nonzero).mp member
    have proper := canonical.proper interval listed
    obtain ⟨before, inside, same⟩ := exists_quotient_eq nonzero proper between
    exact ⟨before, contains_iff.mpr ⟨interval, listed, inside⟩, same⟩
  · rintro ⟨before, member, rfl⟩
    exact contains_div member

/-- Division by zero may give anything. -/
theorem contains_div_zero (member : Int32) : (set.div 0).contains member = true := by
  rw [ValueSet.div, if_pos rfl]
  exact contains_all

/-- A set of flipped values is canonical. -/
theorem canonical_flipped (set : ValueSet) : set.flipped.Canonical := by
  -- The values are one of the two, or both.
  unfold flipped
  split
  · exact canonical_of 1
  · split
    · exact canonical_interval 0 1
    · exact canonical_of 0

/-- A set that is flipped has one for zero, and zero for every other value. -/
theorem contains_flipped (member : set.contains value = true) :
    set.flipped.contains (if value = 0 then 1 else 0) = true := by
  unfold flipped
  split
  · -- There is only zero.
    rename_i only
    rw [only, contains_of] at member
    rw [if_pos member, contains_of]
  · split
    · rw [contains_interval (by decide)]
      split <;> decide
    · -- Without zero in the set the value is another one.
      rename_i absent
      have other : value ≠ 0 := fun same => absent (same ▸ member)
      rw [if_neg other, contains_of]

/-- Random values between two sets are canonical. -/
theorem canonical_randomBetween (lower upper : ValueSet) : (randomBetween lower upper).Canonical :=
  canonical_interval _ _

/-- What lies between a value of one set and one of another is a random value between both. -/
theorem contains_randomBetween {first last : Int32} (below : lower.Canonical)
    (above : upper.Canonical) (least : lower.contains first = true)
    (greatest : upper.contains last = true) (after : first.toInt ≤ value.toInt)
    (before : value.toInt < last.toInt) : (randomBetween lower upper).contains value = true := by
  obtain ⟨low, found, start⟩ := below.min?_le least
  obtain ⟨high, reached, stop⟩ := above.le_max? greatest
  have bottom := Int32.le_toInt low
  have top := Int32.toInt_lt high
  -- The greatest upper bound is above the least lower one, and so is what is below it by one.
  have bound : (Int32.ofInt (max high.toInt (min (low.toInt + 1) 2147483647) - 1)).toInt =
      max high.toInt (min (low.toInt + 1) 2147483647) - 1 := toInt_ofInt (by omega) (by omega)
  simp only [randomBetween, found, reached, Option.getD_some]
  rw [contains_interval (by omega)]
  omega

end ValueSet

end QuestScript
