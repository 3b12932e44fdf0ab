import QuestScript.Proofs.ValueSet.Built

/-! The values of a set one after the other. A canonical set is determined by them, and is resolved
to them if there are not too many. -/

namespace QuestScript

namespace Interval

variable {interval first : Interval} {value : Int32} {intervals others rest : List Interval}
  {number : Int}

/-- A number that lies in an interval is one of the words. -/
theorem exists_toInt_eq (above : interval.low.toInt ≤ number)
    (below : number ≤ interval.high.toInt) : ∃ value : Int32, value.toInt = number := by
  -- The number is no further out than the ends, which are words.
  have least := int32_bounds interval.low
  have greatest := int32_bounds interval.high
  exact ⟨.ofInt number, toInt_ofInt (by omega) (by omega)⟩

/-- The values that are counted up from the low end are as many as that. -/
@[simp] theorem length_firstValues {count : Nat} : (interval.firstValues count).length = count := by
  simp [firstValues]

/-- An interval has the values that are between its ends. -/
theorem mem_values :
    value ∈ interval.values ↔
      interval.low.toInt ≤ value.toInt ∧ value.toInt ≤ interval.high.toInt := by
  have least := int32_bounds interval.low
  have greatest := int32_bounds interval.high
  simp only [values, firstValues, count, List.mem_map, List.mem_range]
  constructor
  · rintro ⟨step, early, rfl⟩
    rw [toInt_ofInt (by omega) (by omega)]
    omega
  · intro between
    -- The value is as many steps from the low end as it is greater.
    refine ⟨(value.toInt - interval.low.toInt).toNat, by omega, ?_⟩
    rw [show interval.low.toInt + ((value.toInt - interval.low.toInt).toNat : Int) = value.toInt by
      omega, Int32.ofInt_toInt]

/-- The values of an interval ascend. -/
theorem pairwise_values :
    interval.values.Pairwise fun before after => before.toInt < after.toInt := by
  have least := int32_bounds interval.low
  have greatest := int32_bounds interval.high
  simp only [values, firstValues, count, List.pairwise_map]
  refine List.pairwise_lt_range.imp_of_mem fun {before after} early late ordered => ?_
  rw [List.mem_range] at early late
  -- All steps stay within the interval, so that none leads around the words.
  rw [toInt_ofInt (by omega) (by omega), toInt_ofInt (by omega) (by omega)]
  omega

/-- As many values as an interval has at most are its first ones. -/
theorem firstValues_min {count : Nat} :
    interval.firstValues (min count interval.count) = interval.values.take count := by
  simp [values, firstValues, ← List.map_take, List.take_range]

/-- The word size of an interval that is not reversed is how many values it has. -/
theorem wordSize_eq_count (proper : interval.low.toInt ≤ interval.high.toInt) :
    interval.wordSize = interval.count := by
  -- An interval of words is too short to wrap around.
  have least := int32_bounds interval.low
  have greatest := int32_bounds interval.high
  unfold wordSize count
  omega

/-- Canonical intervals ascend. -/
theorem Canonical.ascend (canonical : Canonical intervals) : Ascend intervals := by
  -- An interval ends before the next one starts, and has at least one value.
  refine canonical.apart.imp_of_mem fun {before after} listed _ gap => ?_
  have proper := canonical.proper before listed
  omega

/-- Behind the first of canonical intervals are those numbers of them that are beyond its high
end. -/
theorem Canonical.covers_tail (canonical : Canonical (first :: rest)) :
    Covers rest number ↔ Covers (first :: rest) number ∧ first.high.toInt < number := by
  rw [covers_cons]
  constructor
  · -- There is a gap behind the first interval.
    intro covered
    obtain ⟨interval, listed, above, below⟩ := covered
    have gap := (List.pairwise_cons.mp canonical.apart).1 interval listed
    exact ⟨.inr ⟨interval, listed, above, below⟩, by omega⟩
  · rintro ⟨here | behind, beyond⟩
    · omega
    · exact behind

/-- Canonical intervals do not go on right after the first one. -/
theorem Canonical.not_covers_next (canonical : Canonical (first :: rest)) :
    ¬Covers (first :: rest) (first.high.toInt + 1) := by
  intro covered
  -- The next number would be in an interval behind the first one, but these leave a gap.
  obtain ⟨interval, listed, above, -⟩ := canonical.covers_tail.mpr ⟨covered, by omega⟩
  have gap := (List.pairwise_cons.mp canonical.apart).1 interval listed
  omega

/-- Of two canonical lists with the same numbers, the first interval of one does not go beyond that
of the other. -/
theorem Canonical.first_le {other : Interval} {more : List Interval}
    (canonical : Canonical (first :: rest)) (rival : Canonical (other :: more))
    (same : ∀ number, Covers (first :: rest) number ↔ Covers (other :: more) number) :
    other.low.toInt ≤ first.low.toInt ∧ first.high.toInt ≤ other.high.toInt := by
  have here := canonical.proper first List.mem_cons_self
  have there := rival.proper other List.mem_cons_self
  -- The low end of each is a number of the other list, which begins with the other low end.
  have start : other.low.toInt ≤ first.low.toInt :=
    low_le_of_covers rival.ascend
      ((same _).mp ⟨first, List.mem_cons_self, Int.le_refl _, here⟩)
  refine ⟨start, Int.not_lt.mp fun beyond => ?_⟩
  have back : first.low.toInt ≤ other.low.toInt :=
    low_le_of_covers canonical.ascend
      ((same _).mpr ⟨other, List.mem_cons_self, Int.le_refl _, there⟩)
  -- Otherwise the number right after the shorter one is in the longer one.
  exact rival.not_covers_next
    ((same _).mp ⟨first, List.mem_cons_self, by omega, by omega⟩)

/-- Canonical intervals with the same numbers are the same. -/
theorem Canonical.eq_of_covers (canonical : Canonical intervals) (rival : Canonical others)
    (same : ∀ number, Covers intervals number ↔ Covers others number) : intervals = others := by
  induction intervals generalizing others with
  | nil =>
    cases others with
    | nil => rfl
    | cons other more =>
      -- Without intervals there is no number, but every interval has one.
      have proper := rival.proper other List.mem_cons_self
      exact absurd ((same _).mpr ⟨other, List.mem_cons_self, Int.le_refl _, proper⟩) covers_nil
  | cons first rest ih =>
    cases others with
    | nil =>
      have proper := canonical.proper first List.mem_cons_self
      exact absurd ((same _).mp ⟨first, List.mem_cons_self, Int.le_refl _, proper⟩) covers_nil
    | cons other more =>
      obtain ⟨start, stop⟩ := canonical.first_le rival same
      obtain ⟨back, forth⟩ := rival.first_le canonical fun number => (same number).symm
      have low : first.low = other.low := Int32.toInt_inj.mp (by omega)
      have high : first.high = other.high := Int32.toInt_inj.mp (by omega)
      have equal : first = other := by
        cases first
        cases other
        simp_all
      subst equal
      -- What is left on both sides are the numbers beyond the first interval.
      rw [ih canonical.tail rival.tail fun number => by
        rw [canonical.covers_tail, rival.covers_tail, same]]

end Interval

namespace ValueSet

variable {set other : ValueSet} {value : Int32}

/-- The values that are listed are those that the set has. -/
theorem mem_values : value ∈ set.values ↔ set.contains value = true := by
  simp only [values, List.mem_flatMap, Interval.mem_values, contains_iff, Interval.Covers]

/-- The values of a canonical set ascend. -/
theorem Canonical.pairwise_values (canonical : set.Canonical) :
    set.values.Pairwise fun before after => before.toInt < after.toInt := by
  -- Values ascend within an interval, and all intervals are apart.
  refine List.pairwise_flatMap.mpr ⟨fun _ _ => Interval.pairwise_values, ?_⟩
  refine canonical.apart.imp fun {first second} gap before early after late => ?_
  rw [Interval.mem_values] at early late
  omega

/-- No value of a canonical set is listed twice. -/
theorem Canonical.nodup_values (canonical : set.Canonical) : set.values.Nodup := by
  -- Each value is greater than the ones before it.
  refine canonical.pairwise_values.imp fun {before after} ordered same => ?_
  rw [same] at ordered
  exact Int.lt_irrefl _ ordered

/-- A canonical set has no more values than there are words. -/
theorem Canonical.length_values_le (canonical : set.Canonical) :
    set.values.length ≤ 4294967296 := by
  -- The values are different numbers between the least and the greatest word.
  have distinct : (set.values.map Int32.toInt).Nodup :=
    canonical.nodup_values.map fun _ _ same => Int32.toInt_inj.mp same
  have within : (set.values.map Int32.toInt).toFinset ⊆ Finset.Icc (-2147483648) 2147483647 := by
    intro number listed
    obtain ⟨value, -, rfl⟩ := List.mem_map.mp (List.mem_toFinset.mp listed)
    exact Finset.mem_Icc.mpr (int32_bounds value)
  have count := Finset.card_le_card within
  rwa [List.toFinset_card_of_nodup distinct, List.length_map, Int.card_Icc] at count

/-- The size of a canonical set is the length of the list of its values. -/
theorem Canonical.size_eq (canonical : set.Canonical) : set.size = set.values.length := by
  have sum : (set.intervals.map Interval.wordSize).foldr (· + ·) 0 = set.values.length := by
    rw [values, List.length_flatMap]
    congr 1
    refine List.map_congr_left fun interval listed => ?_
    rw [Interval.wordSize_eq_count (canonical.proper interval listed), Interval.values,
      Interval.length_firstValues]
  -- So many values leave room in the word.
  have few := canonical.length_values_le
  rw [size, sum]
  omega

-- A product that is not canonical has a reversed interval, which takes two off from the size.
example :
    let set := ((interval 4621 13862).mul 464773).union (interval 0 19)
    (set.size, set.values.length) = (18, 20) := by
  cbv

/-- The first values are at the start of the list of all of them. -/
theorem firstValues_eq (count : Nat) : set.firstValues count = set.values.take count := by
  obtain ⟨intervals⟩ := set
  -- What the first interval does not provide is left for the others to provide.
  induction intervals generalizing count with
  | nil => simp [firstValues, firstOf, values]
  | cons interval rest ih =>
    simp only [firstValues, firstOf, values, List.flatMap_cons, List.take_append] at ih ⊢
    rw [Interval.firstValues_min, ih, Interval.values, Interval.length_firstValues]
    congr 2
    omega

/-- Canonical sets with the same values are the same. -/
theorem Canonical.eq_of_contains (canonical : set.Canonical) (rival : other.Canonical)
    (same : ∀ value, set.contains value = true ↔ other.contains value = true) : set = other := by
  obtain ⟨intervals⟩ := set
  obtain ⟨others⟩ := other
  refine congrArg mk (Interval.Canonical.eq_of_covers canonical rival fun number => ?_)
  simp only [contains_iff] at same
  -- No interval has a number that is not a word.
  constructor
  · intro covered
    obtain ⟨interval, -, above, below⟩ := id covered
    obtain ⟨value, rfl⟩ := Interval.exists_toInt_eq above below
    exact (same value).mp covered
  · intro covered
    obtain ⟨interval, -, above, below⟩ := id covered
    obtain ⟨value, rfl⟩ := Interval.exists_toInt_eq above below
    exact (same value).mpr covered

/-- What the values of a set say about it. -/
structure Determined (set : ValueSet) : Prop where
  /-- Sets that are made by operations are the same if they have the same values, and only then. -/
  eq_iff (other : ValueSet) (built : other.Built) :
    set = other ↔ ∀ value, set.contains value = other.contains value
  /-- It is the set of a value if that is the only one. -/
  eq_of_iff (only : Int32) : set = .of only ↔ ∀ value, set.contains value = true ↔ value = only
  /-- It is seen to have every value if it has. -/
  isAll_iff : set.isAll = true ↔ ∀ value, set.contains value = true
  /-- The size is the number of values. -/
  size : set.size = {value | set.contains value = true}.ncard
  /-- The values are listed in ascending order, none of them twice. -/
  ascend : set.values.Pairwise fun before after => before.toInt < after.toInt
  /-- The values that are listed are those of the set. -/
  mem_values (value : Int32) : value ∈ set.values ↔ set.contains value = true
  /-- As many of them as are asked for are the first ones. -/
  firstValues (count : Nat) : set.firstValues count = set.values.take count
  /-- The set is resolved to the list of its values, unless this is longer than the bound. -/
  resolve? (bound : Nat) :
    set.resolve? bound = if set.values.length ≤ bound then some set.values else none

/-- A canonical set is the same as another one if and only if it has the same values. -/
theorem Canonical.eq_iff_contains (canonical : set.Canonical) (rival : other.Canonical) :
    set = other ↔ ∀ value, set.contains value = true ↔ other.contains value = true := by
  -- A canonical set can be put together again from its values.
  constructor
  · rintro rfl value
    exact Iff.rfl
  · exact canonical.eq_of_contains rival

/-- A set is seen to have every value if it is the set of all values. -/
theorem isAll_iff_eq : set.isAll = true ↔ set = .all := by
  -- The set of all values is a single interval, and only this one is looked for.
  obtain ⟨intervals⟩ := set
  rw [isAll, beq_iff_eq, show all = ⟨[⟨Int32.minValue, Int32.maxValue⟩]⟩ from rfl, mk.injEq]

/-- The size of a canonical set is the number of its values. -/
theorem Canonical.size_eq_ncard (canonical : set.Canonical) :
    set.size = {value | set.contains value = true}.ncard := by
  -- The values are listed without repetition.
  have listed : {value | set.contains value = true} = (set.values.toFinset : Set Int32) := by
    ext value
    rw [List.coe_toFinset, Set.mem_ofPred_eq, Set.mem_ofPred_eq, mem_values]
  rw [listed, Set.ncard_coe_finset, List.toFinset_card_of_nodup canonical.nodup_values,
    canonical.size_eq]

/-- Sets that are made by operations are determined by their values. -/
theorem Built.determined (built : set.Built) : set.Determined where
  eq_iff other rival := by
    -- All that is asked about a canonical set is decided by its values.
    rw [built.canonical.eq_iff_contains rival.canonical]
    exact forall_congr' fun value => Bool.eq_iff_iff.symm
  eq_of_iff only := by
    simp only [built.canonical.eq_iff_contains (canonical_of only), contains_of]
  isAll_iff := by
    simp only [isAll_iff_eq, built.canonical.eq_iff_contains canonical_all, contains_all, iff_true]
  size := built.canonical.size_eq_ncard
  ascend := built.canonical.pairwise_values
  mem_values _ := ValueSet.mem_values
  firstValues count := firstValues_eq count
  resolve? bound := by
    rw [ValueSet.resolve?, built.canonical.size_eq]

/-- Two values that are moved beyond the greatest one are the least one and the greatest one. -/
theorem determined_wrapped :
    ((interval 2147483646 2147483647).add 1).Built ∧
      ((interval 2147483646 2147483647).add 1).Determined ∧
      ((interval 2147483646 2147483647).add 1).resolve? 2 = some [-2147483648, 2147483647] := by
  -- The values are moved around the end of the words, which leaves an interval at each end.
  have moved : ((interval 2147483646 2147483647).add 1).Built := .add (.interval _ _) 1
  exact ⟨moved, Built.determined moved, by cbv⟩

end ValueSet

end QuestScript
