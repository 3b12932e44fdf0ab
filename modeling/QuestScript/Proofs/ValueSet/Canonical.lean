import QuestScript.ValueSet

/-! Sets of values in their canonical form: intervals that ascend and leave a gap between each
other. -/

namespace QuestScript

namespace Interval

/-- A number that lies in one of some intervals. -/
def Covers (intervals : List Interval) (number : Int) : Prop :=
  ∃ interval ∈ intervals, interval.low.toInt ≤ number ∧ number ≤ interval.high.toInt

/-- Intervals that ascend, each with a value at least, and no two of which overlap or touch. -/
structure Canonical (intervals : List Interval) : Prop where
  proper : ∀ interval ∈ intervals, interval.low.toInt ≤ interval.high.toInt
  apart : intervals.Pairwise fun first second => first.high.toInt + 1 < second.low.toInt

/-- Intervals in the order of their low ends. -/
def Ascend (intervals : List Interval) : Prop :=
  intervals.Pairwise fun first second => first.low.toInt ≤ second.low.toInt

/-- Intervals that leave nothing of a reversed one when they are joined: they have the number before
its low end, or the low end itself if its high end is that number. -/
def Absorb (intervals : List Interval) (interval : Interval) : Prop :=
  Covers intervals (interval.low.toInt - 1) ∨
    interval.high.toInt + 1 = interval.low.toInt ∧ Covers intervals interval.low.toInt

/-- The interval that two become when they are joined. -/
def join (current next : Interval) : Interval :=
  ⟨current.low, if current.high.toInt < next.high.toInt then next.high else current.high⟩

variable {current next : Interval} {intervals others rest : List Interval} {number : Int}

/-- Nothing lies in no interval. -/
@[simp] theorem covers_nil : ¬Covers [] number := by
  rintro ⟨interval, listed, -⟩
  cases listed

/-- A number lies in the first interval or in one of the others. -/
@[simp] theorem covers_cons :
    Covers (current :: rest) number ↔
      (current.low.toInt ≤ number ∧ number ≤ current.high.toInt) ∨ Covers rest number := by
  simp [Covers]

/-- A number lies in one of the intervals of either list. -/
@[simp] theorem covers_append :
    Covers (intervals ++ others) number ↔ Covers intervals number ∨ Covers others number := by
  simp [Covers, or_and_right, exists_or]

/-- A number lies in the interval that one of some things stands for. -/
@[simp] theorem covers_map {α : Type} {things : List α} {part : α → Interval} :
    Covers (things.map part) number ↔
      ∃ thing ∈ things, (part thing).low.toInt ≤ number ∧ number ≤ (part thing).high.toInt := by
  constructor
  · rintro ⟨interval, listed, between⟩
    obtain ⟨thing, inside, rfl⟩ := List.mem_map.mp listed
    exact ⟨thing, inside, between⟩
  · rintro ⟨thing, inside, between⟩
    exact ⟨part thing, List.mem_map.mpr ⟨thing, inside, rfl⟩, between⟩

/-- A number lies in one of the intervals that some things stand for. -/
@[simp] theorem covers_flatMap {α : Type} {things : List α} {parts : α → List Interval} :
    Covers (things.flatMap parts) number ↔ ∃ thing ∈ things, Covers (parts thing) number := by
  simp only [Covers, List.mem_flatMap]
  constructor
  · rintro ⟨interval, ⟨thing, listed, part⟩, between⟩
    exact ⟨thing, listed, interval, part, between⟩
  · rintro ⟨thing, listed, interval, part, between⟩
    exact ⟨interval, ⟨thing, listed, part⟩, between⟩

/-- No intervals are canonical. -/
theorem canonical_nil : Canonical [] := ⟨by simp, List.Pairwise.nil⟩

/-- An interval with a value is canonical. -/
theorem canonical_singleton (proper : current.low.toInt ≤ current.high.toInt) :
    Canonical [current] := by
  -- There is no other interval to be apart from.
  refine ⟨?_, List.pairwise_singleton _ _⟩
  intro interval listed
  rw [List.mem_singleton.mp listed]
  exact proper

/-- What is behind the first of canonical intervals is canonical. -/
theorem Canonical.tail (canonical : Canonical (current :: rest)) : Canonical rest :=
  ⟨fun interval listed => canonical.proper interval (List.mem_cons_of_mem current listed),
    (List.pairwise_cons.mp canonical.apart).2⟩

/-- An interval with a value can come before canonical ones that it leaves a gap to. -/
theorem Canonical.cons (canonical : Canonical rest)
    (proper : current.low.toInt ≤ current.high.toInt)
    (apart : ∀ interval ∈ rest, current.high.toInt + 1 < interval.low.toInt) :
    Canonical (current :: rest) :=
  ⟨List.forall_mem_cons.mpr ⟨proper, canonical.proper⟩,
    List.pairwise_cons.mpr ⟨apart, canonical.apart⟩⟩

/-- Intervals are ordered by their low ends first. -/
theorem le_iff {a b : Interval} :
    a.le b = true ↔ a.low.toInt < b.low.toInt ∨
      a.low.toInt = b.low.toInt ∧ a.high.toInt ≤ b.high.toInt := by
  simp only [le, Bool.or_eq_true, Bool.and_eq_true, decide_eq_true_eq, beq_iff_eq]

/-- What comes after a later interval comes later. -/
theorem le_trans (a b c : Interval) (first : a.le b = true) (second : b.le c = true) :
    a.le c = true := by
  rw [le_iff] at *
  omega

/-- Of two intervals one comes first. -/
theorem le_total (a b : Interval) : (a.le b || b.le a) = true := by
  rw [Bool.or_eq_true, le_iff, le_iff]
  omega

/-- Intervals in order ascend. -/
theorem ascend_of_le (sorted : intervals.Pairwise (le · · = true)) : Ascend intervals := by
  -- Ends only matter for intervals with the same start.
  refine sorted.imp fun ordered => ?_
  rw [le_iff] at ordered
  omega

/-- Sorting brings intervals into order. -/
theorem pairwise_mergeSort (intervals : List Interval) :
    (intervals.mergeSort le).Pairwise (le · · = true) :=
  List.pairwise_mergeSort le_trans le_total intervals

/-- A joined interval starts where the first one does. -/
@[simp] theorem low_join : (join current next).low = current.low := rfl

/-- A joined interval ends where the last one does. -/
@[simp] theorem toInt_high_join :
    (join current next).high.toInt = max current.high.toInt next.high.toInt := by
  unfold join
  dsimp only
  split <;> omega

/-- Intervals that overlap or touch are joined. -/
theorem joinFrom_of_touching (touches : next.low.toInt ≤ current.high.toInt + 1) :
    joinFrom current (next :: rest) = joinFrom (join current next) rest :=
  if_pos touches

/-- Intervals with a gap between them stay apart. -/
theorem joinFrom_of_gap (gap : current.high.toInt + 1 < next.low.toInt) :
    joinFrom current (next :: rest) = current :: joinFrom next rest :=
  if_neg (by omega)

/-- Two intervals that overlap or touch have no number between them that is in neither. -/
theorem covers_join (first : current.low.toInt ≤ next.low.toInt)
    (touches : next.low.toInt ≤ current.high.toInt + 1) :
    Covers (join current next :: rest) number ↔ Covers (current :: next :: rest) number := by
  -- Only the two intervals matter, and the numbers from the start of the first to the later end.
  simp only [covers_cons, ← or_assoc, low_join, toInt_high_join]
  refine or_congr_left ?_
  omega

/-- What comes before all that follow two intervals can take their place. -/
theorem pairwise_join {relation : Interval → Interval → Prop} {joined : Interval}
    (sorted : (current :: next :: rest).Pairwise relation)
    (before : ∀ interval, relation current interval → relation next interval →
      relation joined interval) : (joined :: rest).Pairwise relation := by
  -- Both intervals come before all that follow.
  obtain ⟨front, back⟩ := List.pairwise_cons.mp sorted
  obtain ⟨middle, behind⟩ := List.pairwise_cons.mp back
  refine List.pairwise_cons.mpr ⟨?_, behind⟩
  intro interval listed
  exact before interval (front interval (List.mem_cons_of_mem next listed)) (middle interval listed)

/-- Joining intervals adds no number and takes none away. -/
theorem covers_joinFrom (sorted : Ascend (current :: rest)) :
    Covers (joinFrom current rest) number ↔ Covers (current :: rest) number := by
  -- The current interval grows as others join it, so that the induction is for each of them.
  induction rest generalizing current with
  | nil => rfl
  | cons next rest ih =>
    obtain ⟨front, back⟩ := List.pairwise_cons.mp sorted
    have first := front next List.mem_cons_self
    rcases Int.lt_or_le (current.high.toInt + 1) next.low.toInt with gap | touches
    · rw [joinFrom_of_gap gap, covers_cons, covers_cons, ih back]
    · have joined : Ascend (join current next :: rest) :=
        pairwise_join sorted fun _ early _ => early
      rw [joinFrom_of_touching touches, ih joined, covers_join first touches]

/-- No interval in order starts before the first one. -/
theorem low_le_of_mem {interval : Interval} (sorted : Ascend (current :: rest))
    (listed : interval ∈ current :: rest) : current.low.toInt ≤ interval.low.toInt := by
  -- The interval is the first one, or comes after it.
  rcases List.mem_cons.mp listed with rfl | behind
  · exact Int.le_refl _
  · exact (List.pairwise_cons.mp sorted).1 interval behind

/-- No interval in order has a number before the first one. -/
theorem low_le_of_covers (sorted : Ascend (current :: rest))
    (covered : Covers (current :: rest) number) : current.low.toInt ≤ number := by
  obtain ⟨interval, listed, above, -⟩ := covered
  exact Int.le_trans (low_le_of_mem sorted listed) above

/-- Intervals with the same numbers absorb the same. -/
theorem Absorb.congr (absorbed : Absorb intervals current)
    (same : ∀ number, Covers intervals number → Covers others number) : Absorb others current :=
  absorbed.imp (same _) (And.imp_right (same _))

/-- An interval does not take part in absorbing one that it leaves a gap to. -/
theorem Absorb.of_gap (absorbed : Absorb (current :: rest) next)
    (gap : current.high.toInt + 1 < next.low.toInt) : Absorb rest next := by
  -- The interval that is left out ends too early to cover either number.
  rcases absorbed with early | ⟨beside, covered⟩
  · exact .inl ((covers_cons.mp early).resolve_left (by omega))
  · exact .inr ⟨beside, (covers_cons.mp covered).resolve_left (by omega)⟩

/-- Nothing comes before the first interval in order, so that only those behind it absorb it. -/
theorem covers_of_absorb_first (sorted : Ascend (current :: rest))
    (reversed : current.high.toInt < current.low.toInt)
    (absorbed : Absorb (current :: rest) current) :
    current.high.toInt + 1 = current.low.toInt ∧ Covers rest current.low.toInt := by
  -- Nothing is covered before the first interval, and a reversed one does not cover its own start.
  rcases absorbed with early | ⟨beside, covered⟩
  · have := low_le_of_covers sorted early
    omega
  · rcases covers_cons.mp covered with ⟨-, before⟩ | behind
    · exact absurd before (Int.not_le.mpr reversed)
    · exact ⟨beside, behind⟩

/-- Joined intervals are canonical if nothing is left of those that are reversed, and none starts
before the first one did. -/
theorem canonical_joinFrom (sorted : Ascend (current :: rest))
    (absorbed : ∀ interval ∈ current :: rest, interval.high.toInt < interval.low.toInt →
      Absorb (current :: rest) interval) :
    Canonical (joinFrom current rest) ∧
      ∀ interval ∈ joinFrom current rest, current.low.toInt ≤ interval.low.toInt := by
  induction rest generalizing current with
  | nil =>
    have proper : current.low.toInt ≤ current.high.toInt := by
      refine Int.not_lt.mp fun reversed => ?_
      have alone := absorbed current List.mem_cons_self reversed
      exact covers_nil (covers_of_absorb_first sorted reversed alone).2
    refine ⟨canonical_singleton proper, ?_⟩
    intro interval listed
    obtain rfl := List.mem_singleton.mp listed
    exact Int.le_refl _
  | cons next rest ih =>
    obtain ⟨front, back⟩ := List.pairwise_cons.mp sorted
    have first := front next List.mem_cons_self
    -- If the current interval is reversed, one that follows has its low end.
    have behind := fun reversed =>
      covers_of_absorb_first sorted reversed (absorbed current List.mem_cons_self reversed)
    rcases Int.lt_or_le (current.high.toInt + 1) next.low.toInt with gap | touches
    · -- An interval that is not joined with the next one ends before all that follow.
      have here : current.low.toInt ≤ current.high.toInt := by
        refine Int.not_lt.mp fun reversed => ?_
        have := low_le_of_covers back (behind reversed).2
        omega
      have others : ∀ interval ∈ next :: rest, interval.high.toInt < interval.low.toInt →
          Absorb (next :: rest) interval := by
        intro interval listed reversed
        have later := low_le_of_mem back listed
        exact (absorbed interval (List.mem_cons_of_mem _ listed) reversed).of_gap (by omega)
      obtain ⟨later, beyond⟩ := ih back others
      rw [joinFrom_of_gap gap]
      constructor
      · refine later.cons here fun interval listed => ?_
        have := beyond interval listed
        omega
      · refine List.forall_mem_cons.mpr ⟨Int.le_refl _, fun interval listed => ?_⟩
        exact Int.le_trans first (beyond interval listed)
    · -- The two that are joined have the numbers of both, and absorb what these did.
      rw [joinFrom_of_touching touches]
      refine ih (pairwise_join sorted fun _ early _ => early) ?_
      intro interval listed reversed
      rcases List.mem_cons.mp listed with rfl | inRest
      · -- Two that make a reversed interval are reversed both, and end right before they start.
        rw [low_join, toInt_high_join] at reversed
        obtain ⟨beside, covered⟩ := behind (by omega)
        refine .inr ⟨?_, (covers_join first touches).mpr (covers_cons.mpr (.inr covered))⟩
        rw [low_join, toInt_high_join]
        omega
      · have there := List.mem_cons_of_mem current (List.mem_cons_of_mem next inRest)
        exact (absorbed interval there reversed).congr fun _ => (covers_join first touches).mpr

/-- Intervals are only canonical when they are joined if nothing is left of those that are
reversed. -/
theorem absorb_of_canonical_joinFrom (sorted : (current :: rest).Pairwise (le · · = true))
    (canonical : Canonical (joinFrom current rest)) :
    ∀ interval ∈ current :: rest, interval.high.toInt < interval.low.toInt →
      Absorb (current :: rest) interval := by
  induction rest generalizing current with
  | nil =>
    intro interval listed reversed
    rw [List.mem_singleton.mp listed] at reversed
    have := canonical.proper current List.mem_cons_self
    omega
  | cons next rest ih =>
    obtain ⟨front, back⟩ := List.pairwise_cons.mp sorted
    have first := le_iff.mp (front next List.mem_cons_self)
    intro interval listed reversed
    rcases Int.lt_or_le (current.high.toInt + 1) next.low.toInt with gap | touches
    · -- The current interval is in the result, so that it is not reversed.
      rw [joinFrom_of_gap gap] at canonical
      rcases List.mem_cons.mp listed with rfl | behind
      · have := canonical.proper interval List.mem_cons_self
        omega
      · exact (ih back canonical.tail interval behind reversed).congr fun _ covered =>
          covers_cons.mpr (.inr covered)
    · rw [joinFrom_of_touching touches] at canonical
      have ordered : (join current next :: rest).Pairwise (le · · = true) := by
        refine pairwise_join sorted fun later early middle => ?_
        rw [le_iff] at early middle ⊢
        rw [low_join, toInt_high_join]
        omega
      have earlier := ih ordered canonical
      have same : ∀ number, Covers (join current next :: rest) number →
          Covers (current :: next :: rest) number := fun _ => (covers_join (by omega) touches).mp
      -- Where both are reversed, they start at the same number, which a later one has.
      have shared : (join current next).high.toInt < (join current next).low.toInt →
          Covers (current :: next :: rest) current.low.toInt := by
        intro backward
        have absorbed := earlier _ List.mem_cons_self backward
        obtain ⟨-, covered⟩ := covers_of_absorb_first (ascend_of_le ordered) backward absorbed
        exact same _ (covers_cons.mpr (.inr covered))
      rw [low_join, toInt_high_join] at shared
      rcases List.mem_cons.mp listed with rfl | behind
      · -- The next interval touches the reversed one and starts no earlier: both start there.
        refine .inr ⟨by omega, ?_⟩
        rcases Int.lt_or_le (max interval.high.toInt next.high.toInt) interval.low.toInt with
          backward | forward
        · exact shared backward
        · exact ⟨next, by simp, by omega, by omega⟩
      · rcases List.mem_cons.mp behind with rfl | inRest
        · -- The current interval has the number before the reversed one if it starts earlier.
          rcases Int.lt_or_le current.low.toInt interval.low.toInt with before | _
          · exact .inl ⟨current, List.mem_cons_self, by omega, by omega⟩
          · have level : interval.low.toInt = current.low.toInt := by omega
            refine .inr ⟨by omega, ?_⟩
            rw [level]
            exact shared (by omega)
        · exact (earlier interval (List.mem_cons_of_mem _ inRest) reversed).congr same

/-- Sorting moves intervals around. -/
@[simp] theorem covers_mergeSort :
    Covers (intervals.mergeSort le) number ↔ Covers intervals number := by
  simp [Covers, List.mem_mergeSort]

/-- The normal form of intervals has the same numbers. -/
@[simp] theorem covers_normalized :
    Covers (normalized intervals) number ↔ Covers intervals number := by
  -- The intervals are sorted, which changes no number, and then joined.
  have sorted := ascend_of_le (pairwise_mergeSort intervals)
  have moved : Covers (intervals.mergeSort le) number ↔ Covers intervals number := covers_mergeSort
  rw [← moved]
  unfold normalized
  split
  · rename_i none
    rw [none]
  · rename_i first rest some
    rw [some] at sorted ⊢
    exact covers_joinFrom sorted

/-- The normal form of intervals is canonical if and only if nothing is left of those that are
reversed. -/
theorem canonical_normalized_iff :
    Canonical (normalized intervals) ↔
      ∀ interval ∈ intervals, interval.high.toInt < interval.low.toInt →
        Absorb intervals interval := by
  -- Sorting changes neither the intervals nor what they cover.
  have sorted := pairwise_mergeSort intervals
  have moved : (∀ interval ∈ intervals, interval.high.toInt < interval.low.toInt →
      Absorb intervals interval) ↔
      ∀ interval ∈ intervals.mergeSort le, interval.high.toInt < interval.low.toInt →
        Absorb (intervals.mergeSort le) interval := by
    simp only [List.mem_mergeSort, Absorb, covers_mergeSort]
  rw [moved]
  unfold normalized
  split
  · rename_i none
    simp [none, canonical_nil]
  · rename_i first rest some
    rw [some] at sorted ⊢
    exact ⟨absorb_of_canonical_joinFrom sorted, fun absorbed =>
      (canonical_joinFrom (ascend_of_le sorted) absorbed).1⟩

/-- The normal form of intervals that have values is canonical. -/
theorem canonical_normalized
    (proper : ∀ interval ∈ intervals, interval.low.toInt ≤ interval.high.toInt) :
    Canonical (normalized intervals) := by
  -- None of the intervals is reversed.
  refine canonical_normalized_iff.mpr fun interval listed reversed => ?_
  have := proper interval listed
  omega

end Interval

namespace ValueSet

/-- A set in canonical form. -/
def Canonical (set : ValueSet) : Prop := Interval.Canonical set.intervals

variable {set other : ValueSet} {value : Int32}

/-- A value is in a set if its number lies in one of the intervals. -/
theorem contains_iff : set.contains value = true ↔ Interval.Covers set.intervals value.toInt := by
  simp [contains, Interval.contains, Interval.Covers]

/-- The values between two are canonical. -/
theorem canonical_interval (low high : Int32) : (interval low high).Canonical := by
  -- Ends in the wrong order are turned around.
  unfold interval
  split
  · exact Interval.canonical_singleton (by assumption)
  · refine Interval.canonical_singleton ?_
    dsimp only
    omega

/-- A value is between two others if its number is. -/
theorem contains_interval {low high : Int32} (ordered : low.toInt ≤ high.toInt) :
    (interval low high).contains value = true ↔
      low.toInt ≤ value.toInt ∧ value.toInt ≤ high.toInt := by
  -- The ends are in order, so that they are not turned around.
  rw [contains_iff, interval, if_pos ordered]
  simp

/-- One value is canonical. -/
theorem canonical_of (value : Int32) : (of value).Canonical := canonical_interval value value

/-- The set of a value has that value alone. -/
@[simp] theorem contains_of {only : Int32} : (of only).contains value = true ↔ value = only := by
  -- Nothing else is between a number and itself.
  rw [of, contains_interval (Int.le_refl _), ← Int32.toInt_inj]
  omega

/-- All values are canonical. -/
theorem canonical_all : all.Canonical := canonical_interval _ _

/-- Every value is among all. -/
@[simp] theorem contains_all : all.contains value = true := by
  -- The ends are those of all words.
  have low := Int32.le_toInt value
  have high := Int32.toInt_lt value
  rw [all, contains_interval (by decide)]
  simp only [show Int32.minValue.toInt = -2147483648 from rfl,
    show Int32.maxValue.toInt = 2147483647 from rfl]
  omega

/-- No values are canonical. -/
theorem canonical_empty : empty.Canonical := Interval.canonical_nil

/-- The values of a list are canonical. -/
theorem canonical_ofList (values : List Int32) : (ofList values).Canonical := by
  refine Interval.canonical_normalized ?_
  -- Each value is an interval of its own.
  intro interval listed
  obtain ⟨value, -, rfl⟩ := List.mem_map.mp listed
  exact Int.le_refl _

/-- The set of a list has its values. -/
@[simp] theorem contains_ofList {values : List Int32} :
    (ofList values).contains value = true ↔ value ∈ values := by
  -- The interval of a value has this value only.
  rw [contains_iff, ofList, Interval.covers_normalized, Interval.covers_map]
  constructor
  · rintro ⟨member, listed, above, below⟩
    rwa [Int32.toInt_inj.mp (Int.le_antisymm below above)]
  · intro listed
    exact ⟨value, listed, Int.le_refl _, Int.le_refl _⟩

/-- The union of two sets is canonical. -/
theorem Canonical.union (canonical : set.Canonical) (more : other.Canonical) :
    (set.union other).Canonical := by
  refine Interval.canonical_normalized ?_
  intro interval listed
  -- An interval comes from one of the two sets.
  rcases List.mem_append.mp listed with here | there
  · exact canonical.proper interval here
  · exact more.proper interval there

/-- The union of two sets has the values of both. -/
@[simp] theorem contains_union :
    (set.union other).contains value = true ↔
      set.contains value = true ∨ other.contains value = true := by
  simp only [contains_iff, union, Interval.covers_normalized, Interval.covers_append]

/-- A set with a value has an interval. -/
theorem isEmpty_of_contains (member : set.contains value = true) : set.isEmpty = false := by
  -- The interval that has the value is one.
  obtain ⟨interval, listed, -⟩ := contains_iff.mp member
  rw [isEmpty, List.isEmpty_eq_false_iff]
  exact List.ne_nil_of_mem listed

/-- The low end of a canonical set is not above any of its values. -/
theorem Canonical.min?_le (canonical : set.Canonical) (member : set.contains value = true) :
    ∃ low, set.min? = some low ∧ low.toInt ≤ value.toInt := by
  obtain ⟨⟨intervals⟩, proper, apart⟩ := set, canonical
  obtain ⟨interval, listed, above, -⟩ := contains_iff.mp member
  cases intervals with
  | nil => cases listed
  | cons first rest =>
    refine ⟨first.low, rfl, ?_⟩
    -- All other intervals start behind the first one.
    rcases List.mem_cons.mp listed with rfl | behind
    · exact above
    · have gap := (List.pairwise_cons.mp apart).1 interval behind
      have here := proper first List.mem_cons_self
      omega

/-- The high end of a canonical set is not below any of its values. -/
theorem Canonical.le_max? (canonical : set.Canonical) (member : set.contains value = true) :
    ∃ high, set.max? = some high ∧ value.toInt ≤ high.toInt := by
  obtain ⟨⟨intervals⟩, proper, apart⟩ := set, canonical
  obtain ⟨interval, listed, -, below⟩ := contains_iff.mp member
  rcases List.eq_nil_or_concat intervals with rfl | ⟨front, last, rfl⟩
  · cases listed
  · rw [List.concat_eq_append] at proper apart listed ⊢
    refine ⟨last.high, by simp [max?], ?_⟩
    -- All other intervals end before the last one.
    rcases List.mem_append.mp listed with before | same
    · have gap := (List.pairwise_append.mp apart).2.2 interval before last List.mem_cons_self
      have there := proper last (by simp)
      omega
    · rw [List.mem_singleton.mp same] at below
      exact below

end ValueSet

end QuestScript
