import QuestScript.Proofs.Discovery.Invariant

/-! The segments of a discovery stand in the order of their offsets, one at each of them. -/

namespace QuestScript

namespace SegmentMap

variable {map : SegmentMap} {offset : Nat} {segment : Segment}

/-- Segments in the order of their offsets, one at each of them. -/
def Ascends (map : SegmentMap) : Prop :=
  List.Pairwise (fun first second => first.1 < second.1) map

/-- No segments are in order. -/
theorem ascends_nil : SegmentMap.Ascends [] := List.Pairwise.nil

/-- An entry that is there after a segment was put is that segment's, or was there before. -/
theorem mem_of_mem_insert {entry : Nat × Segment} (listed : entry ∈ map.insert offset segment) :
    entry = (offset, segment) ∨ entry ∈ map := by
  -- Entries are passed over until the offset's place is found.
  induction map with
  | nil => exact .inl (List.mem_singleton.mp listed)
  | cons first rest ih =>
    unfold SegmentMap.insert at listed
    split at listed
    · simpa using listed
    · split at listed
      · -- The first entry is gone, but the others are those from before.
        rcases List.mem_cons.mp listed with same | behind
        · exact .inl same
        · exact .inr (List.mem_cons_of_mem first behind)
      · rcases List.mem_cons.mp listed with same | behind
        · exact .inr (same ▸ List.mem_cons_self)
        · exact (ih behind).imp_right (List.mem_cons_of_mem first)

/-- A segment that is put keeps the others in order. -/
theorem Ascends.insert (ordered : map.Ascends) : (map.insert offset segment).Ascends := by
  -- The segment goes in front of the first one behind its offset.
  induction map with
  | nil => exact List.pairwise_singleton _ _
  | cons first rest ih =>
    obtain ⟨front, back⟩ := List.pairwise_cons.mp ordered
    unfold SegmentMap.insert
    split
    · rename_i before
      refine List.pairwise_cons.mpr ⟨?_, ordered⟩
      intro entry listed
      rcases List.mem_cons.mp listed with rfl | behind
      · exact before
      · exact Nat.lt_trans before (front entry behind)
    · split
      · -- The segment takes the place of the first, which has its offset.
        rename_i same
        refine List.pairwise_cons.mpr ⟨?_, back⟩
        intro entry behind
        rw [same]
        exact front entry behind
      · -- The first stays in front of the others and of the segment, too.
        refine List.pairwise_cons.mpr ⟨?_, ih back⟩
        intro entry listed
        rcases mem_of_mem_insert listed with rfl | behind
        · dsimp only
          omega
        · exact front entry behind

/-- Of two segments that are put at one offset the second stays. -/
theorem insert_insert {later : Segment} :
    (map.insert offset segment).insert offset later = map.insert offset later := by
  -- The second segment meets the first where that was put.
  induction map with
  | nil => simp [SegmentMap.insert]
  | cons first rest ih =>
    by_cases before : offset < first.1
    · simp [SegmentMap.insert, before]
    · by_cases same : offset = first.1
      · simp [SegmentMap.insert, same]
      · simp [SegmentMap.insert, before, same, ih]

/-- What is found at an offset is listed there. -/
theorem mem_of_find?_eq_some (found : map.find? offset = some segment) :
    (offset, segment) ∈ map := by
  obtain ⟨entry, first, rfl⟩ := Option.map_eq_some_iff.mp found
  -- The entry that the search stops at has the offset that is looked for.
  have here : entry.1 = offset := by simpa using List.find?_some first
  rw [← here]
  exact List.mem_of_find?_eq_some first

/-- What is listed at an offset is found there. -/
theorem Ascends.find?_of_mem (ordered : map.Ascends) (listed : (offset, segment) ∈ map) :
    map.find? offset = some segment := by
  -- No entry before this one has its offset.
  induction map with
  | nil => cases listed
  | cons first rest ih =>
    obtain ⟨front, back⟩ := List.pairwise_cons.mp ordered
    rcases List.mem_cons.mp listed with rfl | behind
    · simp [find?]
    · -- The first entry stands at a lower offset, so that the search goes on.
      have lower := front _ behind
      have passed : (first.1 == offset) = false := by
        dsimp only at lower
        simp only [beq_eq_false_iff_ne]
        omega
      simpa [find?, List.find?_cons, passed] using ih back behind

/-- There is one segment more where there was none, and as many as before otherwise. -/
theorem Ascends.length_insert (ordered : map.Ascends) :
    (map.insert offset segment).length =
      map.length + if (map.find? offset).isSome then 0 else 1 := by
  -- Where the segment goes is decided by the first entry that does not come before it.
  induction map with
  | nil => rfl
  | cons first rest ih =>
    obtain ⟨front, back⟩ := List.pairwise_cons.mp ordered
    unfold SegmentMap.insert
    split
    · -- All others are behind the offset, so that nothing is found there.
      rename_i before
      have absent : SegmentMap.find? (first :: rest) offset = none := by
        cases found : SegmentMap.find? (first :: rest) offset with
        | none => rfl
        | some other =>
          rcases List.mem_cons.mp (mem_of_find?_eq_some found) with rfl | behind
          · omega
          · have later := front _ behind
            dsimp only at later
            omega
      simp [absent]
    · split
      · rename_i same
        simp [find?, same]
      · rename_i apart
        have passed : (first.1 == offset) = false := by simpa using Ne.symm apart
        have others : SegmentMap.find? (first :: rest) offset = SegmentMap.find? rest offset := by
          simp [find?, passed]
        rw [others, List.length_cons, List.length_cons, ih back]
        omega

end SegmentMap

namespace Discovery

variable {source : Source} {state next last : Discovery}

/-- A change keeps the segments in order. -/
theorem ascends_of_step (ordered : state.segments.Ascends) (step : state.Step source next) :
    next.segments.Ascends := by
  -- A change leaves the segments alone or puts one among them.
  cases step with
  | note segments =>
    rw [segments]
    exact ordered
  | report label absent =>
    rw [reportUnregistered_segments]
    exact ordered
  | spoil offset cause unreadable => exact ordered
  | name label offset existing placed here => exact ordered.insert
  | place label offset content placed inside fresh reads => exact ordered.insert
  | replace offset existing content here notCode rises reads => exact ordered.insert

/-- Changes keep the segments in order. -/
theorem ascends_of_reaches (ordered : state.segments.Ascends)
    (reached : state.Reaches source last) : last.segments.Ascends := by
  -- Each change keeps the order that the one before it has kept.
  induction reached with
  | refl state => exact ordered
  | step first others ih => exact ih (ascends_of_step ordered first)

end Discovery

end QuestScript
