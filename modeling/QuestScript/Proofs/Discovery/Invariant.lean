import QuestScript.Proofs.Discovery.Step
import QuestScript.Proofs.Label

/-! What holds of all that is ever discovered, and what later changes keep of it. -/

namespace QuestScript

namespace Source

/-- A range ends inside the script. -/
theorem stopAt_le (source : Source) (offset : Nat) : source.stopAt offset ≤ source.bytes.length :=
  LabelIndex.rangeEnd_le

/-- A range that starts inside the script is not empty. -/
theorem lt_stopAt {source : Source} {offset : Nat} (inside : offset < source.bytes.length) :
    offset < source.stopAt offset :=
  LabelIndex.lt_rangeEnd inside

end Source

/-- A segment that belongs at an offset: it is read from there, and its labels point there. -/
structure Source.Describes (source : Source) (offset : Nat) (segment : Segment) : Prop where
  inside : offset < source.bytes.length
  labelled : segment.labels ≠ []
  placed : ∀ label ∈ segment.labels, source.index.offset? label = some offset
  reads : source.Reads offset segment.content

/-- A segment that another has become: it has no fewer labels and no lower priority, and code stays
what it is. -/
structure Segment.Grows (segment later : Segment) : Prop where
  labels : ∀ label ∈ segment.labels, label ∈ later.labels
  priority : segment.kind.priority ≤ later.kind.priority
  code : segment.kind = .code → later.content = segment.content

namespace Segment.Grows

/-- A segment stays what it is. -/
theorem refl (segment : Segment) : segment.Grows segment :=
  ⟨fun _ carried => carried, Nat.le_refl _, fun _ => rfl⟩

/-- What a segment has become grows on. -/
theorem trans {segment middle later : Segment} (first : segment.Grows middle)
    (second : middle.Grows later) : segment.Grows later where
  labels := fun label carried => second.labels label (first.labels label carried)
  priority := Nat.le_trans first.priority second.priority
  code := by
    intro code
    have same := first.code code
    -- Code has stayed code on its way, and so it stays to the end.
    have still : middle.kind = .code := by
      rw [Segment.kind, same]
      exact code
    rw [second.code still, same]

/-- A label more makes no difference to what a segment is. -/
theorem addLabel (segment : Segment) (label : Label) : segment.Grows (segment.addLabel label) :=
  ⟨fun _ carried => LabelSet.mem_insert.mpr (.inr carried), Nat.le_refl _, fun _ => rfl⟩

end Segment.Grows

namespace Discovery

/-- A report leaves the segments alone. -/
@[simp] theorem reportUnregistered_segments (state : Discovery) (options : ParseOptions)
    (label : Label) : (state.reportUnregistered options label).segments = state.segments := by
  -- A report is about a label, and touches no segment.
  unfold reportUnregistered
  split
  · rfl
  · rfl

/-- All that has been discovered belongs where it is. -/
def Sound (source : Source) (state : Discovery) : Prop :=
  ∀ offset segment, state.segments.find? offset = some segment → source.Describes offset segment

/-- One discovery keeps what another has discovered. -/
def Grows (state last : Discovery) : Prop :=
  ∀ offset segment, state.segments.find? offset = some segment →
    ∃ later, last.segments.find? offset = some later ∧ segment.Grows later

variable {source : Source} {state next last : Discovery}

/-- Nothing that was discovered is wrong before anything is. -/
theorem sound_empty (source : Source) : Sound source {} := by
  intro offset segment found
  cases found

/-- A segment that belongs where it is put leaves all where it belongs. -/
theorem Sound.setSegment (sound : state.Sound source) {offset : Nat} {segment : Segment}
    (described : source.Describes offset segment) :
    (state.setSegment offset segment).Sound source := by
  -- What is found is the new segment, or was there before.
  intro other found here
  rcases SegmentMap.find?_insert_eq_some.mp here with ⟨rfl, rfl⟩ | ⟨-, before⟩
  · exact described
  · exact sound other found before

/-- A change puts nothing where it does not belong. -/
theorem Sound.step (sound : state.Sound source) (step : state.Step source next) :
    next.Sound source := by
  -- Only three of the changes put a segment anywhere.
  cases step with
  | note segments =>
    intro offset segment found
    exact sound offset segment (by rwa [segments] at found)
  | report label absent =>
    intro offset segment found
    exact sound offset segment (by rwa [reportUnregistered_segments] at found)
  | spoil offset cause unreadable => exact sound
  | name label offset existing placed here =>
    -- The label that joins the others points to where the segment is.
    have before := sound offset existing here
    refine sound.setSegment ⟨before.inside, ?_, ?_, before.reads⟩
    · exact List.ne_nil_of_mem (LabelSet.mem_insert.mpr (.inl rfl))
    · intro other carried
      rcases LabelSet.mem_insert.mp carried with rfl | earlier
      · exact placed
      · exact before.placed other earlier
  | place label offset content placed inside fresh reads =>
    refine sound.setSegment ⟨inside, List.cons_ne_nil label [], ?_, reads⟩
    intro other carried
    -- The only label is the one that the range was decoded for.
    rw [List.mem_singleton.mp carried]
    exact placed
  | replace offset existing content here notCode rises reads =>
    -- The labels are those of the segment that was there.
    have before := sound offset existing here
    exact sound.setSegment ⟨before.inside, before.labelled, before.placed, reads⟩

/-- Changes put nothing where it does not belong. -/
theorem Sound.reaches (sound : state.Sound source) (reached : state.Reaches source last) :
    last.Sound source := by
  -- Every change on the way keeps what holds before it.
  induction reached with
  | refl state => exact sound
  | step first others ih => exact ih (sound.step first)

/-- A discovery keeps what it has. -/
theorem Grows.refl (state : Discovery) : state.Grows state :=
  fun _ segment found => ⟨segment, found, .refl segment⟩

/-- What is kept twice is kept. -/
theorem Grows.trans (first : state.Grows next) (second : next.Grows last) : state.Grows last := by
  -- A segment is followed from one state to the next.
  intro offset segment found
  obtain ⟨middle, foundMiddle, grown⟩ := first offset segment found
  obtain ⟨later, foundLater, more⟩ := second offset middle foundMiddle
  exact ⟨later, foundLater, grown.trans more⟩

/-- A discovery with the same segments keeps them. -/
theorem grows_of_eq (same : next.segments = state.segments) : state.Grows next := by
  intro offset segment found
  exact ⟨segment, by rw [same]; exact found, .refl segment⟩

/-- A segment that takes the place of one it grows from leaves all others as they are. -/
theorem grows_setSegment {offset : Nat} {segment : Segment}
    (grown : ∀ existing, state.segments.find? offset = some existing → existing.Grows segment) :
    state.Grows (state.setSegment offset segment) := by
  intro other found here
  -- Elsewhere nothing changes.
  by_cases same : other = offset
  · subst same
    exact ⟨segment, SegmentMap.find?_insert_self, grown found here⟩
  · refine ⟨found, ?_, .refl found⟩
    exact SegmentMap.find?_insert_eq_some.mpr (.inr ⟨same, here⟩)

/-- A change keeps what was discovered. -/
theorem grows_of_step (step : state.Step source next) : state.Grows next := by
  -- Only a label that joins and a range that is read anew change a segment.
  cases step with
  | note segments => exact grows_of_eq segments
  | report label absent => exact grows_of_eq (reportUnregistered_segments _ _ _)
  | spoil offset cause unreadable => exact grows_of_eq rfl
  | name label offset existing placed here =>
    refine grows_setSegment fun other found => ?_
    obtain rfl : existing = other := Option.some.inj (here.symm.trans found)
    exact .addLabel existing label
  | place label offset content placed inside fresh reads =>
    refine grows_setSegment fun other found => ?_
    -- There was no segment to keep.
    rw [fresh] at found
    cases found
  | replace offset existing content here notCode rises reads =>
    refine grows_setSegment fun other found => ?_
    obtain rfl : existing = other := Option.some.inj (here.symm.trans found)
    exact ⟨fun _ carried => carried, rises, fun code => absurd code notCode⟩

/-- Changes keep what was discovered. -/
theorem grows_of_reaches (reached : state.Reaches source last) : state.Grows last := by
  -- Each change keeps what the one before it has kept.
  induction reached with
  | refl state => exact .refl state
  | step first others ih => exact (grows_of_step first).trans ih

/-- The problem that a label has no place. -/
def unregistered (options : ParseOptions) (label : Label) : Problem :=
  let text := s!"Label {label} is not registered in the label table."
  ⟨if options.lenient then .warning else .error, text, text⟩

/-- The problems of a discovery are the labels that were reported, the oldest first. -/
def Accounts (source : Source) (state : Discovery) : Prop :=
  state.problems = state.reported.reverse.map (unregistered source.options)

/-- A change adds no other problem than a report. -/
theorem Accounts.step (accounts : state.Accounts source) (step : state.Step source next) :
    next.Accounts source := by
  -- Of all changes only a report touches the problems.
  unfold Accounts at *
  cases step with
  | note segments invalidTexts reported problems failed => rw [problems, reported, accounts]
  | report label absent =>
    unfold reportUnregistered
    split
    · exact accounts
    · -- The report is the latest problem and the latest label.
      simp only [addProblem, log, List.reverse_cons, List.map_append, List.map_cons, List.map_nil,
        accounts]
      rfl
  | spoil offset cause unreadable => exact accounts
  | name label offset existing placed here => exact accounts
  | place label offset content placed inside fresh reads => exact accounts
  | replace offset existing content here notCode rises reads => exact accounts

/-- Changes add no other problem than reports. -/
theorem Accounts.reaches (accounts : state.Accounts source)
    (reached : state.Reaches source last) : last.Accounts source := by
  -- Each change leaves the problems accounted for.
  induction reached with
  | refl state => exact accounts
  | step first others ih => exact ih (accounts.step first)

end Discovery

variable {source : Source} {entries : List Label} {passes : Nat} {state : Discovery}

/-- A discovery that succeeds gets to its end by changes. -/
theorem reaches_of_runDiscovery (run : runDiscovery source entries {} = .ok passes state) :
    Discovery.Reaches source {} state :=
  (walks_runDiscovery source entries).reaches run

/-- All that a discovery ends with belongs where it is. -/
theorem sound_of_runDiscovery (run : runDiscovery source entries {} = .ok passes state) :
    state.Sound source :=
  (Discovery.sound_empty source).reaches (reaches_of_runDiscovery run)

/-- The problems of a discovery are its reports. -/
theorem accounts_of_runDiscovery (run : runDiscovery source entries {} = .ok passes state) :
    state.Accounts source := by
  -- Before the first change there are neither reports nor problems.
  have none : Discovery.Accounts source {} := rfl
  exact none.reaches (reaches_of_runDiscovery run)

end QuestScript
