import QuestScript.Discovery.Harvest
import QuestScript.Proofs.Steps

/-! The changes that a discovery is made of.

All that is proved about what is discovered is proved about these changes, one by one. -/

namespace QuestScript

namespace SegmentMap

variable {map : SegmentMap} {offset other : Nat} {segment : Segment}

/-- A segment is found where it was put, and the others where they were. -/
theorem find?_insert :
    (map.insert offset segment).find? other =
      if other = offset then some segment else map.find? other := by
  -- The map ascends, so that a segment goes in front of the first one behind its offset.
  induction map with
  | nil =>
    unfold SegmentMap.insert
    by_cases same : other = offset
    · simp [find?, same]
    · simp [find?, same, Ne.symm same]
  | cons first rest ih =>
    unfold SegmentMap.insert
    split
    · by_cases same : other = offset
      · simp [find?, same]
      · simp [find?, same, Ne.symm same]
    · split
      · -- The segment takes the place of the one that was there.
        rename_i here
        by_cases same : other = offset
        · simp [find?, same]
        · have passed : (first.1 == other) = false := by simpa [← here] using Ne.symm same
          simp [find?, same, Ne.symm same, passed]
      -- The segment goes behind the first, which is found as before.
      · rename_i elsewhere
        by_cases front : first.1 = other
        · have apart : other ≠ offset := fun same => elsewhere (same.symm.trans front.symm)
          simp [find?, front, apart]
        · have passed : (first.1 == other) = false := by simpa using front
          simpa [find?, List.find?_cons, passed] using ih

/-- A segment is found where it was put. -/
@[simp] theorem find?_insert_self : (map.insert offset segment).find? offset = some segment := by
  rw [find?_insert, if_pos rfl]

/-- A segment that is found after another was put is that one or was there before. -/
theorem find?_insert_eq_some {found : Segment} :
    (map.insert offset segment).find? other = some found ↔
      other = offset ∧ found = segment ∨ other ≠ offset ∧ map.find? other = some found := by
  -- The offset says which of both it is.
  rw [find?_insert]
  split
  · rename_i same
    simp [same, eq_comm]
  · rename_i apart
    simp [apart]

end SegmentMap

namespace Source

/-- The end of the range that starts at an offset. -/
def stopAt (source : Source) (offset : Nat) : Nat :=
  source.index.rangeEnd source.bytes.length offset

/-- A content that the range at an offset can be read as. -/
def Reads (source : Source) (offset : Nat) : Content → Prop
  | .data bytes => bytes = source.slice offset (source.stopAt offset)
  | .text value stored =>
    stored = some (source.stopAt offset - offset) ∧
      source.decodeText offset (source.stopAt offset) = .ok value
  | .code instructions =>
    ∃ journal, source.decodeSegment offset (source.stopAt offset) = .ok (instructions, journal)

end Source

namespace Discovery

/-- One change of a discovery. -/
inductive Step (source : Source) (state : Discovery) : Discovery → Prop where
  /-- Something is noted that no segment, text or problem depends on. -/
  | note {next : Discovery} (segments : next.segments = state.segments)
    (invalidTexts : next.invalidTexts = state.invalidTexts)
    (reported : next.reported = state.reported) (problems : next.problems = state.problems)
    (failed : next.failed = state.failed) : Step source state next
  /-- A label without a place is reported. -/
  | report (label : Label) (absent : source.index.offset? label = none) :
    Step source state (state.reportUnregistered source.options label)
  /-- A range turns out not to be a text. -/
  | spoil (offset : Nat) (cause : DecodeError)
    (unreadable : source.decodeText offset (source.stopAt offset) = .error cause) :
    Step source state { state with invalidTexts := offset :: state.invalidTexts }
  /-- A label is put on the segment it points at. -/
  | name (label : Label) (offset : Nat) (existing : Segment)
    (placed : source.index.offset? label = some offset)
    (here : state.segments.find? offset = some existing) :
    Step source state (state.setSegment offset (existing.addLabel label))
  /-- A segment is put where there was none. -/
  | place (label : Label) (offset : Nat) (content : Content)
    (placed : source.index.offset? label = some offset) (inside : offset < source.bytes.length)
    (fresh : state.segments.find? offset = none) (reads : source.Reads offset content) :
    Step source state (state.setSegment offset ⟨[label], content⟩)
  /-- A segment that is not code is read anew, for what has no lower priority. -/
  | replace (offset : Nat) (existing : Segment) (content : Content)
    (here : state.segments.find? offset = some existing) (notCode : existing.kind ≠ .code)
    (rises : existing.kind.priority ≤ content.kind.priority)
    (reads : source.Reads offset content) :
    Step source state (state.setSegment offset ⟨existing.labels, content⟩)

/-- A discovery that gets to another by changes. -/
inductive Reaches (source : Source) : Discovery → Discovery → Prop where
  | refl (state : Discovery) : Reaches source state state
  | step {state next last : Discovery} (first : state.Step source next)
    (others : Reaches source next last) : Reaches source state last

namespace Reaches

variable {source : Source} {state middle last : Discovery}

/-- A single change. -/
theorem of_step (step : state.Step source last) : state.Reaches source last :=
  .step step (.refl last)

/-- Changes after changes. -/
theorem trans (first : state.Reaches source middle) (second : middle.Reaches source last) :
    state.Reaches source last := by
  -- The changes of the first come before those of the second.
  induction first with
  | refl state => exact second
  | step change others ih => exact .step change (ih second)

end Reaches

/-- What is logged changes nothing else. -/
theorem step_log (source : Source) (state : Discovery) (entries : Journal) :
    state.Step source (state.log entries) :=
  .note rfl rfl rfl rfl rfl

end Discovery

/-- Whatever a computation does to a discovery, it does by changes. -/
def Walks (source : Source) {α : Type} (run : Discovering α) : Prop :=
  ∀ state : Discovery, state.Reaches source (stateAfter (run state))

namespace Walks

variable {source : Source} {α β : Type}

/-- Nothing is changed by a result alone. -/
theorem pure (value : α) : Walks source (Pure.pure value) := fun state => .refl state

/-- Two computations change what each of them does. -/
theorem bind {first : Discovering α} {second : α → Discovering β} (front : Walks source first)
    (back : ∀ value, Walks source (second value)) : Walks source (first >>= second) := by
  intro state
  -- A failure of the first leaves what it has done until then.
  have reached := front state
  cases run : first state with
  | ok value next =>
    rw [run] at reached
    rw [bind_of_ok run]
    exact reached.trans (back value next)
  | error failure next =>
    rw [run] at reached
    rwa [bind_of_error run]

/-- A computation that succeeds has got where it is by changes. -/
theorem reaches {run : Discovering α} (walks : Walks source run) {state after : Discovery}
    {value : α} (ran : run state = .ok value after) : state.Reaches source after := by
  have reached := walks state
  rwa [ran] at reached

end Walks

/-- Decoding a range fails and changes nothing, or it notes something and puts a segment there. -/
theorem decodeAt_cases (source : Source) (offset : Nat) (kind : SegmentKind) (labels : LabelSet)
    (state : Discovery) :
    (∃ failure, decodeAt source offset kind labels state = .error failure state) ∨
      ∃ next content between,
        decodeAt source offset kind labels state =
          .ok next (between.setSegment offset ⟨labels, content⟩) ∧
        state.Reaches source between ∧ between.segments = state.segments ∧
        source.Reads offset content ∧
        (content.kind = kind ∨ kind = .text ∧ content.kind = .data) := by
  -- Data is always there, a text may turn out to be data, and only code can fail.
  cases kind with
  | data =>
    exact .inr ⟨none, .data (source.slice offset (source.stopAt offset)), state, rfl, .refl state,
      rfl, rfl, .inl rfl⟩
  | text =>
    refine .inr ?_
    cases read : source.decodeText offset (source.stopAt offset) with
    | ok text =>
      refine ⟨none, .text text (some (source.stopAt offset - offset)), state, ?_, .refl state, rfl,
        ⟨rfl, read⟩, .inl rfl⟩
      simp only [decodeAt, show source.decodeText offset
        (source.index.rangeEnd source.bytes.length offset) = _ from read]
      rfl
    | error cause =>
      -- The text is given up in the log first, and then for good.
      let entry : LogEntry := ⟨.warning, .discovery,
        s!"Keeping string segment at offset {offset} as data: {cause.message}"⟩
      refine ⟨none, .data (source.slice offset (source.stopAt offset)),
        { state.log [entry] with invalidTexts := offset :: state.invalidTexts }, ?_, ?_, rfl, rfl,
        .inr ⟨rfl, rfl⟩⟩
      · simp only [decodeAt, show source.decodeText offset
          (source.index.rangeEnd source.bytes.length offset) = _ from read]
        rfl
      · exact .step (Discovery.step_log source state [entry])
          (.of_step (.spoil offset cause read))
  | code =>
    cases read : source.decodeSegment offset (source.stopAt offset) with
    | error failure =>
      refine .inl ⟨failure, ?_⟩
      simp only [decodeAt, show source.decodeSegment offset
        (source.index.rangeEnd source.bytes.length offset) = _ from read]
    | ok result =>
      obtain ⟨instructions, journal⟩ := result
      -- What control goes on with does not matter to the segment.
      refine .inr ⟨(if leavesExplicitly instructions then none
        else source.index.firstAfter? offset).map (·.label), .code instructions,
        state.log journal, ?_,
        .of_step (Discovery.step_log source state journal), rfl, ⟨journal, read⟩, .inl rfl⟩
      simp only [decodeAt, show source.decodeSegment offset
        (source.index.rangeEnd source.bytes.length offset) = _ from read]

/-- A kind of lower priority than another is not code, and no higher than what becomes of that. -/
theorem SegmentKind.rises {existing kind made : SegmentKind}
    (lower : existing.priority < kind.priority)
    (becomes : made = kind ∨ kind = .text ∧ made = .data) :
    existing ≠ .code ∧ existing.priority ≤ made.priority := by
  -- A range that is wanted as a text may only become data.
  rcases becomes with rfl | ⟨rfl, rfl⟩
  · refine ⟨?_, Nat.le_of_lt lower⟩
    rintro rfl
    cases made <;> exact absurd lower (by decide)
  · -- Below text there is only data.
    cases existing with
    | data => exact ⟨by decide, Nat.le_refl _⟩
    | text => exact absurd lower (by decide)
    | code => exact absurd lower (by decide)

/-- A range is decoded for the first time by changes. -/
theorem reaches_decodeAt_first {source : Source} {state : Discovery} {label : Label} {offset : Nat}
    {kind : SegmentKind} (placed : source.index.offset? label = some offset)
    (inside : offset < source.bytes.length) (fresh : state.segments.find? offset = none) :
    state.Reaches source (stateAfter (decodeAt source offset kind [label] state)) := by
  rcases decodeAt_cases source offset kind [label] state with
    ⟨failure, run⟩ | ⟨next, content, between, run, reached, same, reads, -⟩
  -- A failure has changed nothing.
  · rw [run]
    exact .refl state
  · rw [run]
    -- What was noted in between has put no segment there.
    rw [← same] at fresh
    exact reached.trans (.of_step (.place label offset content placed inside fresh reads))

/-- A range is decoded again by changes. -/
theorem reaches_decodeAt_again {source : Source} {state : Discovery} {offset : Nat}
    {kind : SegmentKind} {existing : Segment} (here : state.segments.find? offset = some existing)
    (lower : existing.kind.priority < kind.priority) :
    state.Reaches source (stateAfter (decodeAt source offset kind existing.labels state)) := by
  rcases decodeAt_cases source offset kind existing.labels state with
    ⟨failure, run⟩ | ⟨next, content, between, run, reached, same, reads, becomes⟩
  · rw [run]
    exact .refl state
  · rw [run]
    -- What was noted in between has left the segment there.
    rw [← same] at here
    obtain ⟨notCode, rises⟩ := SegmentKind.rises lower becomes
    exact reached.trans (.of_step (.replace offset existing content here notCode rises reads))

/-- The range at one label is discovered by changes. -/
theorem walks_discoverOne (source : Source) (label : Label) (kind : SegmentKind) :
    Walks source (discoverOne source label kind) := by
  -- Every way through the definition makes one of the changes, or two in a row.
  intro state
  unfold discoverOne
  split
  · rename_i absent
    exact .of_step (.report label absent)
  · rename_i offset placed
    split
    · exact .of_step (Discovery.step_log source state _)
    · rename_i inside
      split
      · rename_i fresh
        exact reaches_decodeAt_first placed (Nat.lt_of_not_le inside) fresh
      · rename_i existing here
        -- The label is put on the segment, whether that is read anew or not.
        have named := Discovery.Step.name label offset existing placed here
        dsimp only
        split
        · rename_i again
          rw [Bool.and_eq_true, decide_eq_true_eq] at again
          refine .step named (.step ?_ (reaches_decodeAt_again ?_ ?_))
          · exact .note rfl rfl rfl rfl rfl
          · exact SegmentMap.find?_insert_self
          · exact again.1
        · exact .of_step named

/-- The code that control drops into is discovered by changes. -/
theorem walks_discoverChain (source : Source) (steps : Nat) (label : Label) (kind : SegmentKind) :
    Walks source (discoverChain source steps label kind) := by
  -- Every step of the chain is the discovery of one label.
  induction steps generalizing label kind with
  | zero => exact .pure ()
  | succ steps ih =>
    refine (walks_discoverOne source label kind).bind fun next => ?_
    cases next with
    | none => exact .pure ()
    | some next => exact ih next .code

/-- What some requests ask for is discovered by changes. -/
theorem walks_discoverAll (source : Source) (requests : Requests) :
    Walks source (discoverAll source requests) := by
  -- The requests are served in turn, each by a chain.
  induction requests with
  | nil => exact .pure ()
  | cons request rest ih => exact (walks_discoverChain source _ _ _).bind fun _ => ih

/-- A pass discovers by changes. -/
theorem walks_discoveryPass (source : Source) (pass : Nat) (pending : Requests) :
    Walks source (discoveryPass source pass pending) := by
  -- The count of segments is only looked at, and that of replacements is no part of any segment.
  refine Walks.bind (fun state => .refl state) fun before => ?_
  refine Walks.bind (fun state => .of_step (.note rfl rfl rfl rfl rfl)) fun _ => ?_
  refine (walks_discoverAll source pending).bind fun _ state => ?_
  -- A harvest only remembers which code it need not look at again.
  exact .of_step (.note rfl rfl rfl rfl rfl)

/-- Passes discover by changes. -/
theorem walks_discoveryPasses (source : Source) (passes pass : Nat) (pending : Requests) :
    Walks source (discoveryPasses source passes pass pending) := by
  -- A pass that makes progress is followed by another one.
  induction passes generalizing pass pending with
  | zero => exact .pure _
  | succ passes ih =>
    refine (walks_discoveryPass source pass pending).bind fun result => ?_
    obtain ⟨requests, progress⟩ := result
    cases progress with
    | true => exact ih (pass + 1) requests
    | false => exact .pure pass

/-- A discovery is made of changes, also if it fails. -/
theorem walks_runDiscovery (source : Source) (entries : List Label) :
    Walks source (runDiscovery source entries) :=
  walks_discoveryPasses source _ 1 _

end QuestScript
