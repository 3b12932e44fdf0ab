import QuestScript.Proofs.Discovery.Visit

/-! Labels that are wanted as a kind, and what becomes of them. -/

namespace QuestScript

namespace Discovery

/-- What has become of a label that is wanted as a kind. -/
inductive Answered (source : Source) (state : Discovery) (label : Label) (kind : SegmentKind) :
    Prop where
  /-- The label is not registered. -/
  | unregistered (absent : source.index.offset? label = none)
  /-- The label points at the end of the script or beyond. -/
  | beyond {offset : Nat} (placed : source.index.offset? label = some offset)
    (outside : source.bytes.length ≤ offset)
  /-- Its range is decoded as the kind, or as one of higher priority. -/
  | decoded {offset : Nat} {segment : Segment} (placed : source.index.offset? label = some offset)
    (here : state.segments.find? offset = some segment) (carried : label ∈ segment.labels)
    (enough : kind.priority ≤ segment.kind.priority)
  /-- Its range is wanted as a text, and was found to be none. -/
  | noText {offset : Nat} {segment : Segment} {cause : DecodeError} (wanted : kind = .text)
    (placed : source.index.offset? label = some offset)
    (here : state.segments.find? offset = some segment) (carried : label ∈ segment.labels)
    (givenUp : offset ∈ state.invalidTexts)
    (unreadable : source.decodeText offset (source.stopAt offset) = .error cause)

/-- A range that was given up as a text is none. -/
def Tried (source : Source) (state : Discovery) : Prop :=
  ∀ offset ∈ state.invalidTexts,
    ∃ cause, source.decodeText offset (source.stopAt offset) = .error cause

variable {source : Source} {state next last after : Discovery} {label : Label} {kind : SegmentKind}

/-- A report gives up no text. -/
@[simp] theorem reportUnregistered_invalidTexts (state : Discovery) (options : ParseOptions)
    (label : Label) :
    (state.reportUnregistered options label).invalidTexts = state.invalidTexts := by
  -- A report is about a label, and touches no text.
  unfold reportUnregistered
  split
  · rfl
  · rfl

/-- A change gives up no text but one that cannot be read, and none that was given up comes back. -/
theorem invalidTexts_of_step (step : state.Step source next) :
    next.invalidTexts = state.invalidTexts ∨
      ∃ offset cause, source.decodeText offset (source.stopAt offset) = .error cause ∧
        next.invalidTexts = offset :: state.invalidTexts := by
  -- Of all changes only one is about texts that cannot be read.
  cases step with
  | note segments invalidTexts => exact .inl invalidTexts
  | report label absent => exact .inl (reportUnregistered_invalidTexts state source.options label)
  | spoil offset cause unreadable => exact .inr ⟨offset, cause, unreadable, rfl⟩
  | name label offset existing placed here => exact .inl rfl
  | place label offset content placed inside fresh reads => exact .inl rfl
  | replace offset existing content here notCode rises reads => exact .inl rfl

/-- Changes give up only texts that cannot be read. -/
theorem Tried.reaches (tried : state.Tried source) (reached : state.Reaches source last) :
    last.Tried source := by
  induction reached with
  | refl state => exact tried
  | step first others ih =>
    apply ih
    intro offset given
    -- A text was given up before the first change, or by it.
    rcases invalidTexts_of_step first with same | ⟨spoiled, cause, unreadable, more⟩
    · exact tried offset (same ▸ given)
    · rcases List.mem_cons.mp (more ▸ given) with rfl | before
      · exact ⟨cause, unreadable⟩
      · exact tried offset before

/-- A text that was given up stays so. -/
theorem mem_invalidTexts_of_reaches (reached : state.Reaches source last) {offset : Nat}
    (given : offset ∈ state.invalidTexts) : offset ∈ last.invalidTexts := by
  -- Each change keeps what was given up, or adds one text to it.
  induction reached with
  | refl state => exact given
  | step first others ih =>
    apply ih
    rcases invalidTexts_of_step first with same | ⟨spoiled, cause, unreadable, more⟩
    · exact same ▸ given
    · exact more ▸ List.mem_cons_of_mem spoiled given

namespace Answered

/-- What has been answered stays so. -/
theorem reaches (answered : state.Answered source label kind)
    (reached : state.Reaches source last) : last.Answered source label kind := by
  have grown := grows_of_reaches reached
  cases answered with
  | unregistered absent => exact .unregistered absent
  | beyond placed outside => exact .beyond placed outside
  | decoded placed here carried enough =>
    -- The segment has no fewer labels later, and no lower priority.
    obtain ⟨later, found, more⟩ := grown _ _ here
    exact .decoded placed found (more.labels label carried) (Nat.le_trans enough more.priority)
  | noText wanted placed here carried givenUp unreadable =>
    obtain ⟨later, found, more⟩ := grown _ _ here
    exact .noText wanted placed found (more.labels label carried)
      (mem_invalidTexts_of_reaches reached givenUp) unreadable

/-- What has been answered for a kind is answered for one of lower priority. -/
theorem lower {wanted : SegmentKind} (answered : state.Answered source label wanted)
    (below : kind.priority ≤ wanted.priority) : state.Answered source label kind := by
  cases answered with
  | unregistered absent => exact .unregistered absent
  | beyond placed outside => exact .beyond placed outside
  | decoded placed here carried enough =>
    exact .decoded placed here carried (Nat.le_trans below enough)
  | noText text placed here carried givenUp unreadable =>
    subst text
    -- Below text there is only data, which anything is good enough for.
    cases kind with
    | data => exact .decoded placed here carried (Nat.zero_le _)
    | text => exact .noText rfl placed here carried givenUp unreadable
    | code => exact absurd below (by decide)

/-- A range that has been decoded as a kind answers for the labels it carries. -/
theorem of_becomes {offset redecoded : Nat} {labels : LabelSet} {content : Content}
    {drop : Option Label} {spoiled : Bool} {journal : Journal}
    (placed : source.index.offset? label = some offset) (carried : label ∈ labels)
    (becomes : source.Becomes offset kind content drop spoiled) :
    (state.decoded offset ⟨labels, content⟩ spoiled redecoded journal).Answered source label kind := by
  have here : (state.segments.insert offset ⟨labels, content⟩).find? offset =
      some ⟨labels, content⟩ := SegmentMap.find?_insert_self
  -- Only a text may become less than it was wanted as.
  cases becomes with
  | data => exact .decoded placed here carried (Nat.le_refl _)
  | text read => exact .decoded placed here carried (Nat.le_refl _)
  | noText unreadable => exact .noText rfl placed here carried List.mem_cons_self unreadable
  | code read => exact .decoded placed here carried (Nat.le_refl _)

/-- A label that is visited is answered. -/
theorem of_visits {drop : Option Label} (tried : state.Tried source)
    (visits : state.Visits source label kind drop after) : after.Answered source label kind := by
  -- A visit that decodes nothing has found what it needs, or that there is no use in trying.
  cases visits with
  | nowhere outside segments invalidTexts analyzed redecoded =>
    cases placed : source.index.offset? label with
    | none => exact .unregistered placed
    | some offset => exact .beyond placed (outside offset placed)
  | @kept offset existing placed here enough =>
    have found : (state.segments.insert offset (existing.addLabel label)).find? offset =
        some (existing.addLabel label) := SegmentMap.find?_insert_self
    have carried : label ∈ (existing.addLabel label).labels := LabelSet.mem_insert.mpr (.inl rfl)
    rcases enough with enough | ⟨text, givenUp⟩
    · exact .decoded placed found carried enough
    · obtain ⟨cause, unreadable⟩ := tried offset givenUp
      exact .noText text placed found carried givenUp unreadable
  | fresh placed absent becomes => exact .of_becomes placed (List.mem_singleton.mpr rfl) becomes
  | again placed here lower untried becomes =>
    exact .of_becomes placed (LabelSet.mem_insert.mpr (.inl rfl)) becomes

end Answered

/-- Control drops only into code that is answered for, or that is to be discovered next. -/
def Drops (source : Source) (state : Discovery) (pending : Label → Prop) : Prop :=
  ∀ offset segment instructions drop, state.segments.find? offset = some segment →
    segment.content = .code instructions → source.dropFrom offset instructions = some drop →
      state.Answered source drop .code ∨ pending drop

/-- What is to be discovered next may be said in another way. -/
theorem Drops.imp {pending later : Label → Prop} (drops : state.Drops source pending)
    (implied : ∀ drop, pending drop → later drop) : state.Drops source later := by
  intro offset segment instructions drop found code dropped
  exact (drops offset segment instructions drop found code dropped).imp_right (implied drop)

/-- Code that is there after a visit was there before, or control drops on from it. -/
theorem Visits.code_cases {drop : Option Label}
    (visits : state.Visits source label kind drop after) {offset : Nat} {segment : Segment}
    {instructions : List Instruction} (found : after.segments.find? offset = some segment)
    (code : segment.content = .code instructions) :
    (∃ before, state.segments.find? offset = some before ∧ before.content = .code instructions) ∨
      drop = source.dropFrom offset instructions := by
  -- Segments elsewhere are as they were, so that only the visited one matters.
  cases visits with
  | nowhere outside segments invalidTexts analyzed redecoded =>
    rw [segments] at found
    exact .inl ⟨segment, found, code⟩
  | @kept place existing placed here enough =>
    -- Another label leaves the code as it is.
    rcases SegmentMap.find?_insert_eq_some.mp found with ⟨rfl, rfl⟩ | ⟨-, before⟩
    · exact .inl ⟨existing, here, code⟩
    · exact .inl ⟨segment, before, code⟩
  | fresh placed absent becomes =>
    rcases SegmentMap.find?_insert_eq_some.mp found with ⟨rfl, rfl⟩ | ⟨-, before⟩
    · cases code
      cases becomes
      exact .inr rfl
    · exact .inl ⟨segment, before, code⟩
  | again placed here lower untried becomes =>
    rcases SegmentMap.find?_insert_eq_some.mp found with ⟨rfl, rfl⟩ | ⟨-, before⟩
    · cases code
      cases becomes
      exact .inr rfl
    · exact .inl ⟨segment, before, code⟩

/-- After a visit control drops from new code only into what is to be discovered next. -/
theorem Drops.visits {pending : Label → Prop} {drop : Option Label}
    (drops : state.Drops source pending) (reached : state.Reaches source after)
    (answered : ∀ other, pending other → after.Answered source other .code)
    (visits : state.Visits source label kind drop after) :
    after.Drops source fun other => drop = some other := by
  intro offset segment instructions other found code dropped
  rcases visits.code_cases found code with ⟨before, here, same⟩ | made
  · -- What was due before is answered by the visit.
    left
    rcases drops offset before instructions other here same dropped with earlier | due
    · exact earlier.reaches reached
    · exact answered other due
  · exact .inr (made.trans dropped)

/-- From a visited label control drops into the first place beyond its own. -/
theorem Visits.firstAfter? {drop : Label}
    (visits : state.Visits source label kind (some drop) after) :
    ∃ offset place, source.index.offset? label = some offset ∧
      source.index.firstAfter? offset = some place ∧ place.label = drop := by
  -- Only code is dropped from.
  have code : ∀ {offset content spoiled}, source.Becomes offset kind content (some drop) spoiled →
      ∃ place, source.index.firstAfter? offset = some place ∧ place.label = drop := by
    intro offset content spoiled becomes
    generalize made : some drop = next at becomes
    cases becomes with
    | data => cases made
    | text read => cases made
    | noText unreadable => cases made
    | code read =>
      obtain ⟨place, first, named⟩ := Option.map_eq_some_iff.mp made.symm
      split at first
      · cases first
      · exact ⟨place, first, named⟩
  cases visits with
  | fresh placed absent becomes =>
    obtain ⟨place, first, named⟩ := code becomes
    exact ⟨_, place, placed, first, named⟩
  | again placed here lower untried becomes =>
    obtain ⟨place, first, named⟩ := code becomes
    exact ⟨_, place, placed, first, named⟩

end Discovery

namespace LabelIndex

/-- The places beyond an offset. -/
def beyond (index : LabelIndex) (offset : Nat) : List LabelPlace :=
  index.places.filter fun place => offset < place.offset

/-- There are fewer places beyond the first one beyond an offset than beyond that. -/
theorem length_beyond_lt {index : LabelIndex} {offset : Nat} {place : LabelPlace}
    (found : index.firstAfter? offset = some place) :
    (index.beyond place.offset).length < (index.beyond offset).length := by
  obtain ⟨there, after⟩ := mem_of_firstAfter? found
  have listed : place ∈ index.beyond offset := by simpa [beyond, after] using there
  -- What is beyond the place is beyond the offset, and the place itself is not.
  have part : index.beyond place.offset =
      (index.beyond offset).filter fun other => place.offset < other.offset := by
    rw [beyond, beyond, List.filter_filter]
    congr 1
    funext other
    by_cases later : place.offset < other.offset
    · have earlier : offset < other.offset := by omega
      simp [later, earlier]
    · simp [later]
  rw [part]
  exact List.length_filter_lt_length_iff_exists.mpr ⟨place, listed, by simp⟩

end LabelIndex

section

variable {source : Source} {table : LabelTable} {state after : Discovery} {label : Label}
  {kind : SegmentKind}

/-- A label that is discovered is answered, and so is all code that control drops into. -/
theorem answered_of_discoverChain (indexed : source.index = .ofTable table) {steps : Nat}
    (positive : 0 < steps)
    (enough : ∀ offset, source.index.offset? label = some offset →
      (source.index.beyond offset).length < steps)
    (tried : state.Tried source) (drops : state.Drops source fun other => other = label ∧ kind = .code)
    (run : discoverChain source steps label kind state = .ok () after) :
    after.Answered source label kind ∧ after.Drops source fun _ => False := by
  -- Control drops from place to place, and every step leaves one place less to drop into.
  induction steps generalizing label kind state with
  | zero => omega
  | succ steps ih =>
    obtain ⟨drop, middle, visit, rest⟩ := bind_eq_ok run
    have visits := visits_of_discoverOne visit
    have reached := (walks_discoverOne source label kind).reaches visit
    have answered := Discovery.Answered.of_visits tried visits
    have dropped := drops.visits reached (fun _ due => due.1 ▸ due.2 ▸ answered) visits
    cases drop with
    | none =>
      obtain ⟨-, rfl⟩ := pure_eq_ok rest
      exact ⟨answered, dropped.imp fun _ due => nomatch due⟩
    | some drop =>
      obtain ⟨offset, place, placed, first, rfl⟩ := visits.firstAfter?
      -- The place that control drops into is that of its label.
      have given : source.index.offset? place.label = some place.offset := by
        rw [indexed] at first ⊢
        rw [LabelIndex.offset?_ofTable]
        exact (LabelIndex.firstAfter?_eq_some first).2.1
      have fewer := LabelIndex.length_beyond_lt first
      have bound := enough offset placed
      have left : (source.index.beyond place.offset).length < steps := by omega
      have further := (walks_discoverChain source steps place.label .code).reaches rest
      have fits : ∀ other, source.index.offset? place.label = some other →
          (source.index.beyond other).length < steps := by
        intro other again
        rw [given] at again
        cases again
        exact left
      -- What control drops into is what the chain goes on with.
      have due : middle.Drops source fun other => other = place.label ∧ SegmentKind.code = .code :=
        dropped.imp fun other same => ⟨(Option.some.inj same).symm, rfl⟩
      obtain ⟨-, done⟩ := ih (by omega) fits (tried.reaches reached) due rest
      exact ⟨answered.reaches further, done⟩

/-- All that is requested is answered, and so is all code that control drops into. -/
theorem answered_of_discoverAll (indexed : source.index = .ofTable table) {requests : Requests}
    (tried : state.Tried source) (drops : state.Drops source fun _ => False)
    (run : discoverAll source requests state = .ok () after) :
    (∀ request ∈ requests, after.Answered source request.1 request.2) ∧
      after.Drops source fun _ => False := by
  -- What has been answered for one request stays so while the others are discovered.
  induction requests generalizing state with
  | nil =>
    obtain ⟨-, rfl⟩ := pure_eq_ok run
    refine ⟨?_, drops⟩
    intro request listed
    cases listed
  | cons request rest ih =>
    obtain ⟨_, middle, front, back⟩ := bind_eq_ok run
    have reached := (walks_discoverChain source _ request.1 request.2).reaches front
    have further := (walks_discoverAll source rest).reaches back
    -- There are never more places beyond an offset than there are places.
    have enough : ∀ offset, source.index.offset? request.1 = some offset →
        (source.index.beyond offset).length < source.index.places.length + 1 :=
      fun offset _ => Nat.lt_succ_of_le (List.length_filter_le _ _)
    obtain ⟨first, dropped⟩ := answered_of_discoverChain indexed (Nat.succ_pos _) enough tried
      (drops.imp fun _ due => nomatch due) front
    obtain ⟨others, done⟩ := ih (tried.reaches reached) dropped back
    refine ⟨?_, done⟩
    intro other listed
    rcases List.mem_cons.mp listed with rfl | behind
    · exact first.reaches further
    · exact others other behind

end

end QuestScript
