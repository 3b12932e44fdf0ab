import QuestScript.Proofs.Discovery.Loops

/-! What becomes of the labels that the last harvest of a discovery requests.

The last pass decodes nothing, and its requests are dropped. What they ask for is there already,
unless the pass has put another label on code: control may flow to that code then from elsewhere,
and a register may hold there what it has not held in the harvest before. -/

namespace QuestScript

namespace Discovery

/-- A label that need not be discovered as a kind any more. -/
inductive Settled (source : Source) (state : Discovery) (label : Label) (kind : SegmentKind) :
    Prop where
  /-- The virtual machine provides the label. -/
  | provided (absent : source.index.offset? label = none)
    (builtin : label ∈ source.options.builtinLabels)
  /-- The label has no place, which was reported. -/
  | reported (absent : source.index.offset? label = none) (listed : label ∈ state.reported)
  /-- The label points at the end of the script or beyond. -/
  | beyond {offset : Nat} (placed : source.index.offset? label = some offset)
    (outside : source.bytes.length ≤ offset)
  /-- There is a segment of the kind, or of one of higher priority. -/
  | decoded {offset : Nat} {segment : Segment} (placed : source.index.offset? label = some offset)
    (here : state.segments.find? offset = some segment)
    (enough : kind.priority ≤ segment.kind.priority)
  /-- The range is wanted as a text, and was found to be none. -/
  | noText {offset : Nat} (wanted : kind = .text)
    (placed : source.index.offset? label = some offset) (givenUp : offset ∈ state.invalidTexts)

/-- A label has a place, or the virtual machine provides it, or it was reported. -/
def Noted (source : Source) (state : Discovery) (label : Label) : Prop :=
  source.index.offset? label = none →
    label ∈ source.options.builtinLabels ∨ label ∈ state.reported

variable {source : Source} {table : LabelTable} {state next last : Discovery} {label : Label}
  {kind : SegmentKind} {requests : Requests}

/-- What is answered is settled, if it was also noted. -/
theorem Answered.settled (answered : state.Answered source label kind)
    (noted : state.Noted source label) : state.Settled source label kind := by
  -- Only a label without a place needs more than its answer.
  cases answered with
  | unregistered absent =>
    rcases noted absent with builtin | listed
    · exact .provided absent builtin
    · exact .reported absent listed
  | beyond placed outside => exact .beyond placed outside
  | decoded placed here carried enough => exact .decoded placed here enough
  | noText wanted placed here carried givenUp unreadable => exact .noText wanted placed givenUp

/-- A label that was reported stays so. -/
theorem mem_reported_of_reaches (reached : state.Reaches source last)
    (listed : label ∈ state.reported) : label ∈ last.reported := by
  -- A report adds a label to the list, and no other change touches it.
  induction reached with
  | refl state => exact listed
  | step first others ih =>
    apply ih
    cases first with
    | note segments invalidTexts reported problems failed => rwa [reported]
    | report other absent =>
      unfold reportUnregistered
      split
      · exact listed
      · exact List.mem_cons_of_mem other listed
    | spoil offset cause unreadable => exact listed
    | name other offset existing placed here => exact listed
    | place other offset content placed inside fresh reads => exact listed
    | replace offset existing content here notCode rises reads => exact listed

/-- What is noted stays so. -/
theorem Noted.reaches (noted : state.Noted source label) (reached : state.Reaches source last) :
    last.Noted source label :=
  fun absent => (noted absent).imp_right (mem_reported_of_reaches reached)

/-- What is settled stays so. -/
theorem Settled.reaches (settled : state.Settled source label kind)
    (reached : state.Reaches source last) : last.Settled source label kind := by
  -- Of these only what was discovered can change, and it only becomes better known.
  cases settled with
  | provided absent builtin => exact .provided absent builtin
  | reported absent listed => exact .reported absent (mem_reported_of_reaches reached listed)
  | beyond placed outside => exact .beyond placed outside
  | decoded placed here enough =>
    obtain ⟨later, there, grown⟩ := grows_of_reaches reached _ _ here
    exact .decoded placed there (Nat.le_trans enough grown.priority)
  | noText wanted placed givenUp =>
    exact .noText wanted placed (mem_invalidTexts_of_reaches reached givenUp)

end Discovery

section

variable {source : Source} {state after : Discovery} {label : Label} {kind : SegmentKind}

/-- A label that is discovered is noted. -/
theorem noted_of_discoverOne {drop : Option Label}
    (run : discoverOne source label kind state = .ok drop after) : after.Noted source label := by
  intro absent
  unfold discoverOne at run
  rw [absent] at run
  cases run
  -- It is reported, unless that is not due or was done before.
  unfold Discovery.reportUnregistered
  split
  · rename_i known
    simpa using known
  · exact .inr List.mem_cons_self

/-- The labels that are requested are noted. -/
theorem noted_of_discoverAll {requests : Requests}
    (run : discoverAll source requests state = .ok () after) :
    ∀ request ∈ requests, after.Noted source request.1 := by
  induction requests generalizing state with
  | nil =>
    intro request listed
    cases listed
  | cons request rest ih =>
    obtain ⟨_, middle, front, back⟩ := bind_eq_ok run
    have further := (walks_discoverAll source rest).reaches back
    intro other listed
    rcases List.mem_cons.mp listed with rfl | behind
    · -- A chain begins with the label itself.
      obtain ⟨drop, visited, visit, chain⟩ := bind_eq_ok front
      have onward : visited.Reaches source middle := by
        cases drop with
        | none =>
          obtain ⟨-, rfl⟩ := pure_eq_ok chain
          exact .refl _
        | some drop => exact (walks_discoverChain source _ drop .code).reaches chain
      exact ((noted_of_discoverOne visit).reaches onward).reaches further
    · exact ih back other behind

end

namespace Discovery

variable {source : Source} {table : LabelTable} {state later : Discovery} {label : Label}
  {kind : SegmentKind}

/-- A label that an argument refers to, in code that is not resolved. -/
def Awaits (state : Discovery) (label : Label) (kind : SegmentKind) : Prop :=
  ∃ offset labels instructions instruction,
    (offset, ⟨labels, .code instructions⟩) ∈ state.segments ∧ offset ∉ state.analyzed ∧
      instruction ∈ instructions ∧ instruction.Names label kind

/-- Code that carries other labels later. -/
def Relabelled (state later : Discovery) : Prop :=
  ∃ offset before after, state.segments.find? offset = some before ∧
    later.segments.find? offset = some after ∧ before.kind = .code ∧ after.labels ≠ before.labels

/-- Code is listed in the order of its offsets. -/
theorem pairwise_codeSegments (ordered : state.segments.Ascends) :
    state.codeSegments.Pairwise fun first second => first.1 < second.1 := by
  refine List.Pairwise.filterMap _ ?_ ordered
  rintro ⟨offset, labels, content⟩ ⟨further, others, more⟩ before entry made other found
  -- An entry keeps the offset of its segment.
  cases content with
  | data bytes => cases made
  | text value stored => cases made
  | code instructions =>
    cases more with
    | data bytes => cases found
    | text value stored => cases found
    | code moreInstructions =>
      cases made
      cases found
      exact before

/-- Where nothing is decoded and code keeps its labels, the code is the same. -/
theorem codeSegments_eq (ordered : state.segments.Ascends) (still : later.segments.Ascends)
    (contents : ∀ offset, (later.segments.find? offset).map (·.content) =
      (state.segments.find? offset).map (·.content))
    (labelled : ¬state.Relabelled later) : later.codeSegments = state.codeSegments := by
  -- Both lists are in the order of their offsets, so it is enough that they have the same code.
  have : Std.Antisymm fun first second : Nat × CodeSegment => first.1 < second.1 :=
    ⟨fun _ _ first second => absurd second (Nat.lt_asymm first)⟩
  have : Std.Irrefl fun first second : Nat × CodeSegment => first.1 < second.1 :=
    ⟨fun _ => Nat.lt_irrefl _⟩
  refine (pairwise_codeSegments still).eq_of_mem_iff (pairwise_codeSegments ordered) ?_
  rintro ⟨offset, labels, instructions⟩
  -- Code that is found in one of both is found in the other, with the same labels.
  rw [mem_codeSegments, mem_codeSegments]
  constructor
  · intro listed
    have there := still.find?_of_mem listed
    have same := contents offset
    rw [there, Option.map_some] at same
    obtain ⟨⟨others, content⟩, here, rfl⟩ := Option.map_eq_some_iff.mp same.symm
    obtain rfl : labels = others := Classical.byContradiction fun apart =>
      labelled ⟨offset, _, _, here, there, rfl, apart⟩
    exact SegmentMap.mem_of_find?_eq_some here
  · intro listed
    have here := ordered.find?_of_mem listed
    have same := contents offset
    rw [here, Option.map_some] at same
    obtain ⟨⟨others, content⟩, there, rfl⟩ := Option.map_eq_some_iff.mp same
    obtain rfl : others = labels := Classical.byContradiction fun apart =>
      labelled ⟨offset, _, _, here, there, rfl, apart⟩
    exact SegmentMap.mem_of_find?_eq_some there

/-- The same code refers to the same labels, unless it is resolved. -/
theorem Resolves.transfer {bound : Nat} (resolves : later.Resolves bound label kind)
    (code : later.codeSegments = state.codeSegments)
    (analyzed : ∀ offset ∈ state.analyzed, offset ∈ later.analyzed) :
    state.Resolves bound label kind := by
  -- The same instruction of the same segment asks for the label.
  obtain ⟨number, offset, segment, index, instruction, listed, due, used, asks⟩ := resolves
  rw [code] at listed asks
  exact ⟨number, offset, segment, index, instruction, listed,
    fun known => due (analyzed offset known), used, asks⟩

/-- The code refers to what an argument in it does. -/
theorem Awaits.resolves (awaits : state.Awaits label kind) (bound : Nat) :
    state.Resolves bound label kind := by
  obtain ⟨offset, labels, instructions, instruction, listed, due, used, names⟩ := awaits
  exact resolves_of_names listed due used names

end Discovery

/-- A pass that is to be made requests all that the code before it refers to. -/
structure Pass.Due (source : Source) (entries : List Label) (pass : Pass) : Prop where
  ready : pass.state.Ready source entries pass.pending
  harvested : ∀ label kind, pass.state.Resolves source.options.cardinalityBound label kind →
    pass.pending.Covers label kind

namespace Pass

variable {source : Source} {table : LabelTable} {entries : List Label} {pass next : Pass}
  {middle : Discovery} {label : Label} {kind : SegmentKind}

/-- Before the first pass there is no code. -/
theorem due_first (source : Source) (entries : List Label) :
    (first entries).Due source entries where
  -- Nothing has been resolved, but there is no code to resolve.
  ready := Discovery.ready_empty source entries
  harvested := by
    rintro label kind ⟨number, offset, segment, index, instruction, listed, -⟩
    cases listed

/-- A pass leaves to the next one what it has harvested. -/
theorem Due.step (due : pass.Due source entries) (indexed : source.index = .ofTable table)
    (step : makePass source pass = .inl next) : next.Due source entries := by
  unfold makePass at step
  split at step
  · cases step
  · rename_i requests state run
    cases step
    obtain ⟨middle, discovered, ends⟩ := Discovery.passEnds_of_discoveryPass run
    refine ⟨due.ready.harvested indexed discovered ends, ?_⟩
    intro label kind resolves
    -- The harvest has looked at the same code, of which no more was resolved.
    have code : state.codeSegments = middle.codeSegments := by
      rw [Discovery.codeSegments, ends.segments]
      rfl
    have before : middle.Resolves source.options.cardinalityBound label kind := by
      refine resolves.transfer code ?_
      intro offset known
      rw [ends.analyzed]
      exact List.mem_append_right _ known
    rw [ends.requests]
    exact before.covers
  · cases step

/-- What a pass is to request is settled by it. -/
theorem Due.settled (due : pass.Due source entries) (indexed : source.index = .ofTable table)
    (run : discoverAll source pass.pending { pass.state with redecoded := 0 } = .ok () middle)
    (resolves : pass.state.Resolves source.options.cardinalityBound label kind) :
    middle.Settled source label kind := by
  -- Both what is requested and what is reported of it come from the run of the pass.
  have covers := due.harvested label kind resolves
  have answered := (due.ready.served indexed run).1 label kind (.inr covers)
  obtain ⟨wanted, listed, -⟩ := covers
  exact answered.settled (noted_of_discoverAll run (label, wanted) listed)

/-- What the harvest of a pass requests that has decoded nothing is settled, or it is no argument of
code that was not resolved, and the pass has put labels on code. -/
theorem Due.settled_or_relabelled (due : pass.Due source entries)
    (indexed : source.index = .ofTable table) {requests : Requests} {state : Discovery}
    (run : discoveryPass source pass.number pass.pending pass.state = .ok (requests, false) state)
    (listed : (label, kind) ∈ requests) :
    state.Settled source label kind ∨
      ¬pass.state.Awaits label kind ∧ pass.state.Relabelled state := by
  obtain ⟨middle, discovered, ends⟩ := Discovery.passEnds_of_discoveryPass run
  have advances := progresses_discoverAll source pass.pending { pass.state with redecoded := 0 } ()
    middle due.ready.ordered discovered
  -- What the code refers to before the pass is settled behind it.
  have settles : pass.state.Resolves source.options.cardinalityBound label kind →
      state.Settled source label kind :=
    fun resolves => (due.settled indexed discovered resolves).reaches ends.reached
  by_cases awaits : pass.state.Awaits label kind
  · exact .inl (settles (awaits.resolves _))
  · by_cases relabelled : pass.state.Relabelled state
    · exact .inr ⟨awaits, relabelled⟩
    · -- The harvest has looked at the code that the one before it has looked at.
      have counted := ends.progress
      simp only [Bool.false_eq_true, false_iff, not_or, Nat.not_lt, Nat.le_zero] at counted
      have contents := advances.still (Nat.le_antisymm counted.1 advances.segments) counted.2
      have ordered := Discovery.ascends_of_reaches due.ready.ordered
        (Discovery.reaches_requested discovered)
      have code : middle.codeSegments = pass.state.codeSegments := by
        refine Discovery.codeSegments_eq due.ready.ordered ordered contents ?_
        rw [Discovery.Relabelled, ← ends.segments]
        exact relabelled
      rw [ends.requests] at listed
      refine .inl (settles ((Discovery.resolves_of_mem_harvest listed).transfer code ?_))
      intro offset known
      rw [advances.analyzed]
      exact known

end Pass

/-- What the last harvest of a discovery requests is settled, with one exception.

No argument of code that was not resolved refers to the label, so that only the flow of control has
led to it, and the last pass has put labels on code. -/
theorem runDiscovery_last_requests {bytes : List UInt8} {labels : LabelTable}
    {opcodes : OpcodeTable} {options : ParseOptions} {entries : List Label} {passes : Nat}
    {state : Discovery}
    (run : runDiscovery ⟨bytes, .ofTable labels, opcodes, options⟩ entries {} = .ok passes state) :
    ∃ earlier last requests,
      Loops (makePass ⟨bytes, .ofTable labels, opcodes, options⟩) (.first entries)
        (earlier ++ [last]) (.ok passes state) ∧
      discoveryPass ⟨bytes, .ofTable labels, opcodes, options⟩ last.number last.pending last.state =
        .ok (requests, false) state ∧
      ∀ label kind, (label, kind) ∈ requests →
        state.Settled ⟨bytes, .ofTable labels, opcodes, options⟩ label kind ∨
          ¬last.state.Awaits label kind ∧ last.state.Relabelled state := by
  generalize known : (⟨bytes, .ofTable labels, opcodes, options⟩ : Source) = source at run ⊢
  have indexed : source.index = .ofTable labels := by rw [← known]
  obtain ⟨visited, loops, -⟩ := loops_runDiscovery indexed entries
  rw [run] at loops
  -- Every pass leaves the next one to be made, and the last one has decoded nothing.
  obtain ⟨earlier, last, rfl, due, ends⟩ := loops.exists_last (Pass.Due source entries)
    (fun _ _ due step => due.step indexed step) (Pass.due_first source entries)
  unfold makePass at ends
  split at ends
  · cases ends
  · cases ends
  · rename_i requests after made
    cases ends
    exact ⟨earlier, last, requests, loops, made,
      fun label kind listed => due.settled_or_relabelled indexed made listed⟩

/-- Code that puts a label into a register and jumps, code that uses the register, and the code at
the label. The code that uses the register has one label that is an entry and one that is jumped
to. -/
def aliasSource : Source :=
  ⟨[0x09, 4, 3, 0, 0, 0, 0x28, 2, 0, 0x66, 1, 0x01, 0x01], .ofTable [0, 9, 9, 12], .standard, {}⟩

/-- The second pass of its discovery, in which the jump is known. -/
def aliasPass : Pass :=
  match makePass aliasSource (.first [0, 1]) with
  | .inl next => next
  | .inr _ => .first []

/-- What the second pass has come to before its harvest. -/
def aliasMiddle : Discovery :=
  stateAfter (discoverAll aliasSource aliasPass.pending { aliasPass.state with redecoded := 0 })

/-- What the discovery ends with. -/
def aliasState : Discovery :=
  (passEnd aliasSource aliasPass.number aliasPass.state.segments.length aliasMiddle).2

/-- The index of its labels. -/
theorem index_aliasSource :
    LabelIndex.ofTable [0, 9, 9, 12] = .ofPlaces [⟨0, 0⟩, ⟨9, 1⟩, ⟨9, 2⟩, ⟨12, 3⟩] := by
  cbv

/-- The first pass is followed by the second. -/
theorem makePass_aliasSource : makePass aliasSource (.first [0, 1]) = .inl aliasPass := by
  rw [aliasPass, aliasSource, index_aliasSource]
  rfl

/-- The second pass decodes nothing, and its harvest requests the label in the register. -/
theorem discoveryPass_aliasPass :
    discoveryPass aliasSource aliasPass.number aliasPass.pending aliasPass.state =
      .ok ([(3, .code)], false) aliasState := by
  refine discoveryPass_eq_ok.mpr ⟨aliasMiddle, ?_, Prod.ext ?_ rfl⟩
  · -- The pass is run with the places of the labels written out.
    rw [aliasMiddle, aliasPass, aliasSource, index_aliasSource]
    rfl
  · -- The harvest that ends it searches along the flow graph.
    rw [aliasMiddle, aliasPass, aliasSource, index_aliasSource]
    cbv

/-- The discovery has these two passes. -/
theorem loops_aliasSource :
    Loops (makePass aliasSource) (.first [0, 1]) [.first [0, 1], aliasPass] (.ok 2 aliasState) := by
  have number : aliasPass.number = 2 := by
    rw [aliasPass, aliasSource, index_aliasSource]
    rfl
  -- The first pass goes on, and the second one stops.
  refine .goes makePass_aliasSource (.stops ?_)
  rw [makePass, discoveryPass_aliasPass, number]

/-- The discovery succeeds. -/
theorem runDiscovery_aliasSource : runDiscovery aliasSource [0, 1] {} = .ok 2 aliasState := by
  -- The loop is the only one from there, and ends with the state.
  obtain ⟨visited, loops, -⟩ := @loops_runDiscovery aliasSource [0, 9, 9, 12] rfl [0, 1]
  exact (loops.unique loops_aliasSource).2

/-- Nothing is discovered at the label in the register. -/
theorem not_settled_aliasState : ¬aliasState.Settled aliasSource 3 .code := by
  have offset : aliasSource.index.offset? 3 = some 12 := LabelIndex.offset?_ofTable.trans rfl
  have nothing : aliasState.segments.find? 12 = none := by
    rw [aliasState, aliasMiddle, aliasPass, aliasSource, index_aliasSource]
    rfl
  -- The label has a place inside the script, and is wanted as code.
  intro settled
  cases settled with
  | provided absent builtin => cases absent.symm.trans offset
  | reported absent listed => cases absent.symm.trans offset
  | beyond placed outside =>
    cases placed.symm.trans offset
    exact absurd outside (by decide)
  | decoded placed here enough =>
    cases placed.symm.trans offset
    cases here.symm.trans nothing
  | noText wanted placed givenUp => cases wanted

/-- The last harvest requests the label, which is not settled, for the pass has put the label that
is jumped to on the code. -/
theorem runDiscovery_last_requests_aliasSource :
    runDiscovery aliasSource [0, 1] {} = .ok 2 aliasState ∧
      discoveryPass aliasSource aliasPass.number aliasPass.pending aliasPass.state =
        .ok ([(3, .code)], false) aliasState ∧
      ¬aliasState.Settled aliasSource 3 .code ∧ ¬aliasPass.state.Awaits 3 .code ∧
      aliasPass.state.Relabelled aliasState := by
  refine ⟨runDiscovery_aliasSource, discoveryPass_aliasPass, not_settled_aliasState, ?_⟩
  obtain ⟨earlier, last, requests, loops, made, settles⟩ :=
    runDiscovery_last_requests runDiscovery_aliasSource
  -- The last pass is the second one.
  have same := congrArg List.getLast? (loops.unique loops_aliasSource).1
  obtain rfl : last = aliasPass := by simpa using same
  cases made.symm.trans discoveryPass_aliasPass
  exact (settles 3 .code List.mem_cons_self).resolve_left not_settled_aliasState

end QuestScript
