import QuestScript.Proofs.Discovery.Answer
import QuestScript.Proofs.Discovery.Harvest
import QuestScript.Proofs.Discovery.Progress
import QuestScript.Proofs.Discovery.Replay

/-! A discovery ends when all that its code refers to has been discovered. -/

namespace QuestScript

namespace Discovery

/-- A label that an argument in the code of a discovery refers to, and the kind it asks for. -/
def Refers (state : Discovery) (label : Label) (kind : SegmentKind) : Prop :=
  ∃ offset segment instructions, state.segments.find? offset = some segment ∧
    segment.content = .code instructions ∧
      ∃ instruction ∈ instructions, instruction.Names label kind

/-- A label that a discovery is asked for, and the kind that it is to be decoded as. -/
inductive Requested (source : Source) (entries : List Label) (state : Discovery) :
    Label → SegmentKind → Prop where
  /-- The script is entered at the label. -/
  | entry {label : Label} (listed : label ∈ entries) : Requested source entries state label .code
  /-- An argument of an instruction is the label. -/
  | reference {label : Label} {kind : SegmentKind} (refers : state.Refers label kind) :
    Requested source entries state label kind
  /-- Code that neither returns nor jumps is followed by the label. -/
  | drop {offset : Nat} {segment : Segment} {instructions : List Instruction} {place : LabelPlace}
    (found : state.segments.find? offset = some segment)
    (code : segment.content = .code instructions)
    (stays : ∀ instruction ∈ instructions,
      instruction.opcode.code ≠ Code.ret ∧ instruction.opcode.code ≠ Code.jmp)
    (next : source.index.firstAfter? offset = some place) :
    Requested source entries state place.label .code

/-- All that a discovery is asked for is answered. -/
def Closed (source : Source) (entries : List Label) (state : Discovery) : Prop :=
  ∀ label kind, Requested source entries state label kind → state.Answered source label kind

/-- A discovery that may go on with some requests: all else that it is asked for is answered. -/
structure Ready (source : Source) (entries : List Label) (state : Discovery)
    (pending : Requests) : Prop where
  ordered : state.segments.Ascends
  tried : state.Tried source
  drops : state.Drops source fun _ => False
  entries : ∀ label ∈ entries, state.Answered source label .code ∨ pending.Covers label .code
  references : ∀ label kind, state.Refers label kind →
    state.Answered source label kind ∨ pending.Covers label kind
  analyzed : ∀ offset ∈ state.analyzed, ∃ segment instructions,
    state.segments.find? offset = some segment ∧ segment.content = .code instructions

variable {source : Source} {table : LabelTable} {entries : List Label}
  {state middle next : Discovery} {pending requests : Requests}

/-- Code that neither returns nor jumps is dropped from. -/
theorem dropFrom_eq_some {offset : Nat} {instructions : List Instruction} {place : LabelPlace}
    (stays : ∀ instruction ∈ instructions,
      instruction.opcode.code ≠ Code.ret ∧ instruction.opcode.code ≠ Code.jmp)
    (next : source.index.firstAfter? offset = some place) :
    source.dropFrom offset instructions = some place.label := by
  -- None of the instructions leaves explicitly.
  have leaves : leavesExplicitly instructions = false := by
    simpa [leavesExplicitly] using stays
  simp [Source.dropFrom, leaves, next]

/-- A discovery that only differs in what is noted about it drops into the same code. -/
theorem Drops.note {pending : Label → Prop} (drops : state.Drops source pending)
    (reached : state.Reaches source next) (same : next.segments = state.segments) :
    next.Drops source pending := by
  -- The code is the same, and what has been answered stays so.
  intro offset segment instructions drop found code dropped
  rw [same] at found
  exact (drops offset segment instructions drop found code dropped).imp_left (·.reaches reached)

/-- Where code was before, the same code is later. -/
theorem Grows.content_eq (grown : state.Grows next) {offset : Nat} {before after : Segment}
    {instructions : List Instruction} (here : state.segments.find? offset = some before)
    (code : before.content = .code instructions)
    (found : next.segments.find? offset = some after) : after.content = .code instructions := by
  -- What is found later is what the code has grown to, and code does not change.
  obtain ⟨later, there, kept⟩ := grown offset before here
  obtain rfl : later = after := Option.some.inj (there.symm.trans found)
  have isCode : before.kind = .code := by rw [Segment.kind, code]; rfl
  rw [kept.code isCode, code]

/-- Before a pass only a count is cleared. -/
theorem reaches_cleared (source : Source) (state : Discovery) :
    state.Reaches source { state with redecoded := 0 } :=
  .of_step (.note rfl rfl rfl rfl rfl)

/-- The requests of a pass are discovered by changes. -/
theorem reaches_requested
    (run : discoverAll source pending { state with redecoded := 0 } = .ok () middle) :
    state.Reaches source middle :=
  (reaches_cleared source state).trans ((walks_discoverAll source pending).reaches run)

/-- What a pass comes to that began with so many segments: it has noted what is resolved, it
requests the rest, and it says whether it has decoded anything. -/
structure PassEnds (source : Source) (before : Nat) (middle : Discovery) (requests : Requests)
    (progress : Bool) (next : Discovery) : Prop where
  reached : middle.Reaches source next
  segments : next.segments = middle.segments
  invalidTexts : next.invalidTexts = middle.invalidTexts
  analyzed : next.analyzed = (middle.harvest source.options.cardinalityBound).2.analyzed
  requests : requests = (middle.harvest source.options.cardinalityBound).1
  progress : progress = true ↔ before < middle.segments.length ∨ 0 < middle.redecoded

/-- A pass discovers what its requests ask for, and then comes to that. -/
theorem passEnds_of_discoveryPass {pass : Nat} {progress : Bool}
    (run : discoveryPass source pass pending state = .ok (requests, progress) next) :
    ∃ middle, discoverAll source pending { state with redecoded := 0 } = .ok () middle ∧
      PassEnds source state.segments.length middle requests progress next := by
  obtain ⟨middle, discovered, made⟩ := discoveryPass_eq_ok.mp run
  refine ⟨middle, discovered, ?_⟩
  -- The end of the pass changes only what is resolved and the log.
  obtain ⟨⟨rfl, rfl⟩, rfl⟩ : ((passEnd source pass state.segments.length middle).1.1 = requests ∧
      (passEnd source pass state.segments.length middle).1.2 = progress) ∧
      (passEnd source pass state.segments.length middle).2 = next := by
    rw [made]
    exact ⟨⟨rfl, rfl⟩, rfl⟩
  refine ⟨.of_step (.note rfl rfl rfl rfl rfl), rfl, rfl, rfl, rfl, ?_⟩
  have counted : (passEnd source pass state.segments.length middle).1.2 =
    (decide (state.segments.length < middle.segments.length) || middle.redecoded != 0) := rfl
  rw [counted]
  simp [Nat.pos_iff_ne_zero]

/-- What was answered or requested before the requests of a pass is answered after them. -/
theorem Ready.served (ready : state.Ready source entries pending)
    (indexed : source.index = .ofTable table)
    (run : discoverAll source pending { state with redecoded := 0 } = .ok () middle) :
    (∀ label kind, state.Answered source label kind ∨ pending.Covers label kind →
      middle.Answered source label kind) ∧ middle.Drops source fun _ => False := by
  have begun := reaches_cleared source state
  obtain ⟨answered, drops⟩ := answered_of_discoverAll indexed (ready.tried.reaches begun)
    (ready.drops.note begun rfl) run
  refine ⟨?_, drops⟩
  -- A request may have been for a higher priority.
  intro label kind asked
  rcases asked with before | ⟨wanted, listed, higher⟩
  · exact before.reaches (reaches_requested run)
  · exact (answered (label, wanted) listed).lower higher

/-- A pass that decodes nothing leaves nothing that is not answered. -/
theorem Ready.closed (ready : state.Ready source entries pending)
    (indexed : source.index = .ofTable table)
    (run : discoverAll source pending { state with redecoded := 0 } = .ok () middle)
    (segments : middle.segments.length = state.segments.length) (redecoded : middle.redecoded = 0) :
    middle.Closed source entries := by
  obtain ⟨served, drops⟩ := ready.served indexed run
  have advances := progresses_discoverAll source pending { state with redecoded := 0 } () middle
    ready.ordered run
  intro label kind requested
  cases requested with
  | entry listed => exact served label .code (ready.entries label listed)
  | reference refers =>
    -- All code was there before the pass.
    obtain ⟨offset, segment, instructions, found, code, used⟩ := refers
    have same := advances.still segments redecoded offset
    rw [found, Option.map_some, code] at same
    obtain ⟨before, here, content⟩ := Option.map_eq_some_iff.mp same.symm
    exact served label kind
      (ready.references label kind ⟨offset, before, instructions, here, content, used⟩)
  | drop found code stays next =>
    exact (drops _ _ _ _ found code (dropFrom_eq_some stays next)).resolve_right id

/-- A discovery that only differs in what is noted about it is asked for the same. -/
theorem Closed.note (closed : state.Closed source entries) (reached : state.Reaches source next)
    (same : next.segments = state.segments) : next.Closed source entries := by
  intro label kind requested
  -- What is asked for depends on the segments alone.
  have before : Requested source entries state label kind := by
    cases requested with
    | entry listed => exact .entry listed
    | reference refers =>
      rw [Refers, same] at refers
      exact .reference refers
    | drop found code stays next =>
      rw [same] at found
      exact .drop found code stays next
  exact (closed label kind before).reaches reached

/-- Code that was resolved before a pass refers to what it has referred to. -/
theorem Ready.refers_of_analyzed (ready : state.Ready source entries pending)
    (grown : state.Grows middle) {offset : Nat} {segment : Segment}
    {instructions : List Instruction} {instruction : Instruction} {label : Label}
    {kind : SegmentKind} (resolved : offset ∈ state.analyzed)
    (found : middle.segments.find? offset = some segment)
    (code : segment.content = .code instructions) (used : instruction ∈ instructions)
    (names : instruction.Names label kind) : state.Refers label kind := by
  obtain ⟨before, known, here, content⟩ := ready.analyzed offset resolved
  -- Code never changes, so that what is there now was there then.
  have same := grown.content_eq here content found
  rw [code] at same
  cases same
  exact ⟨offset, before, instructions, here, content, instruction, used, names⟩

/-- After a pass the discovery may go on with what has been harvested. -/
theorem Ready.harvested {before : Nat} {progress : Bool}
    (ready : state.Ready source entries pending) (indexed : source.index = .ofTable table)
    (run : discoverAll source pending { state with redecoded := 0 } = .ok () middle)
    (ends : PassEnds source before middle requests progress next) :
    next.Ready source entries requests := by
  obtain ⟨served, drops⟩ := ready.served indexed run
  have reached := reaches_requested run
  have grown := grows_of_reaches reached
  have ordered := ascends_of_reaches ready.ordered reached
  have kept : middle.analyzed = state.analyzed :=
    (progresses_discoverAll source pending { state with redecoded := 0 } () middle
      ready.ordered run).analyzed
  refine ⟨ends.segments ▸ ordered, ready.tried.reaches (reached.trans ends.reached),
    drops.note ends.reached ends.segments, ?_, ?_, ?_⟩
  · intro label listed
    exact .inl ((served label .code (ready.entries label listed)).reaches ends.reached)
  · rintro label kind ⟨offset, ⟨labels, content⟩, instructions, found, code, instruction, used, names⟩
    rw [ends.segments] at found
    by_cases resolved : offset ∈ middle.analyzed
    · -- What was resolved before the pass has been answered in it.
      rw [kept] at resolved
      have refers := ready.refers_of_analyzed grown resolved found code used names
      exact .inl ((served label kind (ready.references label kind refers)).reaches ends.reached)
    · -- All else is harvested.
      cases code
      rw [ends.requests]
      exact .inr (covers_harvest (SegmentMap.mem_of_find?_eq_some found) resolved used names)
  · intro offset resolved
    rw [ends.analyzed] at resolved
    rw [ends.segments]
    rcases mem_analyzed_harvest resolved with before | ⟨labels, instructions, listed⟩
    · rw [kept] at before
      obtain ⟨segment, instructions, here, code⟩ := ready.analyzed offset before
      obtain ⟨later, there, -⟩ := grown offset segment here
      exact ⟨later, instructions, there, grown.content_eq here code there⟩
    · exact ⟨_, instructions, ordered.find?_of_mem listed, rfl⟩

/-- Passes end with nothing left that is not answered. -/
theorem Ready.closed_of_discoveryPasses {passes pass last : Nat} {after : Discovery}
    (indexed : source.index = .ofTable table) (ready : state.Ready source entries pending)
    (enough : 3 * source.index.places.length < state.level source + passes)
    (run : discoveryPasses source passes pass pending state = .ok last after) :
    after.Closed source entries := by
  -- Every pass but the last raises the level, which has a bound.
  induction passes generalizing pass state pending with
  | zero =>
    have bound := level_le source state
    omega
  | succ passes ih =>
    obtain ⟨⟨requests, progress⟩, next, ran, rest⟩ := bind_eq_ok run
    obtain ⟨middle, begun, ends⟩ := passEnds_of_discoveryPass ran
    have advances := progresses_discoverAll source pending { state with redecoded := 0 } () middle
      ready.ordered begun
    have counted := ends.progress
    cases progress with
    | true =>
      -- Something was decoded, so that one pass less is enough from here.
      have rises : state.level source < middle.level source :=
        advances.rises (counted.mp rfl)
      have same : next.level source = middle.level source :=
        level_congr ends.segments ends.invalidTexts
      exact ih (ready.harvested indexed begun ends) (by omega) rest
    | false =>
      -- Nothing was decoded, so that nothing is left to be asked for.
      obtain ⟨-, rfl⟩ := pure_eq_ok rest
      simp only [Bool.false_eq_true, false_iff, not_or, Nat.not_lt, Nat.le_zero] at counted
      have segments := Nat.le_antisymm counted.1 advances.segments
      exact (ready.closed indexed begun segments counted.2).note ends.reached ends.segments

/-- A discovery may begin with requests for its entries. -/
theorem ready_empty (source : Source) (entries : List Label) :
    Ready source entries {} ((LabelSet.ofList entries).map fun label => (label, .code)) where
  -- There is nothing yet but the requests.
  ordered := SegmentMap.ascends_nil
  tried := by
    intro offset givenUp
    cases givenUp
  drops := by
    intro offset segment instructions drop found
    cases found
  entries := by
    intro label listed
    have member : label ∈ LabelSet.ofList entries := LabelSet.mem_union.mpr (.inr listed)
    exact .inr ⟨.code, List.mem_map.mpr ⟨label, member, rfl⟩, Nat.le_refl _⟩
  references := by
    rintro label kind ⟨offset, segment, instructions, found, -⟩
    cases found
  analyzed := by
    intro offset resolved
    cases resolved

end Discovery

/-- A discovery that succeeds has answered all that it was asked for: its entries, the labels that
arguments in its code refer to, and those that its code drops into. -/
theorem runDiscovery_closed {bytes : List UInt8} {labels : LabelTable} {opcodes : OpcodeTable}
    {options : ParseOptions} {entries : List Label} {passes : Nat} {state : Discovery}
    (run : runDiscovery ⟨bytes, .ofTable labels, opcodes, options⟩ entries {} = .ok passes state) :
    ∀ label kind,
      Discovery.Requested ⟨bytes, .ofTable labels, opcodes, options⟩ entries state label kind →
        state.Answered ⟨bytes, .ofTable labels, opcodes, options⟩ label kind := by
  -- There are more passes than the level can rise.
  refine Discovery.Ready.closed_of_discoveryPasses rfl (Discovery.ready_empty _ entries) ?_ run
  omega

/-- Code that shows a text, code that it drops into, and a lone surrogate in place of the text. -/
def actionBytes : List UInt8 := [0xF8, 0xDC, 1, 2, 2, 0, 0x01, 0x00, 0xD8]

/-- The script of the code and the surrogate. -/
def actionSource : Source := ⟨actionBytes, .ofTable [0, 6, 7], .standard, {}⟩

/-- What is discovered from its first label. -/
def actionState : Discovery := stateAfter (runDiscovery actionSource [0] {})

/-- The index of its labels. -/
theorem index_actionSource :
    LabelIndex.ofTable [0, 6, 7] = .ofPlaces [⟨0, 0⟩, ⟨6, 1⟩, ⟨7, 2⟩] := by
  cbv

/-- It takes three passes. -/
theorem runDiscovery_actionSource : runDiscovery actionSource [0] {} = .ok 3 actionState := by
  rw [actionState, actionSource, index_actionSource]
  rfl

/-- The code that is entered is discovered. -/
theorem find?_actionState : actionState.segments.find? 0 =
    some ⟨[0], .code
      [{ opcode := OpcodeTable.standard.get Code.npcActionString
         args := [.int 1, .int 2, .int 2] }]⟩ := by
  rw [actionState, actionSource, index_actionSource]
  rfl

/-- The text that the code asks for is answered, although there is none. -/
theorem runDiscovery_closed_actionSource :
    runDiscovery actionSource [0] {} = .ok 3 actionState ∧
      Discovery.Requested actionSource [0] actionState 2 .text ∧
      actionState.Answered actionSource 2 .text := by
  -- The last argument of the instruction is a label of that kind.
  have names : Instruction.Names
      { opcode := OpcodeTable.standard.get Code.npcActionString, args := [.int 1, .int 2, .int 2] }
      2 .text :=
    ⟨rfl, (.label .text, [.int 2]), .tail _ (.tail _ (.head _)), .single rfl rfl rfl rfl rfl⟩
  have requested : Discovery.Requested actionSource [0] actionState 2 .text :=
    .reference ⟨0, _, _, find?_actionState, rfl, _, List.mem_singleton.mpr rfl, names⟩
  exact ⟨runDiscovery_actionSource, requested,
    runDiscovery_closed runDiscovery_actionSource 2 .text requested⟩

end QuestScript
