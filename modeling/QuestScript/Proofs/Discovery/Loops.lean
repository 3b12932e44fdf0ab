import QuestScript.Proofs.Discovery.Closure
import QuestScript.Proofs.Discovery.Decoding
import QuestScript.Proofs.Loop

/-! The loops of a discovery, each of which ends: instructions are decoded one after the other,
control drops from place to place, and passes follow each other. -/

namespace QuestScript

/-- A reader with the instructions that were read before, and what is logged about them. -/
structure Reading where
  reader : Reader
  instructions : List Instruction := []
  journal : Journal := []

namespace Reading

/-- The reading with one more instruction, whose reader has come further. -/
def push (reading : Reading) (next : Reader) (instruction : Instruction)
    (entries : Journal) : Reading :=
  ⟨next, reading.instructions ++ [instruction], reading.journal ++ entries⟩

/-- A reading that is at an earlier place than another. -/
def Before (reading later : Reading) : Prop := reading.reader.position < later.reader.position

/-- A place before one that is before another is before that. -/
theorem before_trans (reading middle later : Reading) (first : reading.Before middle)
    (second : middle.Before later) : reading.Before later :=
  Nat.lt_trans first second

end Reading

namespace Source

variable {source : Source} {start stop : Nat} {reading next : Reading}

/-- A step in decoding the segment that starts at `start`, until the reader is at `stop`. -/
def readSegment (source : Source) (start stop : Nat) (reading : Reading) :
    Reading ⊕ Except ParseError (List Instruction × Journal) :=
  if stop ≤ reading.reader.position then .inr (.ok (reading.instructions, reading.journal))
  else match decodeInstruction source.opcodes source.options.width reading.reader with
    | .ok instruction next => .inl (reading.push next instruction [])
    | .error ⟨opcode, cause⟩ next =>
      if !source.options.lenient then .inr (.error ⟨reading.reader.position, cause⟩)
      else match opcode with
        | none => .inr (.ok (reading.instructions, reading.journal ++ [cutOffEntry start cause]))
        | some opcode => .inl (reading.push next (.undecoded opcode)
            [undecodedEntry opcode reading.reader.position cause])

/-- The reading with all that comes of its reader. -/
def completed (reading : Reading) (made : Except ParseError (List Instruction × Journal)) :
    Except ParseError (List Instruction × Journal) :=
  made.map fun made => (reading.instructions ++ made.1, reading.journal ++ made.2)

/-- An instruction comes in front of the others, and what is logged about it in front of the
rest. -/
theorem completed_push (reading : Reading) (next : Reader) (instruction : Instruction)
    (entries : Journal) (made : Except ParseError (List Instruction × Journal)) :
    completed (reading.push next instruction entries) made =
      completed reading (do
        let (others, journal) ← made
        return (instruction :: others, entries ++ journal)) := by
  -- A failure is the same, whatever was read before it.
  cases made with
  | error failure => rfl
  | ok made => simp [completed, Reading.push, Except.map, bind, Except.bind, pure, Except.pure]

/-- What a reading comes to in some steps. -/
def readOn (source : Source) (start stop steps : Nat) (reading : Reading) :
    Except ParseError (List Instruction × Journal) :=
  completed reading (source.decodeSegmentSteps start stop steps reading.reader)

/-- A reading goes on with one step after the other. -/
theorem readOn_succ (source : Source) (start stop steps : Nat) (reading : Reading) :
    source.readOn start stop (steps + 1) reading =
      (source.readSegment start stop reading).elim (source.readOn start stop steps) id := by
  -- A step that goes on is the first of those that are left.
  simp only [readOn, readSegment, decodeSegmentSteps]
  by_cases reached : stop ≤ reading.reader.position
  · simp [reached, completed, Except.map]
  · simp only [reached, if_false]
    cases decodeInstruction source.opcodes source.options.width reading.reader with
    | ok instruction next => exact (completed_push reading next instruction [] _).symm
    | error failure next =>
      obtain ⟨opcode, cause⟩ := failure
      cases source.options.lenient with
      | false => rfl
      | true =>
        cases opcode with
        | none => simp [completed, Except.map]
        | some opcode => exact (completed_push reading next _ [_] _).symm

/-- A step that goes on was not at the end, and leaves the reader at a later place. -/
theorem readSegment_moves (step : source.readSegment start stop reading = .inl next) :
    reading.reader.position < stop ∧ reading.Before next := by
  unfold readSegment at step
  split at step
  · cases step
  · rename_i before
    refine ⟨Nat.lt_of_not_le before, ?_⟩
    split at step
    · -- An instruction has a byte at least.
      rename_i instruction reader read
      cases step
      obtain ⟨bytes, positive, moved⟩ := moves_of_decodeInstruction read
      have position := moved.position
      change reading.reader.position < reader.position
      omega
    · rename_i opcode cause reader read
      split at step
      · cases step
      · split at step
        · cases step
        · -- An opcode has been read, also if its arguments have not.
          rename_i opcode
          cases step
          exact decodeInstruction_position_lt read

/-- The code of a range is decoded by a loop that ends, and its reader only ever moves forward. -/
theorem climbs_decodeSegment (source : Source) (start : Nat) (inside : stop ≤ source.bytes.length) :
    Climbs (source.readSegment start stop) Reading.Before
      ⟨Reader.within source.bytes start source.bytes.length, [], []⟩
      (source.decodeSegment start stop) := by
  -- What is left to do is what is left of the range.
  have whole : source.decodeSegment start stop = source.readOn start stop (stop - start)
      ⟨Reader.within source.bytes start source.bytes.length, [], []⟩ := by
    unfold readOn decodeSegment
    cases source.decodeSegmentSteps start stop (stop - start)
      (Reader.within source.bytes start source.bytes.length) <;> simp [completed, Except.map]
  rw [whole]
  refine climbs_of_bound (fun _ => True) (fun reading : Reading => stop - reading.reader.position)
    (source.readOn_succ start stop) ?_ ?_ Reading.before_trans trivial ?_
  · intro reading _ done
    have reached : stop ≤ reading.reader.position := Nat.le_of_sub_eq_zero done
    simp [readSegment, readOn, decodeSegmentSteps, completed, Except.map, reached]
  · intro reading next _ step
    obtain ⟨more, before⟩ := readSegment_moves step
    have further : reading.reader.position < next.reader.position := before
    exact ⟨trivial, by omega, before⟩
  · -- The reader starts at the range, or at the end of a script that ends before.
    simp only [Reader.within]
    omega

end Source

section Range

variable {table : OpcodeTable} {width : CharWidth} {reading next : Reading}

/-- A step in decoding the instructions that fill a range. -/
def readRange (table : OpcodeTable) (width : CharWidth) (reading : Reading) :
    Reading ⊕ Except DecodeError (List Instruction) :=
  if reading.reader.rest.isEmpty then .inr (.ok reading.instructions)
  else match decodeInstruction table width reading.reader with
    | .error failure _ => .inr (.error failure.cause)
    | .ok instruction next => .inl (reading.push next instruction [])

/-- A step that goes on leaves the reader at a later place, with fewer bytes in front of it. -/
theorem readRange_moves (step : readRange table width reading = .inl next) :
    next.reader.rest.length < reading.reader.rest.length ∧ reading.Before next := by
  unfold readRange at step
  split at step
  · cases step
  · split at step
    · cases step
    · rename_i instruction reader read
      cases step
      -- The bytes of the instruction are behind the reader.
      obtain ⟨bytes, positive, moved⟩ := moves_of_decodeInstruction read
      have position := moved.position
      have rest := congrArg List.length moved.rest
      rw [List.length_append] at rest
      change reader.rest.length < _ ∧ _ < reader.position
      omega

/-- The instructions that fill a range are decoded by a loop that ends, and its reader only ever
moves forward. -/
theorem climbs_decodeRange (bytes : List UInt8) (start stop : Nat) (table : OpcodeTable)
    (width : CharWidth) :
    Climbs (readRange table width) Reading.Before ⟨Reader.within bytes start stop, [], []⟩
      (decodeRange bytes start stop table width) := by
  -- What is left to do is what is in front of the reader.
  let run (steps : Nat) (reading : Reading) : Except DecodeError (List Instruction) :=
    (decodeAllSteps table width steps reading.reader).map (reading.instructions ++ ·)
  have whole : decodeRange bytes start stop table width =
      run (Reader.within bytes start stop).rest.length
        ⟨Reader.within bytes start stop, [], []⟩ := by
    dsimp only [run, decodeRange]
    cases decodeAllSteps table width (Reader.within bytes start stop).rest.length
      (Reader.within bytes start stop) <;> simp [Except.map]
  rw [whole]
  refine climbs_of_bound (fun _ => True) (fun reading : Reading => reading.reader.rest.length)
    ?_ ?_ ?_ Reading.before_trans trivial (Nat.le_refl _)
  · -- One more step decodes an instruction, and the others behind it.
    intro steps reading
    simp only [run, readRange, decodeAllSteps]
    by_cases none : reading.reader.rest.isEmpty = true
    · simp [none, Except.map]
    · simp only [none, Bool.false_eq_true, if_false]
      cases decodeInstruction table width reading.reader with
      | error failure next => rfl
      | ok instruction next =>
        simp only [Reading.push, Sum.elim_inl]
        cases decodeAllSteps table width steps next with
        | error failure => rfl
        | ok made => simp [Except.map, bind, Except.bind, pure, Except.pure]
  · -- With nothing left to read there is nothing left to do.
    intro reading _ none
    have empty : reading.reader.rest = [] := List.length_eq_zero_iff.mp none
    simp [run, readRange, decodeAllSteps, Except.map, empty]
  · intro reading next _ step
    exact ⟨trivial, readRange_moves step⟩

end Range

/-- A label that is to be discovered as a kind, and what has been discovered before. -/
structure Link where
  label : Label
  kind : SegmentKind
  state : Discovery

/-- A step in discovering the code that control drops into. -/
def discoverLink (source : Source) (link : Link) :
    Link ⊕ EStateM.Result ParseError Discovery Unit :=
  match discoverOne source link.label link.kind link.state with
  | .error failure state => .inr (.error failure state)
  | .ok none state => .inr (.ok () state)
  | .ok (some next) state => .inl ⟨next, .code, state⟩

/-- A label that has its place before that of another. -/
def Link.Before (source : Source) (link later : Link) : Prop :=
  ∃ offset further, source.index.offset? link.label = some offset ∧
    source.index.offset? later.label = some further ∧ offset < further

namespace Link

/-- A place before one that is before another is before that. -/
theorem before_trans (source : Source) (link middle later : Link)
    (first : link.Before source middle) (second : middle.Before source later) :
    link.Before source later := by
  -- The place in the middle has only one offset.
  obtain ⟨offset, between, placed, here, before⟩ := first
  obtain ⟨again, further, there, beyond, after⟩ := second
  obtain rfl : between = again := Option.some.inj (here.symm.trans there)
  exact ⟨offset, further, placed, beyond, Nat.lt_trans before after⟩

/-- The places that control may still drop into, and the one that it is at. -/
def left (source : Source) (link : Link) : Nat :=
  match source.index.offset? link.label with
  | some offset => (source.index.beyond offset).length + 1
  | none => 1

end Link

/-- Control drops into a place further on, with fewer places beyond it. -/
theorem discoverLink_moves {source : Source} {table : LabelTable} {link next : Link}
    (indexed : source.index = .ofTable table) (step : discoverLink source link = .inl next) :
    next.left source < link.left source ∧ link.Before source next := by
  unfold discoverLink at step
  split at step
  · cases step
  · cases step
  · rename_i drop state run
    cases step
    obtain ⟨offset, place, placed, first, rfl⟩ := (visits_of_discoverOne run).firstAfter?
    -- The place that control drops into is that of its label.
    have given : source.index.offset? place.label = some place.offset ∧ offset < place.offset := by
      rw [indexed] at first ⊢
      rw [LabelIndex.offset?_ofTable]
      obtain ⟨after, registered, -⟩ := LabelIndex.firstAfter?_eq_some first
      exact ⟨registered, after⟩
    have fewer := LabelIndex.length_beyond_lt first
    refine ⟨?_, offset, place.offset, placed, given.1, given.2⟩
    simp only [Link.left, placed, given.1]
    omega

/-- What control drops into is discovered by a loop that ends, and its places only ever lie further
on. -/
theorem climbs_discover {source : Source} {table : LabelTable}
    (indexed : source.index = .ofTable table) (label : Label) (kind : SegmentKind)
    (state : Discovery) :
    Climbs (discoverLink source) (Link.Before source) ⟨label, kind, state⟩
      (discover source label kind state) := by
  let run (steps : Nat) (link : Link) : EStateM.Result ParseError Discovery Unit :=
    discoverChain source steps link.label link.kind link.state
  change Climbs _ _ _ (run (source.index.places.length + 1) ⟨label, kind, state⟩)
  refine climbs_of_bound (fun _ => True) (Link.left source) ?_ ?_ ?_ (Link.before_trans source)
    trivial ?_
  · intro steps link
    dsimp only [run, discoverLink]
    cases visit : discoverOne source link.label link.kind link.state with
    | error failure after => exact bind_of_error visit
    | ok drop after =>
      refine (bind_of_ok visit).trans ?_
      cases drop with
      | none => rfl
      | some next => rfl
  · -- There is always the place that control is at.
    intro link _ none
    unfold Link.left at none
    split at none <;> omega
  · intro link next _ step
    exact ⟨trivial, discoverLink_moves indexed step⟩
  · -- There are never more places beyond one than there are places.
    unfold Link.left
    split
    · exact Nat.succ_le_succ (List.length_filter_le _ _)
    · omega

section Passes

/-- The different offsets of labels that lie inside a script of some size. -/
def LabelTable.offsetsBelow (table : LabelTable) (size : Nat) : List Nat :=
  ((table.filter (· ≠ noOffset)).map (·.toNat)).eraseDups.filter (· < size)

/-- These are the offsets that labels have inside the script. -/
theorem LabelTable.mem_offsetsBelow {table : LabelTable} {size offset : Nat} :
    offset ∈ table.offsetsBelow size ↔
      (∃ label, table.offset? label = some offset) ∧ offset < size := by
  -- Offsets are words of the table, and labels their positions.
  simp only [offsetsBelow, List.mem_filter, List.mem_eraseDups, List.mem_map, decide_eq_true_eq,
    LabelTable.offset?_eq_some]
  constructor
  · rintro ⟨⟨word, ⟨listed, registered⟩, rfl⟩, inside⟩
    obtain ⟨label, found⟩ := List.mem_iff_getElem?.mp listed
    exact ⟨⟨label, word, found, registered, rfl⟩, inside⟩
  · rintro ⟨⟨label, word, found, registered, rfl⟩, inside⟩
    exact ⟨⟨word, ⟨List.mem_of_getElem? found, registered⟩, rfl⟩, inside⟩

/-- A range that is taken for a kind of no lower priority is known no less. -/
theorem SegmentKind.rank_mono {kind later : SegmentKind} {givenUp still : Bool}
    (priority : kind.priority ≤ later.priority) (kept : givenUp = true → still = true) :
    kind.rank givenUp ≤ later.rank still := by
  -- Both ranks are known in each of the cases, or the priorities are the wrong way round.
  cases kind <;> cases later <;> cases givenUp <;> cases still <;>
    first | decide | exact absurd priority (by decide) | exact absurd (kept rfl) (by decide)

namespace Discovery

variable {source : Source} {table : LabelTable} {state next : Discovery}

/-- Changes never make less known of a range. -/
theorem rank_le_of_reaches (reached : state.Reaches source next) (offset : Nat) :
    state.rank offset ≤ next.rank offset := by
  unfold rank
  cases found : state.segments.find? offset with
  | none => exact Nat.zero_le _
  | some segment =>
    -- What is there later has no lower priority, and texts that were given up stay so.
    obtain ⟨later, there, grown⟩ := grows_of_reaches reached offset segment found
    rw [there]
    refine SegmentKind.rank_mono grown.priority fun givenUp => ?_
    rw [List.contains_iff_mem] at givenUp ⊢
    exact mem_invalidTexts_of_reaches reached givenUp

/-- How much is known of some ranges together. -/
def known (offsets : List Nat) (state : Discovery) : Nat := (offsets.map state.rank).sum

/-- There is no more to know of some ranges than that all are code. -/
theorem known_le (offsets : List Nat) (state : Discovery) :
    state.known offsets ≤ 3 * offsets.length := by
  -- Each range adds three steps at most.
  induction offsets with
  | nil => exact Nat.le_refl _
  | cons offset offsets ih =>
    have first := state.rank_le offset
    simp only [known, List.map_cons, List.sum_cons, List.length_cons] at ih ⊢
    omega

/-- A discovery that is counted for something knows more about a range that a label points at. -/
theorem known_lt (indexed : source.index = .ofTable table) (sound : next.Sound source)
    (reached : state.Reaches source next) (rises : state.level source < next.level source) :
    state.known (table.offsetsBelow source.bytes.length) <
      next.known (table.offsetsBelow source.bytes.length) := by
  have mono := rank_le_of_reaches reached
  -- One of the places is known better.
  obtain ⟨place, listed, better⟩ : ∃ place ∈ source.index.places,
      state.rank place.offset < next.rank place.offset := by
    by_contra none
    push Not at none
    exact absurd (List.sum_le_sum none) (Nat.not_le.mpr rises)
  -- What is known of it is a segment, which is inside the script.
  have inside : place.offset < source.bytes.length := by
    cases found : next.segments.find? place.offset with
    | none => simp [rank, found] at better
    | some segment => exact (sound _ segment found).inside
  rw [indexed] at listed
  have counted : place.offset ∈ table.offsetsBelow source.bytes.length :=
    LabelTable.mem_offsetsBelow.mpr ⟨⟨place.label, LabelIndex.mem_places.mp listed⟩, inside⟩
  exact List.sum_lt_sum _ _ (fun offset _ => mono offset) ⟨place.offset, counted, better⟩

end Discovery

/-- A pass that is to be made: its number, its requests, and what has been discovered before. -/
structure Pass where
  number : Nat
  pending : Requests
  state : Discovery

/-- The first pass of a discovery, which requests the entries of the script. -/
def Pass.first (entries : List Label) : Pass :=
  ⟨1, (LabelSet.ofList entries).map fun label => (label, .code), {}⟩

/-- One pass, after which another one is to be made if it has decoded anything. -/
def makePass (source : Source) (pass : Pass) : Pass ⊕ EStateM.Result ParseError Discovery Nat :=
  match discoveryPass source pass.number pass.pending pass.state with
  | .error failure state => .inr (.error failure state)
  | .ok (requests, true) state => .inl ⟨pass.number + 1, requests, state⟩
  | .ok (_, false) state => .inr (.ok pass.number state)

/-- A pass after which there is another one has raised the level. -/
theorem makePass_rises {source : Source} {pass next : Pass}
    (reached : Discovery.Reaches source {} pass.state) (step : makePass source pass = .inl next) :
    pass.state.Reaches source next.state ∧
      pass.state.level source < next.state.level source := by
  unfold makePass at step
  split at step
  · cases step
  · rename_i requests state run
    cases step
    have walked := (walks_discoveryPass source pass.number pass.pending).reaches run
    refine ⟨walked, ?_⟩
    obtain ⟨middle, discovered, ends⟩ := Discovery.passEnds_of_discoveryPass run
    -- The requests are counted from the cleared count on.
    have ordered := Discovery.ascends_of_reaches SegmentMap.ascends_nil reached
    have advances := progresses_discoverAll source pass.pending
      { pass.state with redecoded := 0 } () middle ordered discovered
    have more := advances.rises (ends.progress.mp rfl)
    rw [Discovery.level_congr ends.segments ends.invalidTexts]
    exact more
  · cases step

/-- A discovery from the start is made in passes, of which there are at most three for each offset
of a label inside the script, and a last one. -/
theorem loops_runDiscovery {source : Source} {table : LabelTable}
    (indexed : source.index = .ofTable table) (entries : List Label) :
    ∃ visited, Loops (makePass source) (.first entries) visited (runDiscovery source entries {}) ∧
      visited.length ≤ 3 * (table.offsetsBelow source.bytes.length).length + 1 := by
  let run (steps : Nat) (pass : Pass) : EStateM.Result ParseError Discovery Nat :=
    discoveryPasses source steps pass.number pass.pending pass.state
  let kept (pass : Pass) : Prop := Discovery.Reaches source {} pass.state
  have start : kept (.first entries) := .refl _
  -- The level of all places says that the passes are enough.
  have whole : ∃ visited, Loops (makePass source) (.first entries) visited
      (run (3 * source.index.places.length + 2) (.first entries)) := by
    refine exists_loops kept
      (fun pass => 3 * source.index.places.length - pass.state.level source + 1) ?_ ?_ ?_ start ?_
    · intro steps pass
      dsimp only [run, makePass]
      cases made : discoveryPass source pass.number pass.pending pass.state with
      | error failure after => exact bind_of_error made
      | ok result after =>
        obtain ⟨requests, progress⟩ := result
        refine (bind_of_ok made).trans ?_
        cases progress with
        | true => rfl
        | false => rfl
    · intro pass _ none
      cases none
    · intro pass next reached step
      obtain ⟨walked, rises⟩ := makePass_rises reached step
      have bound := next.state.level_le source
      exact ⟨reached.trans walked, by omega⟩
    · omega
  -- What is known of different offsets says how many of them there are.
  obtain ⟨visited, loops⟩ := whole
  refine ⟨visited, loops, ?_⟩
  let offsets := table.offsetsBelow source.bytes.length
  refine Nat.le_trans (loops.length_le kept
    (fun pass => 3 * offsets.length - pass.state.known offsets) ?_ start)
    (Nat.succ_le_succ (Nat.sub_le _ _))
  intro pass next reached step
  obtain ⟨walked, rises⟩ := makePass_rises reached step
  have sound := (Discovery.sound_empty source).reaches (reached.trans walked)
  have more := Discovery.known_lt indexed sound walked rises
  have bound := next.state.known_le offsets
  refine ⟨reached.trans walked, ?_⟩
  dsimp only [offsets] at bound more ⊢
  omega

end Passes

end QuestScript
