import QuestScript.Proofs.Discovery.Decoding
import QuestScript.Proofs.Discovery.Order

/-! What holds of a discovery whatever was asked of it, and whether that has failed or not. -/

namespace QuestScript

/-- The end of the range at an offset: the nearest place beyond it, unless the script ends before. -/
structure LabelTable.RangeEnds (table : LabelTable) (size offset stop : Nat) : Prop where
  beyond : offset < stop
  within : stop ≤ size
  nearest : ∀ label place, table.offset? label = some place → offset < place → stop ≤ place
  reached : stop = size ∨ ∃ label, table.offset? label = some stop

/-- The range at an offset inside the script has such an end. -/
theorem LabelIndex.rangeEnds {table : LabelTable} {size offset : Nat} (inside : offset < size) :
    table.RangeEnds size offset ((ofTable table).rangeEnd size offset) where
  beyond := lt_rangeEnd inside
  within := rangeEnd_le
  nearest := fun _ _ given after => rangeEnd_le_of_lt given after
  reached := by
    -- A range that ends before the script does is cut off by a label.
    have bound : (ofTable table).rangeEnd size offset ≤ size := rangeEnd_le
    rcases Nat.lt_or_eq_of_le bound with short | whole
    · exact .inr (exists_offset_rangeEnd short)
    · exact .inl whole

namespace Source

/-- The text in the units before the first zero of a range. -/
def text? (source : Source) (start stop : Nat) : Option String :=
  let units := source.options.width.unitsOfBytes (source.slice start stop)
  source.options.width.text? (units.takeWhile (· != 0))

/-- The text of a range is what is decoded from it. -/
theorem toOption_decodeText {source : Source} {start stop : Nat} (ordered : start ≤ stop)
    (inside : stop ≤ source.bytes.length) :
    (source.decodeText start stop).toOption = source.text? start stop := by
  -- The reader sees the bytes of the range, and no limit cuts them short.
  have whole : ((source.bytes.take stop).drop start).take (stop - start) =
      source.slice start stop := by
    refine List.take_of_length_le ?_
    simp only [List.length_drop, List.length_take]
    omega
  simp only [decodeText, Reader.within, Nat.min_eq_left inside, Nat.min_eq_left ordered,
    Reader.string, whole, text?]
  cases source.options.width.text? _ with
  | some text => rfl
  | none => rfl

/-- A content that the bytes of a range stand for. -/
def Holds (source : Source) (start stop : Nat) : Content → Prop
  | .data bytes => bytes = source.slice start stop
  | .text value stored => stored = some (stop - start) ∧ source.text? start stop = some value
  | .code instructions => source.ReadsCode stop ⟨start, source.bytes.drop start⟩ instructions

/-- What the range at an offset can be read as is what its bytes stand for. -/
theorem Reads.holds {source : Source} {offset : Nat} {content : Content}
    (reads : source.Reads offset content) (inside : offset < source.bytes.length) :
    source.Holds offset (source.stopAt offset) content := by
  -- Only a text and code have to be read.
  cases content with
  | data bytes => exact reads
  | text value stored =>
    obtain ⟨count, read⟩ := reads
    refine ⟨count, ?_⟩
    rw [← toOption_decodeText (Nat.le_of_lt (lt_stopAt inside)) (source.stopAt_le offset)]
    exact congrArg Except.toOption read
  | code instructions =>
    obtain ⟨journal, read⟩ := reads
    exact readsCode_of_decodeSegment (Nat.le_of_lt inside) read

end Source

namespace Discovery

/-- A segment as it may be found at an offset. -/
structure Admits (source : Source) (table : LabelTable) (offset : Nat) (segment : Segment) :
    Prop where
  inside : offset < source.bytes.length
  registered : ∃ label, table.offset? label = some offset
  labelled : segment.labels ≠ []
  placed : ∀ label ∈ segment.labels, table.offset? label = some offset
  holds : ∃ stop, table.RangeEnds source.bytes.length offset stop ∧
    source.Holds offset stop segment.content

/-- What belongs at an offset may be found there. -/
theorem admits_of_describes {source : Source} {table : LabelTable} {offset : Nat}
    {segment : Segment} (indexed : source.index = .ofTable table)
    (described : source.Describes offset segment) : Admits source table offset segment := by
  have placed : ∀ label ∈ segment.labels, table.offset? label = some offset := by
    intro label carried
    have given := described.placed label carried
    rwa [indexed, LabelIndex.offset?_ofTable] at given
  refine ⟨described.inside, ?_, described.labelled, placed, ?_⟩
  · -- Any of the labels is registered.
    obtain ⟨label, carried⟩ := List.exists_mem_of_ne_nil _ described.labelled
    exact ⟨label, placed label carried⟩
  · refine ⟨source.stopAt offset, ?_, described.reads.holds described.inside⟩
    rw [Source.stopAt, indexed]
    exact LabelIndex.rangeEnds described.inside

/-- What may be asked of a discovery. -/
inductive Call where
  /-- All that can be reached from some labels of code. -/
  | run (entries : List Label)
  /-- The range at a label, and the code that control drops into from there. -/
  | segment (label : Label) (kind : SegmentKind)
deriving DecidableEq, Repr

/-- What a discovery is left as by a call, which may fail. -/
def after (source : Source) (state : Discovery) : Call → Discovery
  | .run entries => stateAfter (runDiscovery source entries state)
  | .segment label kind => stateAfter (discover source label kind state)

/-- What calls, one after the other, have made of a discovery that began with nothing. -/
def afterCalls (source : Source) (calls : List Call) : Discovery :=
  calls.foldl (after source) {}

variable {source : Source} {state : Discovery}

/-- A call does what it does by changes. -/
theorem reaches_after (call : Call) : state.Reaches source (after source state call) := by
  -- Both kinds of calls are made up of such changes.
  cases call with
  | run entries => exact walks_runDiscovery source entries state
  | segment label kind => exact walks_discoverChain source _ label kind state

/-- Calls do what they do by changes. -/
theorem reaches_foldl_after (calls : List Call) :
    state.Reaches source (calls.foldl (after source) state) := by
  -- Each call goes on from what the calls before it have left.
  induction calls generalizing state with
  | nil => exact .refl state
  | cons call calls ih => exact (reaches_after call).trans ih

/-- Whatever was asked of a discovery, its segments ascend, each is what its range and the label
table say, and whatever is asked later keeps their labels, their priority and their code. -/
theorem history_invariant (bytes : List UInt8) (labels : LabelTable) (opcodes : OpcodeTable)
    (options : ParseOptions) (calls : List Call) :
    let source : Source := ⟨bytes, .ofTable labels, opcodes, options⟩
    let state := afterCalls source calls
    state.segments.Ascends ∧
      (∀ offset segment, (offset, segment) ∈ state.segments →
        Admits source labels offset segment) ∧
      ∀ more, state.Grows (afterCalls source (calls ++ more)) := by
  intro source state
  have reached : Reaches source {} state := reaches_foldl_after calls
  have ordered := ascends_of_reaches SegmentMap.ascends_nil reached
  refine ⟨ordered, ?_, ?_⟩
  · intro offset segment listed
    -- What is listed is found, and all that is found belongs where it is.
    have found := ordered.find?_of_mem listed
    exact admits_of_describes rfl ((sound_empty source).reaches reached offset segment found)
  · intro more
    -- The later calls go on from here.
    have split : afterCalls source (calls ++ more) = more.foldl (after source) state :=
      List.foldl_append
    rw [split]
    exact grows_of_reaches (reaches_foldl_after more)

/-- A script of code, a text, and an opcode that lacks its arguments and has two labels. -/
def cutOffSource : Source :=
  ⟨[0x00, 0x01, 0x68, 0x69, 0xF8, 0xDC], .ofTable [0, 2, 4, 4], .standard, { width := .narrow }⟩

/-- Calls of which the last fails at the opcode, which another label is put on before. -/
def failingCalls : List Call := [.segment 1 .data, .segment 1 .text, .segment 2 .data, .run [0, 3]]

/-- The failure leaves what was decoded until then. -/
theorem segments_failingCalls :
    (afterCalls cutOffSource failingCalls).segments =
      [(0, ⟨[0], .code [{ opcode := OpcodeTable.standard.get Code.nop },
        { opcode := OpcodeTable.standard.get Code.ret }]⟩),
      (2, ⟨[1], .text "hi" (some 2)⟩), (4, ⟨[2, 3], .data [0xF8, 0xDC]⟩)] := by
  cbv

/-- What was data before the failure is data of its range after it, with both labels. -/
theorem history_invariant_failingCalls :
    (4, ⟨[2, 3], .data [0xF8, 0xDC]⟩) ∈ (afterCalls cutOffSource failingCalls).segments ∧
      Admits cutOffSource [0, 2, 4, 4] 4 ⟨[2, 3], .data [0xF8, 0xDC]⟩ := by
  -- The segment is among those that are left.
  have listed : (4, ⟨[2, 3], .data [0xF8, 0xDC]⟩) ∈
      (afterCalls cutOffSource failingCalls).segments := by
    rw [segments_failingCalls]
    simp
  exact ⟨listed, (history_invariant _ [0, 2, 4, 4] .standard { width := .narrow }
    failingCalls).2.1 4 _ listed⟩

end Discovery

end QuestScript
