import QuestScript.Instruction.Decode
import QuestScript.Opcode.Standard
import QuestScript.Options
import QuestScript.Report
import QuestScript.Segment

/-! Discovering segments from the labels that point at them. -/

namespace QuestScript

/-- An instruction that could not be decoded, which ends a strict parse. -/
structure ParseError where
  offset : Nat
  cause : DecodeError
deriving DecidableEq, Repr

/-- What an error of a parse says. -/
def ParseError.message (error : ParseError) : String :=
  s!"Decode error at offset {error.offset}: {error.cause.message}"

/-- A script to discover segments in, with all that it takes to do so. -/
structure Source where
  bytes : List UInt8
  index : LabelIndex
  opcodes : OpcodeTable
  options : ParseOptions
deriving Repr

/-- Segments by their offsets, ascending. -/
abbrev SegmentMap := List (Nat × Segment)

namespace SegmentMap

/-- The segment at an offset. -/
def find? (map : SegmentMap) (offset : Nat) : Option Segment :=
  (List.find? (fun entry => entry.1 == offset) map).map (·.2)

/-- The segments with one at an offset, in place of another there. -/
def insert (map : SegmentMap) (offset : Nat) (segment : Segment) : SegmentMap :=
  match map with
  | [] => [(offset, segment)]
  | first :: rest =>
    if offset < first.1 then (offset, segment) :: first :: rest
    else if offset = first.1 then (offset, segment) :: rest
    else first :: insert rest offset segment

end SegmentMap

/-- What has been discovered. -/
structure Discovery where
  segments : SegmentMap := []
  /-- Offsets of code whose references are all resolved. -/
  analyzed : List Nat := []
  /-- Labels without a place that were reported. -/
  reported : List Label := []
  /-- Segments of the current pass that took the place of others. -/
  redecoded : Nat := 0
  /-- Offsets that were to hold a text and do not. -/
  invalidTexts : List Nat := []
  problems : List Problem := []
  /-- Whether a strict parse has failed. -/
  failed : Bool := false
  journal : Journal := []
deriving Repr

/-- Steps of a discovery; what was discovered before a step fails is kept. -/
abbrev Discovering := EStateM ParseError Discovery

namespace Discovery

/-- The discovery with more in its log. -/
def log (state : Discovery) (entries : Journal) : Discovery :=
  { state with journal := state.journal ++ entries }

/-- The discovery with a segment at an offset. -/
def setSegment (state : Discovery) (offset : Nat) (segment : Segment) : Discovery :=
  { state with segments := state.segments.insert offset segment }

/-- The discovery with one more problem, which is also logged. -/
def addProblem (state : Discovery) (problem : Problem) : Discovery :=
  { state with problems := state.problems ++ [problem] }.log [problem.logEntry]

/-- The discovery after a reference to a label that has no place.

It is reported once, and not at all if the virtual machine provides the label. -/
def reportUnregistered (state : Discovery) (options : ParseOptions) (label : Label) : Discovery :=
  if options.builtinLabels.contains label || state.reported.contains label then state
  else
    let text := s!"Label {label} is not registered in the label table."
    let severity := if options.lenient then Severity.warning else .error
    { state with
        reported := label :: state.reported
        failed := state.failed || !options.lenient }.addProblem ⟨severity, text, text⟩

end Discovery

/-- What is logged about arguments that could not be decoded. -/
def undecodedEntry (opcode : Opcode) (offset : Nat) (cause : DecodeError) : LogEntry :=
  ⟨.error, .discovery, s!"Couldn't parse arguments for instruction {opcode.mnemonic} at offset " ++
    s!"{offset}: {cause.message}"⟩

/-- What is logged about a code that could not be decoded. -/
def cutOffEntry (start : Nat) (cause : DecodeError) : LogEntry :=
  ⟨.error, .discovery, s!"Couldn't fully parse byte code segment at offset {start}: {cause.message}"⟩

namespace Source

/-- The instructions of a segment that starts at `start`, from a reader on until it is at `stop` or
beyond, for as many steps as given.

A lenient parse keeps an opcode whose arguments cannot be decoded, and goes on after what was read. -/
def decodeSegmentSteps (source : Source) (start stop : Nat) :
    Nat → Reader → Except ParseError (List Instruction × Journal)
  | 0, _ => .ok ([], [])
  | steps + 1, reader =>
    if stop ≤ reader.position then .ok ([], [])
    else match decodeInstruction source.opcodes source.options.width reader with
      | .ok instruction next => do
        let (others, journal) ← source.decodeSegmentSteps start stop steps next
        return (instruction :: others, journal)
      | .error ⟨opcode, cause⟩ next =>
        if !source.options.lenient then .error ⟨reader.position, cause⟩
        else match opcode with
          | none => .ok ([], [cutOffEntry start cause])
          | some opcode => do
            let (others, journal) ← source.decodeSegmentSteps start stop steps next
            return (.undecoded opcode :: others,
              undecodedEntry opcode reader.position cause :: journal)

/-- The instructions from `start` until one ends at `stop` or beyond.

Every step reads a byte, so that there are enough of them. -/
def decodeSegment (source : Source) (start stop : Nat) :
    Except ParseError (List Instruction × Journal) :=
  source.decodeSegmentSteps start stop (stop - start)
    (Reader.within source.bytes start source.bytes.length)

/-- The bytes of a range. -/
def slice (source : Source) (start stop : Nat) : List UInt8 :=
  (source.bytes.take stop).drop start

/-- The text that a range holds. -/
def decodeText (source : Source) (start stop : Nat) : Except DecodeError String :=
  match Reader.string source.options.width (stop - start) true
      (Reader.within source.bytes start stop) with
  | .ok text _ => .ok text
  | .error cause _ => .error cause

end Source

/-- Whether control always leaves through some instruction, so that it does not drop into what
follows them. -/
def leavesExplicitly (instructions : List Instruction) : Bool :=
  instructions.any fun instruction =>
    instruction.opcode.code == Code.ret || instruction.opcode.code == Code.jmp

/-- Decodes the range at an offset as a kind; the result is the label of the code that control drops
into from there. -/
def decodeAt (source : Source) (offset : Nat) (kind : SegmentKind) (labels : LabelSet) :
    Discovering (Option Label) := fun state =>
  let stop := source.index.rangeEnd source.bytes.length offset
  let data : Segment := ⟨labels, .data (source.slice offset stop)⟩
  match kind with
  | .code =>
    match source.decodeSegment offset stop with
    | .error failure => .error failure state
    | .ok (instructions, journal) =>
      let next := if leavesExplicitly instructions then none else source.index.firstAfter? offset
      .ok (next.map (·.label)) ((state.log journal).setSegment offset ⟨labels, .code instructions⟩)
  | .data => .ok none (state.setSegment offset data)
  | .text =>
    match source.decodeText offset stop with
    | .ok text => .ok none (state.setSegment offset ⟨labels, .text text (some (stop - offset))⟩)
    | .error cause =>
      -- Text that cannot be read stays data, and is not tried again.
      let entry := ⟨.warning, .discovery,
        s!"Keeping string segment at offset {offset} as data: {cause.message}"⟩
      let state := { state.log [entry] with invalidTexts := offset :: state.invalidTexts }
      .ok none (state.setSegment offset data)

/-- Makes sure that the range at a label is decoded as a kind or as one of higher priority; the
result is the label of the code that control drops into from there. -/
def discoverOne (source : Source) (label : Label) (kind : SegmentKind) :
    Discovering (Option Label) := fun state =>
  match source.index.offset? label with
  | none => .ok none (state.reportUnregistered source.options label)
  | some offset =>
    if source.bytes.length ≤ offset then
      .ok none (state.log [⟨.warning, .discovery,
        s!"Label {label} points past the end of the bytecode at offset {offset}."⟩])
    else match state.segments.find? offset with
      | none => decodeAt source offset kind [label] state
      | some existing =>
        let segment := existing.addLabel label
        let state := state.setSegment offset segment
        let keptAsData := kind == .text && state.invalidTexts.contains offset
        if existing.kind.priority < kind.priority && !keptAsData then
          let entry := ⟨.debug, .discovery, s!"Decoding offset {offset} again as {kind.name} " ++
            s!"instead of {existing.kind.name}"⟩
          decodeAt source offset kind segment.labels
            { state.log [entry] with redecoded := state.redecoded + 1 }
        else .ok none state

/-- Discovers the range at a label, and the code that control drops into from there, for as many
steps as given. -/
def discoverChain (source : Source) : Nat → Label → SegmentKind → Discovering Unit
  | 0, _, _ => return
  | steps + 1, label, kind => do
    match ← discoverOne source label kind with
    | none => return
    | some next => discoverChain source steps next .code

/-- Discovers the range at a label, and the code that control drops into from there.

Control drops from place to place in ascending order, so that there are enough steps. -/
def discover (source : Source) (label : Label) (kind : SegmentKind) : Discovering Unit :=
  discoverChain source (source.index.places.length + 1) label kind

end QuestScript
