import QuestScript.Discovery.Harvest
import QuestScript.Script

/-! Reading a script: discovery, and then a guess about what it has left out. -/

namespace QuestScript

/-- A segment in its place. -/
structure Tile where
  offset : Nat
  segment : Segment
  /-- Whether discovery left it out. -/
  filled : Bool
deriving Repr

namespace Source

/-- The instructions of the range at an offset that discovery left out, if it is code. -/
def classifyGap (source : Source) (offset : Nat) : Except Rejection (List Instruction) :=
  classify source.bytes offset (source.index.rangeEnd source.bytes.length offset) source.index
    source.opcodes source.options.width source.options.thresholds

/-- The segment at an offset that discovery left out. -/
def gapSegment (source : Source) (offset : Nat) : Segment :=
  let labels := source.index.labelsAt offset
  match source.classifyGap offset with
  | .ok instructions => ⟨labels, .code instructions⟩
  | .error _ =>
    ⟨labels, .data (source.slice offset (source.index.rangeEnd source.bytes.length offset))⟩

/-- What is logged about a range that discovery left out. -/
def gapJournal (source : Source) (offset : Nat) : Journal :=
  classifyJournal offset (source.index.labelsAt offset) (source.classifyGap offset)

/-- The segment at an offset. -/
def tileAt (source : Source) (segments : SegmentMap) (offset : Nat) : Tile :=
  match segments.find? offset with
  | some segment =>
    if 0 < segment.size source.options.width then ⟨offset, segment, false⟩
    else ⟨offset, source.gapSegment offset, true⟩
  | none => ⟨offset, source.gapSegment offset, true⟩

/-- Segments that follow each other from an offset to the end, for as many steps as given. -/
def tilesFrom (source : Source) (segments : SegmentMap) : Nat → Nat → List Tile
  | 0, _ => []
  | steps + 1, offset =>
    if source.bytes.length ≤ offset then []
    else
      let tile := source.tileAt segments offset
      tile :: source.tilesFrom segments steps (offset + tile.segment.size source.options.width)

/-- Segments that follow each other from the start to the end.

None of them is empty, so that there are enough steps. -/
def tiles (source : Source) (segments : SegmentMap) : List Tile :=
  source.tilesFrom segments source.bytes.length 0

/-- Problems with the labels at which no segment starts. -/
def strayLabels (source : Source) (tiles : List Tile) : List Problem :=
  (source.index.places.filter fun place => !tiles.any (·.offset == place.offset)).map fun place =>
    ⟨.warning, s!"Label {place.label} doesn't point to anything.",
      s!"Label {place.label} with offset {place.offset} doesn't point to anything."⟩

/-- The segments, with all the labels that point at them. -/
def labelled (source : Source) (tiles : List Tile) : Script :=
  ⟨tiles.map fun tile => tile.segment.addLabels (source.index.labelsAt tile.offset)⟩

/-- The problem that segments end elsewhere than the script. -/
def sizeProblem (expected actual : Nat) : List Problem :=
  if actual = expected then []
  else [⟨.error, "The script code is corrupt.",
    s!"Expected to parse {expected} bytes but parsed {actual} instead."⟩]

/-- The outcome of a parse, and what is logged, once discovery has come to its end. -/
def assemble (source : Source) (state : Discovery) : Outcome Script × Journal :=
  let tiles := source.tiles state.segments
  let filled := tiles.filter (·.filled)
  let produced : LogEntry := ⟨.debug, .parsing, s!"Produced {tiles.length} segments, " ++
    s!"{filled.length} of them classified heuristically"⟩
  let size := (tiles.map (·.segment.size source.options.width)).foldr (· + ·) 0
  let mismatch := sizeProblem source.bytes.length size
  let found := source.strayLabels tiles ++ mismatch
  let failed := state.failed || (!mismatch.isEmpty && !source.options.lenient)
  (⟨if failed then none else some (source.labelled tiles), state.problems ++ found⟩,
    filled.flatMap (fun tile => source.gapJournal tile.offset) ++ [produced] ++
      found.map Problem.logEntry)

end Source

/-- Reads a script, of which the entry labels are known to be code, and says what is logged.

It fails only if an instruction cannot be decoded and options are strict. Everything else is among
the problems of the outcome, and a strict parse with errors among them has no value. -/
def parse (bytes : List UInt8) (labels : LabelTable) (entries : List Label) (opcodes : OpcodeTable)
    (options : ParseOptions) : Except ParseError (Outcome Script) × Journal :=
  let source : Source := ⟨bytes, .ofTable labels, opcodes, options⟩
  let started : LogEntry := ⟨.debug, .parsing, s!"Parsing {bytes.length} bytes of bytecode with " ++
    s!"{labels.length} labels, {(LabelSet.ofList entries).length} entry labels"⟩
  match runDiscovery source entries {} with
  | .error failure state => (.error failure, started :: state.journal)
  | .ok _ state =>
    let (outcome, journal) := source.assemble state
    (.ok outcome, started :: state.journal ++ journal)

end QuestScript
