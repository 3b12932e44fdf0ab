import QuestScript.Classify
import QuestScript.Discovery
import QuestScript.Flow.Stack

/-! Harvesting the references to labels from the code that has been discovered. -/

namespace QuestScript

/-- Labels with the kinds they are to be decoded as, by ascending label. -/
abbrev Requests := List (Label × SegmentKind)

/-- The requests with one more; of two for a label the one of higher priority stays. -/
def Requests.raise (requests : Requests) (label : Label) (kind : SegmentKind) : Requests :=
  match requests with
  | [] => [(label, kind)]
  | first :: rest =>
    if label < first.1 then (label, kind) :: first :: rest
    else if label = first.1 then
      (if first.2.priority < kind.priority then (label, kind) else first) :: rest
    else first :: Requests.raise rest label kind

/-- What has been harvested. -/
structure Harvest where
  requests : Requests := []
  journal : Journal := []
deriving Repr

namespace Harvest

/-- The harvest with a reference to a label. -/
def request (harvest : Harvest) (kind : SegmentKind) (value : Int32) : Harvest :=
  match labelOf? value with
  | some label => { harvest with requests := harvest.requests.raise label kind }
  | none =>
    let entry := ⟨.debug, .discovery, s!"Ignoring negative label reference {value.toInt}"⟩
    { harvest with journal := harvest.journal ++ [entry] }

/-- The harvest with some references to labels. -/
def requestAll (harvest : Harvest) (kind : SegmentKind) (values : List Int32) : Harvest :=
  values.foldl (·.request kind) harvest

/-- The harvest with what an analysis yields, and whether that was few enough values. -/
def requestValues (harvest : Harvest) (bound : Nat) (kind : SegmentKind)
    (found : ValueSet × Journal) : Bool × Harvest :=
  let harvest := { harvest with journal := harvest.journal ++ found.2 }
  match found.1.resolve? bound with
  | some values => (true, harvest.requestAll kind values)
  | none => (false, harvest)

/-- The kind that a label of some kind asks for; one of any kind asks for nothing. -/
def kindOf? : LabelKind → Option SegmentKind
  | .any => none
  | .code => some .code
  | .data => some .data
  | .text => some .text

/-- Harvests the registers of a tuple that hold labels of code; `first` is the first register. -/
def harvestRegisters (graph : FlowGraph) (bound : Nat) (ref : InstructionRef) (first : Int32) :
    Nat → List TupleElement → Harvest → Bool × Harvest
  | _, [], harvest => (true, harvest)
  | step, element :: rest, harvest =>
    if element.type = .label .code then
      let found := graph.registerValue ref (first + .ofNat step)
      let (resolved, harvest) := harvest.requestValues bound .code found
      let (others, harvest) := harvestRegisters graph bound ref first (step + 1) rest harvest
      (resolved && others, harvest)
    else harvestRegisters graph bound ref first (step + 1) rest harvest

/-- Harvests the arguments of a parameter with `after` parameters after it; false if some may be
missing. -/
def harvestOperand (graph : FlowGraph) (bound : Nat) (ref : InstructionRef) (pops : Bool)
    (after : Nat) (operand : Param × List Arg) (harvest : Harvest) : Bool × Harvest :=
  let (param, args) := operand
  match param.item, param.variadic with
  | .scalar (.label kind), false =>
    match kindOf? kind with
    | none => (true, harvest)
    | some kind =>
      -- The last parameter is what was pushed last.
      if pops then harvest.requestValues bound kind (graph.stackValue ref after)
      else (true, harvest.requestAll kind (args.head?.bind Arg.int?).toList)
  | .scalar (.label .code), true => (true, harvest.requestAll .code (args.filterMap Arg.int?))
  | .tuple elements, false =>
    match pops, args.head?.bind Arg.int? with
    | false, some first => harvestRegisters graph bound ref first 0 elements harvest
    | _, _ => (true, harvest)
  | _, _ => (true, harvest)

/-- Harvests the arguments of some parameters. -/
def harvestOperands (graph : FlowGraph) (bound : Nat) (ref : InstructionRef) (pops : Bool) :
    List (Param × List Arg) → Harvest → Bool × Harvest
  | [], harvest => (true, harvest)
  | operand :: rest, harvest =>
    let (here, harvest) := harvestOperand graph bound ref pops rest.length operand harvest
    let (others, harvest) := harvestOperands graph bound ref pops rest harvest
    (here && others, harvest)

/-- Harvests the instructions of a segment from the one at `ref` on. -/
def harvestCode (graph : FlowGraph) (bound : Nat) :
    InstructionRef → List Instruction → Harvest → Bool × Harvest
  | _, [], harvest => (true, harvest)
  | ref, instruction :: rest, harvest =>
    let (here, harvest) :=
      harvestOperands graph bound ref instruction.opcode.pops instruction.operands harvest
    let (others, harvest) := harvestCode graph bound { ref with index := ref.index + 1 } rest harvest
    (here && others, harvest)

/-- Harvests the segments that are not in `analyzed`, of which the first has the given number; the
result begins with the offsets of those that are now resolved. -/
def harvestSegments (graph : FlowGraph) (bound : Nat) (analyzed : List Nat) :
    Nat → List (Nat × CodeSegment) → Harvest → List Nat × Harvest
  | _, [], harvest => ([], harvest)
  | number, (offset, segment) :: rest, harvest =>
    if analyzed.contains offset then
      harvestSegments graph bound analyzed (number + 1) rest harvest
    else
      let (resolved, harvest) := harvestCode graph bound ⟨number, 0⟩ segment.instructions harvest
      let (others, harvest) := harvestSegments graph bound analyzed (number + 1) rest harvest
      (if resolved then offset :: others else others, harvest)

end Harvest

namespace Discovery

/-- The code that has been discovered, by ascending offset. -/
def codeSegments (state : Discovery) : List (Nat × CodeSegment) :=
  state.segments.filterMap fun (offset, segment) =>
    match segment.content with
    | .code instructions => some (offset, ⟨segment.labels, instructions⟩)
    | _ => none

/-- The references in the code that is not resolved yet, and the discovery that knows what is now. -/
def harvest (state : Discovery) (bound : Nat) : Requests × Discovery :=
  let code := state.codeSegments
  let graph := FlowGraph.build (code.map (·.2))
  let (resolved, harvest) := Harvest.harvestSegments graph bound state.analyzed 0 code
    { journal := graph.buildJournal }
  (harvest.requests, { state with analyzed := resolved ++ state.analyzed }.log harvest.journal)

end Discovery

/-- Discovers what some requests ask for. -/
def discoverAll (source : Source) : Requests → Discovering Unit
  | [] => return
  | (label, kind) :: rest => do
    discover source label kind
    discoverAll source rest

/-- A pass of a discovery: what is requested is decoded, and what that refers to is requested next.
The result says also whether the pass decoded anything. -/
def discoveryPass (source : Source) (pass : Nat) (pending : Requests) :
    Discovering (Requests × Bool) := do
  let before := (← get).segments.length
  modify fun state => { state with redecoded := 0 }
  discoverAll source pending
  let (requests, state) := (← get).harvest source.options.cardinalityBound
  let entry := ⟨.debug, .discovery, s!"Discovery pass {pass}: {state.segments.length} segments, " ++
    s!"{state.analyzed.length} analyzed, {requests.length} pending labels"⟩
  set (state.log [entry])
  return (requests, before < state.segments.length || state.redecoded != 0)

/-- Passes of a discovery until one decodes nothing, or for as many as given; the result is how many
there were, when the first has the given number. -/
def discoveryPasses (source : Source) : Nat → Nat → Requests → Discovering Nat
  | 0, pass, _ => return pass - 1
  | passes + 1, pass, pending => do
    let (requests, progress) ← discoveryPass source pass pending
    if progress then discoveryPasses source passes (pass + 1) requests else return pass

/-- Discovers all that can be reached from some labels of code, and says how many passes it took.

A place is decoded at most as data, as a text, and as code, and every pass but the last decodes
something, so that there are enough passes. -/
def runDiscovery (source : Source) (entries : List Label) : Discovering Nat :=
  discoveryPasses source (3 * source.index.places.length + 2) 1
    ((LabelSet.ofList entries).map fun label => (label, .code))

end QuestScript
