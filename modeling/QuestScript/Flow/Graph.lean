import QuestScript.Flow.Block
import QuestScript.Report

/-! Control flow between basic blocks. -/

namespace QuestScript

/-- An edge of a flow graph, between the numbers of two blocks. -/
abbrev Edge := Nat × Nat

/-- For each block the blocks that control goes to from it, and those that it comes from, in the
order in which they are linked. -/
structure Links where
  outgoing : List (List Nat)
  incoming : List (List Nat)
deriving Repr

namespace Links

/-- No links between so many blocks. -/
def none (count : Nat) : Links := ⟨.replicate count [], .replicate count []⟩

/-- The blocks that control goes to from a block. -/
def successors (links : Links) (number : Nat) : List Nat := links.outgoing[number]?.getD []

/-- The blocks that control comes from to a block. -/
def predecessors (links : Links) (number : Nat) : List Nat := links.incoming[number]?.getD []

/-- Links a block to another one, unless it is already. -/
def link (links : Links) (edge : Edge) : Links :=
  if edge.2 ∈ links.successors edge.1 then links
  else
    { outgoing := links.outgoing.modify edge.1 (· ++ [edge.2])
      incoming := links.incoming.modify edge.2 (· ++ [edge.1]) }

end Links

/-- Blocks of code with the edges along which control can go. -/
structure FlowGraph where
  segments : List CodeSegment
  blocks : List Block
  /-- For each segment the numbers of the blocks that its instructions are in. -/
  owners : List (List Nat)
  links : Links
deriving Repr

/-- The first block for each label, when `block` is the number of the first block; labels of later
segments come first.

A label is compared with branch targets as a 32-bit word. -/
def entriesFrom : Nat → List CodeSegment → List (Int32 × Nat)
  | _, [] => []
  | block, segment :: rest =>
    let count := (blocksFrom 0 0 0 segment.instructions).length
    let here := segment.labels.map fun label => (Int32.ofNat label, block)
    entriesFrom (block + count) rest ++ (if segment.instructions.isEmpty then [] else here)

/-- The first block of the last segment that has a label. -/
def blockFor? (entries : List (Int32 × Nat)) (target : Int32) : Option Nat :=
  (entries.find? (·.1 == target)).map (·.2)

/-- Where control goes from a block by itself, that is not by returning: to the next block, if there
is one and the branch does not rule it out, and to the branch's targets. -/
def directSuccessors (entries : List (Int32 × Nat)) (count number : Nat) (block : Block) :
    List Nat :=
  let next := if number + 1 < count then [number + 1] else []
  let targets := block.branch.targets.filterMap (blockFor? entries)
  match block.branch.kind with
  | .ret => []
  | .jump | .call => targets
  | .fallthrough | .conditional => next ++ targets

/-- The edges along which control goes by itself. -/
def directEdges (entries : List (Int32 × Nat)) (blocks : List Block) : List Edge :=
  blocks.zipIdx.flatMap fun (block, number) =>
    (directSuccessors entries blocks.length number block).map fun next => (number, next)

/-- Links every block to where control goes from it by itself. -/
def linkDirect (entries : List (Int32 × Nat)) (blocks : List Block) : Links :=
  (directEdges entries blocks).foldl Links.link (.none blocks.length)

/-- Whether a block returns. -/
def returnsAt (blocks : List Block) (number : Nat) : Bool :=
  blocks[number]?.any (·.branch.kind == .ret)

/-- Links the returns that a search from the blocks in `stack` comes upon to the block `site`.

The search goes on from the block reached last, and `unseen` has the blocks it may still enter. -/
def linkReturns (blocks : List Block) (site : Nat) (links : Links) (unseen stack : List Nat) :
    Links :=
  match stack with
  | [] => links
  | number :: rest =>
    if number ∈ unseen then
      let returns := (links.successors number).filter (returnsAt blocks)
      let others := (links.successors number).filter fun next => !returnsAt blocks next
      linkReturns blocks site ((returns.map fun ret => (ret, site)).foldl Links.link links)
        (unseen.erase number) (others.reverse ++ rest)
    else linkReturns blocks site links unseen rest
termination_by (unseen.length, stack.length)
decreasing_by
  · -- A block that is entered is not entered again.
    have shorter := List.length_erase_of_mem ‹number ∈ unseen›
    have := List.length_pos_of_mem ‹number ∈ unseen›
    exact Prod.Lex.left _ _ (by omega)
  · exact Prod.Lex.right _ (Nat.lt_succ_self _)

/-- Links the returns that end a call of a block to the block `site`. -/
def linkCallee (blocks : List Block) (site : Nat) (links : Links) (callee : Nat) : Links :=
  if returnsAt blocks callee then links.link (callee, site)
  else linkReturns blocks site links (List.range blocks.length) [callee]

/-- Links the returns that end the calls that a block makes to the block after it, if it makes any
and there is one. -/
def linkCaller (entries : List (Int32 × Nat)) (blocks : List Block) (links : Links)
    (caller : Nat) : Links :=
  match blocks[caller]? with
  | none => links
  | some block =>
    if block.branch.kind = .call ∧ caller + 1 < blocks.length then
      (block.branch.targets.filterMap (blockFor? entries)).foldl
        (linkCallee blocks (caller + 1)) links
    else links

namespace FlowGraph

/-- The flow graph of segments in the order of their offsets. -/
def build (segments : List CodeSegment) : FlowGraph :=
  let blocks := blocksOf 0 segments
  let entries := entriesFrom 0 segments
  -- The callers come last, as the searches for returns go along the other edges.
  let links := (List.range blocks.length).foldl (linkCaller entries blocks)
    (linkDirect entries blocks)
  { segments, blocks, owners := ownersOf 0 segments, links }

/-- What is logged when a graph is built. -/
def buildJournal (graph : FlowGraph) : Journal :=
  [⟨.trace, .flow,
    s!"Built CFG with {graph.blocks.length} blocks over {graph.segments.length} segments"⟩]

/-- The blocks that control goes to from a block. -/
def successors (graph : FlowGraph) (number : Nat) : List Nat := graph.links.successors number

/-- The blocks that control comes from to a block. -/
def predecessors (graph : FlowGraph) (number : Nat) : List Nat := graph.links.predecessors number

/-- The number of the block that has an instruction. -/
def blockOf? (graph : FlowGraph) (ref : InstructionRef) : Option Nat :=
  graph.owners[ref.segment]?.bind fun numbers => numbers[ref.index]?

/-- The instruction at a place. -/
def instruction? (graph : FlowGraph) (ref : InstructionRef) : Option Instruction :=
  graph.segments[ref.segment]?.bind fun segment => segment.instructions[ref.index]?

/-- The instructions of a block before `stop`, the last one first. -/
def instructionsBefore (graph : FlowGraph) (number stop : Nat) : List Instruction :=
  match graph.blocks[number]? with
  | none => []
  | some block =>
    match graph.segments[block.segment]? with
    | none => []
    | some segment => ((segment.instructions.take stop).drop block.start).reverse

/-- The instructions of a block, the last one first. -/
def instructionsOf (graph : FlowGraph) (number : Nat) : List Instruction :=
  match graph.blocks[number]? with
  | none => []
  | some block => graph.instructionsBefore number block.stop

end FlowGraph

end QuestScript
