import QuestScript.Flow.Register

/-! The values that can lie on the argument stack before an instruction. -/

namespace QuestScript

/-- What some instructions, given in reverse, leave at a position of the stack. -/
inductive StackSlot where
  /-- One that does not push came after it, and emptied the stack. -/
  | cleared
  /-- What this instruction pushed, after those that follow it here. -/
  | pushed (push : Instruction) (before : List Instruction)
  /-- What lies at another position before all of them. -/
  | deeper (position : Nat)
deriving DecidableEq, Repr

/-- What some instructions, given in reverse, leave at a position of the stack; what was pushed last
is at position zero. -/
def stackSlot : Nat → List Instruction → StackSlot
  | position, [] => .deeper position
  | position, instruction :: before =>
    if !instruction.opcode.pushes then .cleared
    else match position with
      | 0 => .pushed instruction before
      | position + 1 => stackSlot position before

/-- The values at a stack position after the instructions of a block given in reverse, when control
came along `path` backwards. -/
def stackBefore (graph : FlowGraph) :
    Nat → List Nat → Nat → List Instruction → Nat → Searching ValueSet
  | 0, _, _, _, _ => pure .all
  | levels + 1, path, block, instructions, position => do
    unless ← Search.visit .stack s!"stack position {position}" do return .all
    match stackSlot position instructions with
    | .cleared => return .all
    | .pushed push before =>
      match push.pushed with
      | .unknown => return .all
      | .value value => return .of value
      | .register register =>
        let (values, journal) := searchRegister graph block before register
        modify fun search => { search with journal := search.journal ++ journal }
        return values
    | .deeper position =>
      let path := block :: path
      Search.unionOver
        (fun number => stackBefore graph levels path number (graph.instructionsOf number) position)
        path (graph.predecessors block) .empty

/-- The values that can lie at a stack position before an instruction, with what is logged. -/
def FlowGraph.stackValue (graph : FlowGraph) (ref : InstructionRef) (position : Nat) :
    ValueSet × Journal :=
  match graph.blockOf? ref with
  | none => (.all, strayJournal .stack ref)
  | some block =>
    let before := graph.instructionsBefore block ref.index
    let (values, search) := (stackBefore graph (maxVisits + 1) [] block before position).run {}
    (values, search.journal)

end QuestScript
