import QuestScript.Label
import QuestScript.Opcode.Standard
import QuestScript.Instruction

/-! Basic blocks: runs of instructions that are entered at the start and left at the end. -/

namespace QuestScript

/-- How control leaves a block. -/
inductive BranchKind where
  /-- It goes on with the next block. -/
  | fallthrough
  | ret
  | jump
  /-- It jumps or goes on with the next block. -/
  | conditional
  | call
deriving DecidableEq, Repr

/-- The word for a way to leave a block. -/
def BranchKind.name : BranchKind → String
  | fallthrough => "none"
  | ret => "return"
  | jump => "jump"
  | conditional => "conditional_jump"
  | call => "call"

/-- How an instruction that ends a block leaves it, and the labels it goes to. -/
structure Branch where
  kind : BranchKind
  targets : List Int32
deriving DecidableEq, Repr

/-- The branch that an instruction is, if it is one. -/
def Instruction.branch? (instruction : Instruction) : Option Branch :=
  let code := instruction.opcode.code
  let only (index : Nat) := (instruction.args[index]?.bind Arg.int?).toList
  let others := (instruction.args.drop 1).filterMap Arg.int?
  if code = Code.ret then some ⟨.ret, []⟩
  else if code = Code.jmp then some ⟨.jump, only 0⟩
  else if code = Code.jmpOn ∨ code = Code.jmpOff then some ⟨.conditional, only 0⟩
  else if Code.isComparingJump code then some ⟨.conditional, only 2⟩
  else if code = Code.switchJmp then some ⟨.conditional, others⟩
  else if code = Code.call ∨ code = Code.vaCall then some ⟨.call, only 0⟩
  else if code = Code.switchCall then some ⟨.call, others⟩
  else none

/-- Instructions with the labels that point at the first of them. -/
structure CodeSegment where
  labels : LabelSet
  instructions : List Instruction
deriving DecidableEq, Repr

/-- The place of an instruction: its segment, and its index there. -/
structure InstructionRef where
  segment : Nat
  index : Nat
deriving DecidableEq, Repr

/-- The instructions of a segment from `start` to before `stop`, and where control goes next. -/
structure Block where
  segment : Nat
  start : Nat
  stop : Nat
  branch : Branch
deriving DecidableEq, Repr

namespace Block

/-- Whether an instruction is in a block. -/
def contains (block : Block) (ref : InstructionRef) : Bool :=
  ref.segment == block.segment && block.start ≤ ref.index && ref.index < block.stop

/-- Instructions in a block. -/
def length (block : Block) : Nat := block.stop - block.start

end Block

/-- The blocks of the instructions from `index` on, the first of which began at `start`. -/
def blocksFrom (segment start index : Nat) : List Instruction → List Block
  | [] => []
  | instruction :: rest =>
    match instruction.branch? with
    | some branch =>
      ⟨segment, start, index + 1, branch⟩ :: blocksFrom segment (index + 1) (index + 1) rest
    | none =>
      if rest.isEmpty then [⟨segment, start, index + 1, ⟨.fallthrough, []⟩⟩]
      else blocksFrom segment start (index + 1) rest

/-- The blocks of the segments from the given number on. -/
def blocksOf : Nat → List CodeSegment → List Block
  | _, [] => []
  | number, segment :: rest => blocksFrom number 0 0 segment.instructions ++ blocksOf (number + 1) rest

/-- The number of its block for each instruction of a segment from `filled` on, when the blocks are
numbered from `number` on.

A block has all instructions up to its end that are in none before it. -/
def ownersFrom (number filled : Nat) : List Block → List Nat
  | [] => []
  | block :: rest =>
    List.replicate (block.stop - filled) number ++ ownersFrom (number + 1) block.stop rest

/-- The numbers of the blocks that the instructions of each segment are in, when `number` is that of
the first block. -/
def ownersOf : Nat → List CodeSegment → List (List Nat)
  | _, [] => []
  | number, segment :: rest =>
    let blocks := blocksFrom 0 0 0 segment.instructions
    ownersFrom number 0 blocks :: ownersOf (number + blocks.length) rest

end QuestScript
