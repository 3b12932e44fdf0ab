import QuestScript.Instruction.Decode
import QuestScript.Opcode.Standard
import QuestScript.Options
import QuestScript.Report

/-! Telling code from data where no label reference does.

A range is code if it decodes within its bounds, and the instructions look like those of an author. -/

namespace QuestScript

/-- Why a range is not code. -/
inductive Rejection where
  | decode (cause : DecodeError)
  /-- The instructions would not be written in as many bytes. -/
  | sizeMismatch (expected actual : Nat)
  | tooManyNops (limit : Nat)
  | tooManySequentialNops (limit : Nat)
  | unknownLabels (ratio : Double)
  | popWithoutPush (ratio : Double)
  | unknownOpcodes (ratio : Double)
deriving DecidableEq, Repr

/-- A ratio as a percentage. -/
def percentText (ratio : Double) : String := ratio.percent.oneDecimal ++ "%"

/-- What a rejection says about a range. -/
def Rejection.message : Rejection → String
  | decode cause => "parsing it failed: " ++ cause.message
  | sizeMismatch expected actual =>
    s!"its {actual} bytes of instructions don't fill the {expected} bytes of the range"
  | tooManyNops limit => s!"it has more than {limit} nop instructions"
  | tooManySequentialNops limit => s!"it has more than {limit} sequential nop instructions"
  | unknownLabels ratio =>
    percentText ratio ++ " of its label references are to nonexistent labels"
  | popWithoutPush ratio =>
    percentText ratio ++ " of its stack pop instructions don't have a preceding push instruction"
  | unknownOpcodes ratio => percentText ratio ++ " of its opcodes are unknown"

/-- Whether an instruction does nothing. -/
def Instruction.isNop (instruction : Instruction) : Bool := instruction.opcode.code == Code.nop

/-- The arguments that are labels. -/
def Instruction.labelArgs (instruction : Instruction) : List Arg :=
  (instruction.operands.filter (·.1.isLabel)).flatMap (·.2)

/-- The label that a value is, unless it is negative. -/
def labelOf? (value : Int32) : Option Label :=
  if 0 ≤ value.toInt then some value.toInt.toNat else none

/-- Whether an argument is a label that has a place. -/
def Arg.isKnownLabel (index : LabelIndex) (arg : Arg) : Bool :=
  (arg.int?.bind labelOf?).any index.contains

/-- A part of a whole; nothing of nothing is none of it. -/
def partOf (count total : Nat) : Double :=
  if total = 0 then .ofRatio 0 1 else .ofRatio count total

/-- What was counted in the instructions so far. -/
structure Tally where
  /-- What the last of them did to the stack. -/
  previous : Option StackEffect := none
  nops : Nat := 0
  /-- `nop` instructions since the last other one. -/
  nopRun : Nat := 0
  unknownOpcodes : Nat := 0
  pops : Nat := 0
  /-- Popping instructions that did not follow a push. -/
  popsWithoutPush : Nat := 0
  labels : Nat := 0
  /-- Label arguments that have no place. -/
  unknownLabels : Nat := 0
deriving DecidableEq, Repr

namespace Tally

/-- The tally with the `nop` instructions counted, unless there are more than a limit allows. -/
def countNop (thresholds : Thresholds) (tally : Tally) (instruction : Instruction) :
    Except Rejection Tally :=
  if instruction.isNop then
    if thresholds.maxTotalNops < tally.nops + 1 then .error (.tooManyNops thresholds.maxTotalNops)
    else if thresholds.maxSequentialNops < tally.nopRun + 1 then
      .error (.tooManySequentialNops thresholds.maxSequentialNops)
    else .ok { tally with nops := tally.nops + 1, nopRun := tally.nopRun + 1 }
  else .ok { tally with nopRun := 0 }

/-- The tally with all else counted that ratios are made of. -/
def countParts (index : LabelIndex) (tally : Tally) (instruction : Instruction) : Tally :=
  let opcode := instruction.opcode
  let labels := instruction.labelArgs
  { tally with
    previous := some opcode.stack
    unknownOpcodes := tally.unknownOpcodes + if opcode.known then 0 else 1
    pops := tally.pops + if opcode.pops then 1 else 0
    popsWithoutPush := tally.popsWithoutPush +
      if opcode.pops && tally.previous != some .push then 1 else 0
    labels := tally.labels + labels.length
    unknownLabels := tally.unknownLabels + labels.countP fun arg => !arg.isKnownLabel index }

/-- The tally with one more instruction. -/
def count (index : LabelIndex) (thresholds : Thresholds) (tally : Tally)
    (instruction : Instruction) : Except Rejection Tally := do
  return (← tally.countNop thresholds instruction).countParts index instruction

/-- The first ratio of a tally of `total` instructions that is beyond its limit. -/
def rejection? (thresholds : Thresholds) (total : Nat) (tally : Tally) : Option Rejection :=
  let labels := partOf tally.unknownLabels tally.labels
  let pops := partOf tally.popsWithoutPush tally.pops
  let opcodes := partOf tally.unknownOpcodes total
  if thresholds.maxUnknownLabelRatio.lt labels then some (.unknownLabels labels)
  else if thresholds.maxPopWithoutPushRatio.lt pops then some (.popWithoutPush pops)
  else if thresholds.maxUnknownOpcodeRatio.lt opcodes then some (.unknownOpcodes opcodes)
  else none

end Tally

/-- Why instructions do not look like code; none if they do. -/
def heuristicRejection? (index : LabelIndex) (thresholds : Thresholds)
    (instructions : List Instruction) : Option Rejection :=
  match instructions.foldlM (Tally.count index thresholds) {} with
  | .error rejection => some rejection
  | .ok tally => tally.rejection? thresholds instructions.length

/-- The instructions of a range, if it is code. -/
def classify (bytes : List UInt8) (start stop : Nat) (index : LabelIndex) (table : OpcodeTable)
    (width : CharWidth) (thresholds : Thresholds) : Except Rejection (List Instruction) :=
  match decodeRange bytes start stop table width with
  | .error cause => .error (.decode cause)
  | .ok instructions =>
    let expected := min stop bytes.length - start
    let actual := (instructions.map (·.size width)).foldr (· + ·) 0
    if actual ≠ expected then .error (.sizeMismatch expected actual)
    else match heuristicRejection? index thresholds instructions with
      | some rejection => .error rejection
      | none => .ok instructions

/-- The labels of a range in words. -/
def describedLabels : List Label → String
  | [] => "without label"
  | [label] => s!"with label {label}"
  | labels => "with labels " ++ ", ".intercalate (labels.map toString)

/-- What is logged when a range with the given labels is classified. -/
def classifyJournal (start : Nat) (labels : List Label) :
    Except Rejection (List Instruction) → Journal
  | .ok _ => []
  | .error rejection =>
    [⟨.trace, .classification,
      s!"Determined that segment {describedLabels labels} at offset {start} is not an " ++
        s!"instructions segment because {rejection.message}."⟩]

end QuestScript
