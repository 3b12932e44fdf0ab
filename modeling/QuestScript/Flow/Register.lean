import QuestScript.Flow.Search

/-! The values that a register can have before an instruction. -/

namespace QuestScript

/-- How an instruction gives a register its value. -/
inductive RegisterEffect where
  /-- In a way that is not followed. -/
  | unknown
  /-- It is one of these. -/
  | constant (values : ValueSet)
  /-- It is that of another register. -/
  | copy (source : Int32)
  /-- It is one if it was zero, and zero otherwise. -/
  | flip
  | add (number : Int32)
  | subtract (number : Int32)
  | multiply (number : Int32)
  | divide (number : Int32)
  /-- It is at least the value of one register and less than that of the next one. -/
  | random (bounds : Int32)
  /-- It is an argument of a call. -/
  | callArgument
deriving DecidableEq, Repr

namespace Instruction

/-- Whether a tuple parameter is declared to change a register. -/
def declaresWrite (instruction : Instruction) (register : Int32) : Bool :=
  instruction.operands.any fun (param, args) =>
    match args.head?.bind Arg.int? with
    | none => false
    | some first => param.registers.zipIdx.any fun (element, step) =>
        element.access.writes && first.toInt + step == register.toInt

/-- Whether an instruction saves or restores a register with others. -/
def coversRegister (instruction : Instruction) (register : Int32) : Bool :=
  match instruction.intArg? 0, instruction.intArg? 1 with
  | some first, some count =>
    first.toInt ≤ register.toInt && register.toInt < first.toInt + count.toInt
  | _, _ => false

/-- The effect of a parameter's value, unknown if there is none. -/
def effectOf (instruction : Instruction) (index : Nat) (effect : Int32 → RegisterEffect) :
    RegisterEffect :=
  match instruction.intArg? index with
  | some value => effect value
  | none => .unknown

/-- What codes do to the register that the first parameter of their instruction names. -/
def targetEffects : List (UInt16 × (Instruction → RegisterEffect)) :=
  let given (effect : Int32 → RegisterEffect) (instruction : Instruction) :=
    instruction.effectOf 1 effect
  [ (Code.letr, given .copy),
    (Code.leti, given fun value => .constant (.of value)),
    (Code.letb, given fun value => .constant (.of value)),
    (Code.letw, given fun value => .constant (.of value)),
    (Code.syncLeti, given fun value => .constant (.of value)),
    (Code.set, fun _ => .constant (.of 1)),
    (Code.clear, fun _ => .constant (.of 0)),
    (Code.rev, fun _ => .flip),
    (Code.addi, given .add),
    (Code.subi, given .subtract),
    (Code.muli, given .multiply),
    (Code.divi, given .divide),
    (Code.ifZoneClear, fun _ => .constant (.interval 0 1)),
    (Code.getDifflvl, fun _ => .constant (.interval 0 2)),
    (Code.getSlotnumber, fun _ => .constant (.interval 0 3)) ]

/-- What an instruction does to the register that its first parameter names. -/
def targetEffect? (instruction : Instruction) : Option RegisterEffect :=
  (targetEffects.find? (·.1 == instruction.opcode.code)).map (·.2 instruction)

/-- What an instruction does to a register by the declarations of its parameters. -/
def declaredEffect? (instruction : Instruction) (register : Int32) : Option RegisterEffect :=
  if instruction.declaresWrite register then some .unknown else none

/-- What an instruction does to a register; none if it leaves it alone. -/
def effectOn? (instruction : Instruction) (register : Int32) : Option RegisterEffect :=
  let code := instruction.opcode.code
  -- Synchronising lets other players change any register.
  if code = Code.sync then some .unknown
  else if code = Code.vaCall then
    -- A call takes its arguments in the registers from one to seven.
    if 1 ≤ register.toInt ∧ register.toInt ≤ 7 then some .callArgument else none
  else if code = Code.stackPushm ∨ code = Code.stackPopm then
    if instruction.coversRegister register then some .unknown else none
  else if code = Code.getRandom then
    if instruction.intArg? 1 = some register then some (instruction.effectOf 0 .random)
    else instruction.declaredEffect? register
  else if instruction.intArg? 0 = some register then
    (instruction.targetEffect?).or (instruction.declaredEffect? register)
  else instruction.declaredEffect? register

end Instruction

/-- What a push puts onto the stack. -/
inductive Pushed where
  | value (value : Int32)
  | register (register : Int32)
  | unknown
deriving DecidableEq, Repr

/-- What a pushing instruction puts onto the stack. -/
def Instruction.pushed (instruction : Instruction) : Pushed :=
  let code := instruction.opcode.code
  match instruction.intArg? 0 with
  | none => .unknown
  | some value =>
    if code = Code.argPushr then .register value
    else if code ∈ [Code.argPushl, Code.argPushb, Code.argPushw] then .value value
    else .unknown

/-- Where an argument of a call comes from, and the instructions before the start of the call's
arguments; the instructions before the call are given in reverse.

An argument that was not pushed is zero. -/
def callArgument (before : List Instruction) (register : Int32) : Pushed × List Instruction :=
  let isStart (instruction : Instruction) := instruction.opcode.code == Code.vaStart
  match before.dropWhile fun instruction => !isStart instruction with
  | [] => (.value 0, [])
  | _ :: beforeStart =>
    let pushes := (before.takeWhile fun instruction => !isStart instruction).reverse.filter
      (·.opcode.pushes)
    match pushes[register.toInt.toNat - 1]? with
    | some push => (push.pushed, beforeStart)
    | none => (.value 0, beforeStart)

/-- One if the set has only zero, zero if it does not have it, and either otherwise. -/
def ValueSet.flipped (set : ValueSet) : ValueSet :=
  if set = .of 0 then .of 1
  else if set.contains 0 then .interval 0 1
  else .of 0

/-- The values from the least lower bound to below the greatest upper bound, which counts as one more
than the lower one at least. -/
def randomBetween (lower upper : ValueSet) : ValueSet :=
  let low := lower.min?.getD Int32.minValue
  let high := (upper.max?.getD Int32.maxValue).toInt
  let next := min (low.toInt + 1) 2147483647
  .interval low (.ofInt (max high next - 1))

/-- The values that the last effect on a register gives it among some instructions, given in reverse.

The values of registers before an instruction come from `find`, and those before all of them from
`onward`. A call whose argument has no value at all is passed over. -/
def lastValue (find : List Instruction → Int32 → Searching ValueSet) (onward : Searching ValueSet)
    (register : Int32) : List Instruction → Searching ValueSet
  | [] => onward
  | instruction :: before =>
    match instruction.effectOn? register with
    | none => lastValue find onward register before
    | some .unknown => pure .all
    | some (.constant values) => pure values
    | some (.copy source) => find before source
    | some .flip => return (← find before register).flipped
    | some (.add number) => return (← find before register).add number
    | some (.subtract number) => return (← find before register).sub number
    | some (.multiply number) => return (← find before register).mul number
    | some (.divide number) => return (← find before register).div number
    | some (.random bounds) => do
      let lower ← find before bounds
      let upper ← find before (bounds + 1)
      return randomBetween lower upper
    | some .callArgument =>
      match callArgument before register with
      | (.unknown, _) => pure .all
      | (.value value, _) => pure (.of value)
      | (.register source, beforeStart) => do
        let values ← find beforeStart source
        if values.isEmpty then lastValue find onward register before else return values

/-- The values of a register after the instructions of a block given in reverse, when control came
along `path` backwards. -/
def registerBefore (graph : FlowGraph) :
    Nat → List Nat → Nat → List Instruction → Int32 → Searching ValueSet
  -- Each level of the search visits a block, so that it gives up before it runs out of levels.
  | 0, _, _, _, _ => pure .all
  | levels + 1, path, block, instructions, register => do
    unless ← Search.visit .registers s!"register r{register.toInt}" do return .all
    unless 0 ≤ register.toInt ∧ register.toInt ≤ 255 do return .all
    let onward :=
      let path := block :: path
      Search.unionOver
        (fun number => registerBefore graph levels path number (graph.instructionsOf number) register)
        path (graph.predecessors block) .empty
    lastValue (registerBefore graph levels path block) onward register instructions

/-- The values of a register before the instruction at `stop` of a block. -/
def searchRegister (graph : FlowGraph) (block : Nat) (before : List Instruction) (register : Int32) :
    ValueSet × Journal :=
  let (values, search) := (registerBefore graph (maxVisits + 1) [] block before register).run {}
  (values, search.journal)

/-- The values that a register can have before an instruction, with what is logged. -/
def FlowGraph.registerValue (graph : FlowGraph) (ref : InstructionRef) (register : Int32) :
    ValueSet × Journal :=
  match graph.blockOf? ref with
  | none => (.all, strayJournal .registers ref)
  | some block => searchRegister graph block (graph.instructionsBefore block ref.index) register

end QuestScript
