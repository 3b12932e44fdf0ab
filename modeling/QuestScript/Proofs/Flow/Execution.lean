import QuestScript.Proofs.ValueSet.Arithmetic

/-! What instructions do to the registers when control goes along a flow graph. -/

namespace QuestScript

/-- The contents of the registers. -/
abbrev Registers := Fin 256 → Int32

namespace Registers

/-- The registers with another value in one of them. -/
def set (registers : Registers) (target : Fin 256) (value : Int32) : Registers :=
  fun register => if register = target then value else registers register

variable {registers : Registers} {target register : Fin 256} {value : Int32}

/-- A register has the value that was put into it. -/
@[simp] theorem set_self : registers.set target value target = value := if_pos rfl

/-- The other registers keep theirs. -/
theorem set_of_ne (other : register ≠ target) :
    registers.set target value register = registers register := if_neg other

end Registers

/-- The number by which instructions refer to a register. -/
def registerNumber (register : Fin 256) : Int32 := .ofNat register.val

/-- The number of a register is its place among the registers. -/
@[simp] theorem toInt_registerNumber (register : Fin 256) :
    (registerNumber register).toInt = register.val := by
  -- All numbers of registers are far from the greatest word.
  have bound := register.isLt
  exact Int32.toInt_ofNat_of_lt (by omega)

/-- Registers with one number are the same. -/
@[simp] theorem registerNumber_inj {register other : Fin 256} :
    registerNumber register = registerNumber other ↔ register = other := by
  rw [← Int32.toInt_inj, toInt_registerNumber, toInt_registerNumber, Int.ofNat_inj, Fin.val_inj]

/-- The next register has the next number. -/
theorem registerNumber_next {register next : Fin 256} (behind : next.val = register.val + 1) :
    registerNumber register + 1 = registerNumber next := by
  rw [registerNumber, registerNumber, behind, Int32.ofNat_add]
  rfl

/-- Codes that do something of their own to registers; of calls with arguments and of products
nothing is said here. -/
def Code.operating : List UInt16 :=
  [sync, vaCall, letr, leti, letb, letw, set, clear, rev, addi, subi, muli, divi, stackPushm,
    stackPopm, ifZoneClear, getDifflvl, syncLeti, getSlotnumber, getRandom]

/-- The codes among them that do something else than change the register of their first
parameter. -/
def Code.farOperating : List UInt16 := [sync, vaCall, stackPushm, stackPopm, getRandom]

/-- The codes that store one of a few values, with the greatest of them. -/
def Code.drawing : List (UInt16 × Int32) :=
  [(ifZoneClear, 1), (getDifflvl, 2), (getSlotnumber, 3)]

namespace Instruction

variable {instruction : Instruction}

/-- A parameter refers to a register. -/
def Targets (instruction : Instruction) (index : Nat) (register : Fin 256) : Prop :=
  instruction.intArg? index = some (registerNumber register)

/-- One of the registers of a tuple parameter is declared to change, and this is the one. -/
def Writes (instruction : Instruction) (register : Fin 256) : Prop :=
  ∃ operand ∈ instruction.operands, ∃ (first : Int32) (step : Nat) (element : TupleElement),
    operand.2.head?.bind Arg.int? = some first ∧ operand.1.registers[step]? = some element ∧
      element.access.writes = true ∧ first.toInt + step = register.val

/-- A register is one of those that an instruction saves or restores together. -/
def Spans (instruction : Instruction) (register : Fin 256) : Prop :=
  ∃ first count, instruction.intArg? 0 = some first ∧ instruction.intArg? 1 = some count ∧
    first.toInt ≤ register.val ∧ register.val < first.toInt + count.toInt

/-- What an instruction can make of the registers. -/
inductive Executes (instruction : Instruction) (before : Registers) : Registers → Prop where
  /-- Other players may change any register. -/
  | sync {after : Registers} (code : instruction.opcode.code = Code.sync) :
    Executes instruction before after
  /-- A register gets the value of another. -/
  | copy {target source : Fin 256} (code : instruction.opcode.code = Code.letr)
    (into : instruction.Targets 0 target) (out : instruction.Targets 1 source) :
    Executes instruction before (before.set target (before source))
  /-- A register gets a value that is given. -/
  | store {target : Fin 256} {value : Int32}
    (code : instruction.opcode.code ∈ [Code.leti, Code.letb, Code.letw, Code.syncLeti])
    (into : instruction.Targets 0 target) (given : instruction.intArg? 1 = some value) :
    Executes instruction before (before.set target value)
  | setOne {target : Fin 256} (code : instruction.opcode.code = Code.set)
    (into : instruction.Targets 0 target) : Executes instruction before (before.set target 1)
  | clear {target : Fin 256} (code : instruction.opcode.code = Code.clear)
    (into : instruction.Targets 0 target) : Executes instruction before (before.set target 0)
  /-- Zero becomes one, and everything else zero. -/
  | flip {target : Fin 256} (code : instruction.opcode.code = Code.rev)
    (into : instruction.Targets 0 target) :
    Executes instruction before (before.set target (if before target = 0 then 1 else 0))
  /-- A number is added, modulo 2^32. -/
  | add {target : Fin 256} {number : Int32} (code : instruction.opcode.code = Code.addi)
    (into : instruction.Targets 0 target) (given : instruction.intArg? 1 = some number) :
    Executes instruction before (before.set target (before target + number))
  /-- A number is subtracted, modulo 2^32. -/
  | subtract {target : Fin 256} {number : Int32} (code : instruction.opcode.code = Code.subi)
    (into : instruction.Targets 0 target) (given : instruction.intArg? 1 = some number) :
    Executes instruction before (before.set target (before target - number))
  /-- A register gets its quotient without the fraction, or the nearest 32-bit value; by zero, it
  gets anything. -/
  | divide {target : Fin 256} {number value : Int32} (code : instruction.opcode.code = Code.divi)
    (into : instruction.Targets 0 target) (given : instruction.intArg? 1 = some number)
    (quotient : number ≠ 0 → value.toInt =
      max (-2147483648) (min ((before target).toInt.tdiv number.toInt) 2147483647)) :
    Executes instruction before (before.set target value)
  /-- A register gets one of a few values. -/
  | draw {target : Fin 256} {greatest value : Int32}
    (code : (instruction.opcode.code, greatest) ∈ Code.drawing)
    (into : instruction.Targets 0 target) (above : 0 ≤ value.toInt)
    (below : value.toInt ≤ greatest.toInt) : Executes instruction before (before.set target value)
  /-- A register gets a value that is not below one register, but below the next. -/
  | random {low high target : Fin 256} {value : Int32}
    (code : instruction.opcode.code = Code.getRandom) (bounds : instruction.Targets 0 low)
    (next : high.val = low.val + 1) (into : instruction.Targets 1 target)
    (above : (before low).toInt ≤ value.toInt) (below : value.toInt < (before high).toInt) :
    Executes instruction before (before.set target value)
  /-- Registers are saved or restored, and all the others stay as they are. -/
  | span {after : Registers} (code : instruction.opcode.code ∈ [Code.stackPushm, Code.stackPopm])
    (kept : ∀ register, ¬instruction.Spans register → after register = before register) :
    Executes instruction before after
  /-- Any other instruction may change the registers that it declares to write, and no others. -/
  | declared {after : Registers} (code : instruction.opcode.code ∉ Code.operating)
    (kept : ∀ register, ¬instruction.Writes register → after register = before register) :
    Executes instruction before after

end Instruction

/-- A value that a register can have after an effect on it, by the registers before. -/
def RegisterEffect.Gives (before : Registers) (register : Fin 256) (value : Int32) :
    RegisterEffect → Prop
  | .unknown => True
  | .constant values => values.Canonical ∧ values.contains value = true
  | .copy source => ∃ other, source = registerNumber other ∧ value = before other
  | .flip => value = if before register = 0 then 1 else 0
  | .add number => value = before register + number
  | .subtract number => value = before register - number
  | .divide number => number ≠ 0 → value = ValueSet.quotient (before register) number
  | .random bounds => ∃ low high : Fin 256, bounds = registerNumber low ∧ high.val = low.val + 1 ∧
      (before low).toInt ≤ value.toInt ∧ value.toInt < (before high).toInt
  -- Products and arguments of calls are given by no execution.
  | .multiply _ | .callArgument => False

namespace Instruction

variable {instruction : Instruction} {before after : Registers} {register : Fin 256}

/-- A register is declared to change if a tuple parameter says so. -/
theorem declaresWrite_iff :
    instruction.declaresWrite (registerNumber register) = true ↔ instruction.Writes register := by
  simp only [declaresWrite, List.any_eq_true, Writes]
  refine exists_congr fun operand => and_congr_right fun _ => ?_
  -- Without a first register the tuple says nothing.
  split
  · rename_i absent
    simp [absent]
  · rename_i first given
    simp only [given, List.any_eq_true, List.mem_zipIdx_iff_getElem?, Prod.exists,
      Bool.and_eq_true, beq_iff_eq, toInt_registerNumber, Option.some.injEq, exists_and_left,
      exists_eq_left']
    rw [exists_comm]

/-- A register is among those that are saved or restored if its number is. -/
theorem coversRegister_iff :
    instruction.coversRegister (registerNumber register) = true ↔ instruction.Spans register := by
  -- Both the first register and their number have to be given.
  unfold coversRegister Spans
  split
  · rename_i first count start length
    simp [start, length]
  · rename_i absent
    simp only [Bool.false_eq_true, false_iff]
    rintro ⟨first, count, start, length, -⟩
    exact absent first count start length

/-- What holds of a register after an instruction that has an effect on it, or none. -/
def Explains (before : Registers) (register : Fin 256) (value : Int32) :
    Option RegisterEffect → Prop
  | none => value = before register
  | some effect => effect.Gives before register value

/-- A register that is only declared to change may have any value, and another one has its own. -/
theorem explains_declared (kept : ¬instruction.Writes register → after register = before register) :
    Explains before register (after register)
      (instruction.declaredEffect? (registerNumber register)) := by
  -- A tuple that names the register leaves any value, and otherwise it is kept.
  unfold declaredEffect?
  split
  · exact trivial
  · rename_i untouched
    exact kept fun writes => untouched (declaresWrite_iff.mpr writes)

/-- Most codes do something to the register of their first parameter, or what they declare. -/
theorem effectOn?_of_code {number : Int32}
    (code : instruction.opcode.code ∉ Code.farOperating) :
    instruction.effectOn? number =
      if instruction.intArg? 0 = some number then
        (instruction.targetEffect?).or (instruction.declaredEffect? number)
      else instruction.declaredEffect? number := by
  -- None of the codes with a meaning beyond the first parameter is left.
  simp only [Code.farOperating, List.mem_cons, List.not_mem_nil, or_false, not_or] at code
  simp only [effectOn?, code, or_self, if_false]

/-- What is done to the register of the first parameter stands in the table. -/
theorem mem_targetEffects {effect : RegisterEffect}
    (does : instruction.targetEffect? = some effect) :
    ∃ target ∈ targetEffects, target.1 = instruction.opcode.code ∧
      target.2 instruction = effect := by
  obtain ⟨target, found, same⟩ := Option.map_eq_some_iff.mp does
  exact ⟨target, List.mem_of_find?_eq_some found, by simpa using List.find?_some found, same⟩

/-- So the code is one of the table. -/
theorem code_mem_targetEffects {effect : RegisterEffect}
    (does : instruction.targetEffect? = some effect) :
    instruction.opcode.code ∈ targetEffects.map (·.1) := by
  obtain ⟨target, listed, same, -⟩ := mem_targetEffects does
  exact same ▸ List.mem_map_of_mem listed

/-- Codes without a meaning of their own do what they declare, and nothing else. -/
theorem effectOn?_of_not_operating {number : Int32}
    (code : instruction.opcode.code ∉ Code.operating) :
    instruction.effectOn? number = instruction.declaredEffect? number := by
  -- Neither group of codes with a meaning of their own has this one.
  have other : instruction.opcode.code ∉ Code.farOperating := by
    have inside : ∀ code ∈ Code.farOperating, code ∈ Code.operating := by
      simp [Code.farOperating, Code.operating]
    exact fun far => code (inside _ far)
  have nothing : instruction.targetEffect? = none := by
    rw [Option.eq_none_iff_forall_ne_some]
    intro effect does
    have inside : ∀ code ∈ targetEffects.map (·.1), code ∈ Code.operating := by
      simp [targetEffects, Code.operating]
    exact code (inside _ (code_mem_targetEffects does))
  rw [effectOn?_of_code other, nothing, Option.none_or, ite_self]

/-- An instruction of a code of the table does what this says, or what it declares. -/
theorem effectOn?_of_target {effect : RegisterEffect} {number : Int32}
    (does : instruction.targetEffect? = some effect) :
    instruction.effectOn? number =
      if instruction.intArg? 0 = some number then
        (instruction.targetEffect?).or (instruction.declaredEffect? number)
      else instruction.declaredEffect? number := by
  -- The codes of the table have a meaning for the first parameter only.
  have near : ∀ code ∈ targetEffects.map (·.1), code ∉ Code.farOperating := by
    simp [targetEffects, Code.farOperating]
  exact effectOn?_of_code (near _ (code_mem_targetEffects does))

/-- An instruction that changes the register of its first parameter explains its value there. -/
theorem explains_target {target : Fin 256} {value : Int32} {effect : RegisterEffect}
    (into : instruction.Targets 0 target) (does : instruction.targetEffect? = some effect)
    (gives : effect.Gives before target value) (register : Fin 256) :
    Explains before register (before.set target value register)
      (instruction.effectOn? (registerNumber register)) := by
  rw [effectOn?_of_target does, into, does]
  by_cases same : register = target
  · subst same
    rw [if_pos rfl, Option.some_or, Registers.set_self]
    exact gives
  · -- All other registers are left alone, whatever is declared about them.
    have apart : some (registerNumber target) ≠ some (registerNumber register) := by
      simpa using Ne.symm same
    rw [if_neg apart]
    exact explains_declared fun _ => Registers.set_of_ne same

/-- An instruction does to every register what its effect on that register says. -/
theorem Executes.explains (executes : instruction.Executes before after) (register : Fin 256) :
    Explains before register (after register)
      (instruction.effectOn? (registerNumber register)) := by
  -- The code of an execution says which effect there is, and the execution gives what that says.
  cases executes with
  | sync code =>
    have effect : instruction.effectOn? (registerNumber register) = some .unknown := by
      simp [effectOn?, code]
    rw [effect]
    exact trivial
  -- The codes of the table have their effect on the register of the first parameter.
  | @copy target source code into out =>
    have does : instruction.targetEffect? = some (.copy (registerNumber source)) := by
      simp [targetEffect?, targetEffects, code, effectOf, show instruction.intArg? 1 = _ from out]
    exact explains_target into does ⟨source, rfl, rfl⟩ register
  | @store target value code into given =>
    have does : instruction.targetEffect? = some (.constant (.of value)) := by
      simp only [List.mem_cons, List.not_mem_nil, or_false] at code
      rcases code with code | code | code | code <;>
        simp [targetEffect?, targetEffects, code, effectOf, given]
    exact explains_target into does ⟨ValueSet.canonical_of value, by simp⟩ register
  | setOne code into =>
    have does : instruction.targetEffect? = some (.constant (.of 1)) := by
      simp [targetEffect?, targetEffects, code]
    exact explains_target into does ⟨ValueSet.canonical_of 1, by simp⟩ register
  | clear code into =>
    have does : instruction.targetEffect? = some (.constant (.of 0)) := by
      simp [targetEffect?, targetEffects, code]
    exact explains_target into does ⟨ValueSet.canonical_of 0, by simp⟩ register
  | flip code into =>
    have does : instruction.targetEffect? = some .flip := by
      simp [targetEffect?, targetEffects, code]
    exact explains_target into does rfl register
  | @add target number code into given =>
    have does : instruction.targetEffect? = some (.add number) := by
      simp [targetEffect?, targetEffects, code, effectOf, given]
    exact explains_target into does rfl register
  | @subtract target number code into given =>
    have does : instruction.targetEffect? = some (.subtract number) := by
      simp [targetEffect?, targetEffects, code, effectOf, given]
    exact explains_target into does rfl register
  | @divide target number value code into given quotient =>
    have does : instruction.targetEffect? = some (.divide number) := by
      simp [targetEffect?, targetEffects, code, effectOf, given]
    refine explains_target into does ?_ register
    intro nonzero
    rw [← Int32.toInt_inj, ValueSet.toInt_quotient]
    exact quotient nonzero
  | @draw target greatest value code into above below =>
    simp only [Code.drawing, List.mem_cons, Prod.mk.injEq, List.not_mem_nil, or_false] at code
    have does : instruction.targetEffect? = some (.constant (.interval 0 greatest)) := by
      rcases code with ⟨code, rfl⟩ | ⟨code, rfl⟩ | ⟨code, rfl⟩ <;>
        simp [targetEffect?, targetEffects, code]
    have zero : (0 : Int32).toInt = 0 := rfl
    refine explains_target into does ⟨ValueSet.canonical_interval _ _, ?_⟩ register
    rw [ValueSet.contains_interval (by omega)]
    exact ⟨above, below⟩
  | @random low high target value code bounds next into above below =>
    -- The register stands second, behind those that it is drawn between.
    have effect : instruction.effectOn? (registerNumber register) =
        if register = target then some (.random (registerNumber low))
        else instruction.declaredEffect? (registerNumber register) := by
      simp [effectOn?, code, effectOf, show instruction.intArg? 0 = _ from bounds,
        show instruction.intArg? 1 = _ from into, eq_comm]
    rw [effect]
    by_cases same : register = target
    · subst same
      rw [if_pos rfl, Registers.set_self]
      exact ⟨low, high, rfl, next, above, below⟩
    · rw [if_neg same]
      exact explains_declared fun _ => Registers.set_of_ne same
  | span code kept =>
    have effect : instruction.effectOn? (registerNumber register) =
        if instruction.coversRegister (registerNumber register) then some .unknown else none := by
      simp only [List.mem_cons, List.not_mem_nil, or_false] at code
      rcases code with code | code <;> simp [effectOn?, code]
    rw [effect]
    -- Registers among those that are saved or restored may have any value.
    split
    · exact trivial
    · rename_i apart
      exact kept register fun spans => apart (coversRegister_iff.mpr spans)
  | declared code kept =>
    rw [effectOn?_of_not_operating code]
    exact explains_declared (kept register)

end Instruction

section

variable {σ : Type} {step : Instruction → σ → σ → Prop}

/-- Instructions that are executed one after the other. -/
inductive Runs (step : Instruction → σ → σ → Prop) : List Instruction → σ → σ → Prop where
  | done (state : σ) : Runs step [] state state
  | next {instruction : Instruction} {rest : List Instruction} {before middle after : σ}
    (first : step instruction before middle) (others : Runs step rest middle after) :
    Runs step (instruction :: rest) before after

/-- Instructions are executed after others from where those have led to. -/
theorem Runs.append {front back : List Instruction} {before middle after : σ}
    (first : Runs step front before middle) (second : Runs step back middle after) :
    Runs step (front ++ back) before after := by
  induction first with
  -- The others follow where the first ones end.
  | done _ => exact second
  | next here _ ih => exact .next here (ih second)

/-- Some instructions and then others are executed in two parts. -/
theorem Runs.of_append {front back : List Instruction} {before after : σ}
    (runs : Runs step (front ++ back) before after) :
    ∃ middle, Runs step front before middle ∧ Runs step back middle after := by
  induction front generalizing before with
  | nil => exact ⟨before, .done before, runs⟩
  | cons instruction rest ih =>
    -- The first instruction is taken off, and the rest is split.
    cases runs with
    | next first others =>
      obtain ⟨middle, behind, last⟩ := ih others
      exact ⟨middle, .next first behind, last⟩

/-- The last of some instructions is executed after the others. -/
theorem Runs.of_concat {instructions : List Instruction} {last : Instruction} {before after : σ}
    (runs : Runs step (instructions ++ [last]) before after) :
    ∃ middle, Runs step instructions before middle ∧ step last middle after := by
  obtain ⟨middle, front, back⟩ := runs.of_append
  -- A single instruction is executed in one step, behind which there is nothing.
  cases back with
  | next first others =>
    cases others
    exact ⟨middle, front, first⟩

/-- Instructions that are executed in one way are so in another that allows as much. -/
theorem Runs.imp {other : Instruction → σ → σ → Prop} {instructions : List Instruction}
    {before after : σ}
    (allows : ∀ {instruction before after}, step instruction before after →
      other instruction before after)
    (runs : Runs step instructions before after) : Runs other instructions before after := by
  induction runs with
  | done state => exact .done state
  -- Each step is allowed in the other way, too.
  | next first _ ih => exact .next (allows first) ih

namespace FlowGraph

/-- The instructions of a block before `stop`, in order. -/
def codeBefore (graph : FlowGraph) (number stop : Nat) : List Instruction :=
  (graph.instructionsBefore number stop).reverse

/-- The instructions of a block, in order. -/
def code (graph : FlowGraph) (number : Nat) : List Instruction :=
  (graph.instructionsOf number).reverse

/-- The instructions of blocks are instructions of the segments. -/
theorem mem_of_mem_instructionsBefore {graph : FlowGraph} {number stop : Nat}
    {instruction : Instruction} (listed : instruction ∈ graph.instructionsBefore number stop) :
    ∃ segment ∈ graph.segments, instruction ∈ segment.instructions := by
  -- An unknown block or segment has no instructions.
  unfold instructionsBefore at listed
  split at listed
  · cases listed
  · split at listed
    · cases listed
    · rename_i segment found
      exact ⟨segment, List.mem_of_getElem? found,
        List.mem_of_mem_take (List.mem_of_mem_drop (List.mem_reverse.mp listed))⟩

/-- Control that arrives at the start of a block: it begins at one that nothing goes to, and goes
along the edges after whole blocks. -/
inductive Arrives (graph : FlowGraph) (step : Instruction → σ → σ → Prop) : Nat → σ → Prop where
  | start {block : Nat} (state : σ) (known : block < graph.blocks.length)
    (entry : graph.predecessors block = []) : Arrives graph step block state
  | follow {block next : Nat} {before after : σ} (arrived : Arrives graph step block before)
    (runs : Runs step (graph.code block) before after) (edge : next ∈ graph.successors block) :
    Arrives graph step next after

/-- Control arrives in a way that allows as much as another wherever it does in that. -/
theorem Arrives.imp {graph : FlowGraph} {other : Instruction → σ → σ → Prop} {block : Nat}
    {state : σ} (allows : ∀ {instruction before after}, step instruction before after →
      other instruction before after)
    (arrived : graph.Arrives step block state) : graph.Arrives other block state := by
  induction arrived with
  | start state known entry => exact .start state known entry
  -- The steps from one block to the next are allowed, and so are those before them.
  | follow _ runs edge ih => exact .follow ih (runs.imp allows) edge

end FlowGraph

end

end QuestScript
