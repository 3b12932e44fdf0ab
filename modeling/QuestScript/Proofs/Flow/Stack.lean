import QuestScript.Flow.Stack
import QuestScript.Proofs.Flow.Register

/-! The stack analysis finds every value that can lie on the argument stack.

A value is pushed as it is when the push is executed, and every instruction that does not push
empties the stack. -/

namespace QuestScript

/-- A value that was pushed, and the register that it was read from, if it was. -/
structure Argument where
  value : Int32
  source : Option (Fin 256)
deriving DecidableEq, Repr

/-- What a pushing instruction can push. -/
inductive Instruction.Pushes (instruction : Instruction) (registers : Registers) :
    Argument → Prop where
  /-- A value that is given. -/
  | given {value : Int32}
    (code : instruction.opcode.code ∈ [Code.argPushl, Code.argPushb, Code.argPushw])
    (argument : instruction.intArg? 0 = some value) : Pushes instruction registers ⟨value, none⟩
  /-- What a register holds. -/
  | held {source : Fin 256} (code : instruction.opcode.code = Code.argPushr)
    (out : instruction.Targets 0 source) :
    Pushes instruction registers ⟨registers source, some source⟩
  /-- An address, or anything else. -/
  | other {value : Int32} (code : instruction.opcode.code ∉
      [Code.argPushr, Code.argPushl, Code.argPushb, Code.argPushw]) :
    Pushes instruction registers ⟨value, none⟩

/-- What is known of an argument by the way it was pushed. -/
def Pushed.Gives (registers : Registers) (argument : Argument) : Pushed → Prop
  | .value given => argument = ⟨given, none⟩
  | .register number => ∃ source, number = registerNumber source ∧
      argument = ⟨registers source, some source⟩
  | .unknown => argument.source = none

/-- What an instruction pushes is what the analysis says that it pushes. -/
theorem Instruction.Pushes.gives {instruction : Instruction} {registers : Registers}
    {argument : Argument} (pushes : instruction.Pushes registers argument) :
    instruction.pushed.Gives registers argument := by
  cases pushes with
  | @given value code argument =>
    -- All three codes push their argument as it is.
    have kind : instruction.pushed = .value value := by
      simp only [List.mem_cons, List.not_mem_nil, or_false] at code
      rcases code with code | code | code <;> simp [pushed, code, argument]
    rw [kind]
    exact rfl
  | @held source code out =>
    have kind : instruction.pushed = .register (registerNumber source) := by
      simp [pushed, code, show instruction.intArg? 0 = _ from out]
    rw [kind]
    exact ⟨source, rfl, rfl⟩
  | other code =>
    -- No other code has a case of its own.
    have kind : instruction.pushed = .unknown := by
      simp only [List.mem_cons, List.not_mem_nil, or_false, not_or] at code
      simp only [pushed, List.mem_cons, List.not_mem_nil, code, or_self, if_false]
      split <;> rfl
    rw [kind]
    exact rfl

/-- The registers, and the arguments on the stack with the one that was pushed last in front. -/
structure StackMachine where
  registers : Registers
  stack : List Argument

/-- What an instruction can make of the registers and the stack. -/
inductive Instruction.Stacks (instruction : Instruction) (before : StackMachine) :
    StackMachine → Prop where
  | push {registers : Registers} {argument : Argument} (pushes : instruction.opcode.pushes = true)
    (executes : instruction.Executes before.registers registers)
    (pushed : instruction.Pushes before.registers argument) :
    Stacks instruction before ⟨registers, argument :: before.stack⟩
  /-- Any other instruction takes all that was pushed, or drops it. -/
  | clear {registers : Registers} (quiet : instruction.opcode.pushes = false)
    (executes : instruction.Executes before.registers registers) :
    Stacks instruction before ⟨registers, []⟩

/-- The stack does not matter for what an instruction does to the registers. -/
theorem Instruction.Stacks.executes {instruction : Instruction} {before after : StackMachine}
    (stacked : instruction.Stacks before after) :
    instruction.Executes before.registers after.registers := by
  -- Pushing and clearing are about the stack.
  cases stacked with
  | push _ executes _ => exact executes
  | clear _ executes => exact executes

/-- The register analysis keeps track of the registers beside a stack. -/
theorem tracks_stacks : Tracks Instruction.Stacks StackMachine.registers Unmultiplied :=
  .of_executes fun stacked => stacked.executes

/-- Where an argument on the stack comes from, if control has gone from `start` through some
instructions. -/
def StackSlot.Holds (start : StackMachine) (argument : Argument) : StackSlot → Prop
  -- Nothing lies on a stack that was emptied.
  | .cleared => False
  | .pushed push before => ∃ middle, Runs Instruction.Stacks before.reverse start middle ∧
      push.Pushes middle.registers argument
  | .deeper position => start.stack[position]? = some argument

/-- What lies on the stack after some instructions is what the analysis traces it back to. -/
theorem stackSlot_holds {instructions : List Instruction} {start after : StackMachine}
    {position : Nat} {argument : Argument}
    (runs : Runs Instruction.Stacks instructions.reverse start after)
    (lies : after.stack[position]? = some argument) :
    (stackSlot position instructions).Holds start argument := by
  -- The instructions are gone through backwards, and each push uncovers what lay below.
  induction instructions generalizing after position with
  | nil =>
    cases runs
    rw [stackSlot]
    exact lies
  | cons instruction before ih =>
    rw [List.reverse_cons] at runs
    obtain ⟨middle, front, stacked⟩ := runs.of_concat
    unfold stackSlot
    cases stacked with
    | push pushes _ pushed =>
      simp only [pushes, Bool.not_true, Bool.false_eq_true, if_false]
      cases position with
      | zero =>
        -- This instruction has pushed the argument.
        cases lies
        exact ⟨middle, front, pushed⟩
      | succ position => exact ih front lies
    | clear _ _ => cases lies

/-- A push that is found is one of the instructions, and has those before it behind it. -/
theorem stackSlot_suffix {instructions before : List Instruction} {push : Instruction}
    {position : Nat} (slot : stackSlot position instructions = .pushed push before) :
    push :: before <:+ instructions := by
  induction instructions generalizing position with
  | nil => simp [stackSlot] at slot
  | cons instruction earlier ih =>
    unfold stackSlot at slot
    -- The search ends at what clears the stack, or finds the push at this depth.
    split at slot
    · cases slot
    · cases position with
      | zero =>
        cases slot
        exact List.suffix_refl _
      | succ position => exact (ih slot).trans (List.suffix_cons instruction earlier)

/-- The search for a stack position finds the value that lies there once control has arrived at a
block and gone through some of its instructions. -/
theorem contains_stackBefore {graph : FlowGraph} (mirrored : graph.Mirrored)
    (productless : graph.Productless) (levels : Nat) (path : List Nat) {block position : Nat}
    {instructions : List Instruction} {start after : StackMachine} {argument : Argument}
    (arrived : graph.Arrives Instruction.Stacks block start) (plain : Unmultiplied instructions)
    (runs : Runs Instruction.Stacks instructions.reverse start after)
    (lies : after.stack[position]? = some argument) :
    Yields (stackBefore graph levels path block instructions position)
      (·.contains argument.value = true) := by
  -- Each level looks through the end of one block, and the next one through those before it, at the
  -- position that the argument has there.
  induction levels generalizing path block position instructions start after with
  | zero => exact .pure ValueSet.contains_all
  | succ levels ih =>
    have holds := stackSlot_holds runs lies
    unfold stackBefore
    -- A search that has come through too many blocks allows every value.
    refine .bind_any fun allowed => ?_
    split
    · cases slot : stackSlot position instructions with
      | cleared =>
        rw [slot] at holds
        exact holds.elim
      | pushed push before =>
        rw [slot] at holds
        obtain ⟨middle, front, pushed⟩ := holds
        have gives := pushed.gives
        cases kind : push.pushed with
        | unknown =>
          simp only [kind]
          exact .pure ValueSet.contains_all
        | value value =>
          rw [kind] at gives
          rw [show argument = ⟨value, none⟩ from gives]
          simp only [kind]
          exact .pure (by simp)
        | register number =>
          -- A second search starts at the push, and looks for the register before it.
          rw [kind] at gives
          obtain ⟨source, rfl, rfl⟩ := gives
          have earlier : Unmultiplied before := fun other listed =>
            plain other ((stackSlot_suffix slot).mem (List.mem_cons_of_mem push listed))
          have found := tracks_stacks.encloses_registerBefore mirrored productless.instructionsOf
            (maxVisits + 1) [] arrived earlier front source
          simp only [kind]
          exact .bind_any fun _ => .pure (found {}).2
      | deeper below =>
        rw [slot] at holds
        cases arrived with
        | start _ known entry =>
          -- Where nothing comes from, nothing is known.
          dsimp only
          rw [entry]
          exact .pure ValueSet.contains_all
        | @follow previous _ earlier _ came gone edge =>
          have onward := ih (block :: path) came (productless.instructionsOf previous) gone holds
          exact Search.contains_unionOver_of_mem ((mirrored _ _).mpr edge) onward
    · exact .pure ValueSet.contains_all

/-- The values that are found for a position of the stack before an instruction have among them the
one that lies there, along whatever way control has come, and whatever the registers and the stack
held when it began. -/
theorem FlowGraph.stackValue_contains {segments : List CodeSegment}
    (productless : ∀ segment ∈ segments, ∀ instruction ∈ segment.instructions,
      instruction.opcode.code ≠ Code.muli)
    {block position : Nat} {ref : InstructionRef} {before after : StackMachine}
    {argument : Argument}
    (arrived : (build segments).Arrives Instruction.Stacks block before)
    (place : (build segments).blockOf? ref = some block)
    (runs : Runs Instruction.Stacks ((build segments).codeBefore block ref.index) before after)
    (lies : after.stack[position]? = some argument) :
    ((build segments).stackValue ref position).1.contains argument.value = true := by
  -- Whatever the number of levels is with which the search starts, it finds the value.
  have plain : (build segments).Productless := productless
  have found := contains_stackBefore mirrored_build plain (maxVisits + 1) [] arrived
    (plain.instructionsBefore block ref.index) runs lies
  unfold stackValue
  rw [place]
  exact found {}

/-- Code that pushes a register at the end of one segment, and a number at the start of the next. -/
def pushCode : List CodeSegment :=
  [⟨[0], [{ opcode := OpcodeTable.standard.get Code.leti, args := [.int 7, .int 25] },
      { opcode := OpcodeTable.standard.get Code.argPushr, args := [.int 7] }]⟩,
    ⟨[1], [{ opcode := OpcodeTable.standard.get Code.argPushl, args := [.int 5] },
      { opcode := OpcodeTable.standard.get Code.setFloorHandler },
      { opcode := OpcodeTable.standard.get Code.ret }]⟩]

/-- The registers when one of them has been set. -/
def pushedRegisters (register : Fin 256) : Registers := Registers.set (fun _ => 0) register 25

/-- Control comes to the next segment with the register on the stack. -/
theorem arrives_pushCode :
    (FlowGraph.build pushCode).Arrives Instruction.Stacks 1
      ⟨pushedRegisters 7, [⟨25, some 7⟩]⟩ := by
  have edge : 1 ∈ (FlowGraph.build pushCode).successors 0 := by decide
  -- The register is set before it is pushed.
  refine .follow (.start ⟨fun _ => 0, []⟩ (by decide) rfl) ?_ edge
  refine .next (.clear (by decide) (@Instruction.Executes.store _ _ 7 25 (by decide) rfl rfl)) ?_
  refine .next (.push (by decide) (.declared (by decide) fun _ _ => rfl) ?_) (.done _)
  exact @Instruction.Pushes.held _ (pushedRegisters 7) 7 rfl rfl

/-- The value of the register is found below the number, in the segment before. -/
theorem stackValue_contains_pushCode :
    (∀ segment ∈ pushCode, ∀ instruction ∈ segment.instructions,
        instruction.opcode.code ≠ Code.muli) ∧
      (FlowGraph.build pushCode).Arrives Instruction.Stacks 1 ⟨pushedRegisters 7, [⟨25, some 7⟩]⟩ ∧
      (FlowGraph.build pushCode).blockOf? ⟨1, 1⟩ = some 1 ∧
      Runs Instruction.Stacks ((FlowGraph.build pushCode).codeBefore 1 1)
        ⟨pushedRegisters 7, [⟨25, some 7⟩]⟩ ⟨pushedRegisters 7, [⟨5, none⟩, ⟨25, some 7⟩]⟩ ∧
      ((FlowGraph.build pushCode).stackValue ⟨1, 1⟩ 1).1.contains 25 = true := by
  -- Nothing multiplies, and in the block itself a number is pushed on top.
  have productless : ∀ segment ∈ pushCode, ∀ instruction ∈ segment.instructions,
      instruction.opcode.code ≠ Code.muli := by decide
  have place : (FlowGraph.build pushCode).blockOf? ⟨1, 1⟩ = some 1 := rfl
  have runs : Runs Instruction.Stacks ((FlowGraph.build pushCode).codeBefore 1 1)
      ⟨pushedRegisters 7, [⟨25, some 7⟩]⟩ ⟨pushedRegisters 7, [⟨5, none⟩, ⟨25, some 7⟩]⟩ := by
    refine .next (.push (by decide) (.declared (by decide) fun _ _ => rfl) ?_) (.done _)
    exact .given (by decide) rfl
  have lies : [(⟨5, none⟩ : Argument), ⟨25, some 7⟩][1]? = some ⟨25, some 7⟩ := rfl
  have found := FlowGraph.stackValue_contains productless arrives_pushCode place runs lies
  exact ⟨productless, arrives_pushCode, place, runs, found⟩

end QuestScript
