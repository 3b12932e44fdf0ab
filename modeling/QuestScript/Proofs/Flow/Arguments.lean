import Mathlib
import QuestScript.Proofs.Flow.Stack

/-! The values that calls pass in registers.

A call gets its arguments as they were pushed since its list of arguments was begun. The register
analysis takes an argument that was read from a register for what that register held when the list
was begun, and so it is right about the calls that pass no register which has changed since. -/

namespace QuestScript

/-- The registers, and the arguments of the next call. -/
structure CallMachine where
  registers : Registers
  /-- The arguments in the order in which they were pushed. -/
  arguments : List Argument
  /-- What the registers held when the list of arguments was begun. -/
  atStart : Registers

/-- The value of an argument, if it had been read from these registers. -/
def Argument.heldAt (registers : Registers) (argument : Argument) : Int32 :=
  match argument.source with
  | some source => registers source
  | none => argument.value

namespace CallMachine

/-- The registers after a call: those from one to seven have the arguments, or zero where there is
none, by the values that these are taken for. -/
def pass (machine : CallMachine) (taken : Argument → Int32) : Registers := fun register =>
  if 1 ≤ register.val ∧ register.val ≤ 7 then
    (machine.arguments[register.val - 1]?.map taken).getD 0
  else machine.registers register

/-- The arguments that are passed have the values that their registers held at the start. -/
def Settled (machine : CallMachine) : Prop :=
  ∀ index < 7, ∀ argument, machine.arguments[index]? = some argument →
    argument.heldAt machine.atStart = argument.value

/-- Then it does not matter when the registers are read. -/
theorem Settled.pass_eq {machine : CallMachine} (settled : machine.Settled) :
    machine.pass Argument.value = machine.pass (Argument.heldAt machine.atStart) := by
  -- Only the registers that take an argument could differ.
  funext register
  unfold pass
  split
  · rename_i passed
    cases found : machine.arguments[register.val - 1]? with
    | none => rfl
    | some argument => exact (settled (register.val - 1) (by omega) argument found).symm
  · rfl

end CallMachine

/-- What an instruction can make of the registers and the arguments, if calls take an argument for
the value that `taken` gives it, by what the registers held when the list was begun. -/
inductive Instruction.Operates (taken : Registers → Argument → Int32) (instruction : Instruction)
    (before : CallMachine) : CallMachine → Prop where
  /-- A list of arguments is begun. -/
  | start {registers : Registers} (code : instruction.opcode.code = Code.vaStart)
    (executes : instruction.Executes before.registers registers) :
    Operates taken instruction before ⟨registers, [], before.registers⟩
  /-- An argument is pushed. -/
  | push {registers : Registers} {argument : Argument}
    (code : instruction.opcode.code ≠ Code.vaStart) (pushes : instruction.opcode.pushes = true)
    (executes : instruction.Executes before.registers registers)
    (pushed : instruction.Pushes before.registers argument) :
    Operates taken instruction before
      ⟨registers, before.arguments ++ [argument], before.atStart⟩
  /-- The arguments are passed. -/
  | call (code : instruction.opcode.code = Code.vaCall)
    (quiet : instruction.opcode.pushes = false) :
    Operates taken instruction before
      ⟨before.pass (taken before.atStart), before.arguments, before.atStart⟩
  | other {registers : Registers} (code : instruction.opcode.code ≠ Code.vaStart)
    (quiet : instruction.opcode.pushes = false)
    (executes : instruction.Executes before.registers registers) :
    Operates taken instruction before ⟨registers, before.arguments, before.atStart⟩

/-- What an instruction can make of the registers and the arguments, if calls get these as they were
pushed, and none passes a register that has changed since its list of arguments was begun. -/
def Instruction.OperatesSettled (instruction : Instruction) (before after : CallMachine) : Prop :=
  instruction.Operates (fun _ => Argument.value) before after ∧
    (instruction.opcode.code = Code.vaCall → before.Settled)

/-- In code, given in reverse, a list of arguments is begun before every call. -/
def Begun (instructions : List Instruction) : Prop :=
  ∀ call before, call :: before <:+ instructions → call.opcode.code = Code.vaCall →
    ∃ start ∈ before, start.opcode.code = Code.vaStart

namespace Instruction

variable {taken : Registers → Argument → Int32} {instruction : Instruction}
  {before after : CallMachine}

/-- An instruction that passes no changed register works as if registers were read at the start. -/
theorem OperatesSettled.operates (operates : instruction.OperatesSettled before after) :
    instruction.Operates Argument.heldAt before after := by
  obtain ⟨happens, settled⟩ := operates
  cases happens with
  | start code executes => exact .start code executes
  | push code pushes executes pushed => exact .push code pushes executes pushed
  | call code quiet =>
    -- The only step that looks at the values of the arguments.
    rw [(settled code).pass_eq]
    exact .call code quiet
  | other code quiet executes => exact .other code quiet executes

/-- What calls do to a register: the arguments are in those from one to seven. -/
theorem effectOn?_of_vaCall (code : instruction.opcode.code = Code.vaCall) (register : Fin 256) :
    instruction.effectOn? (registerNumber register) =
      if 1 ≤ register.val ∧ register.val ≤ 7 then some .callArgument else none := by
  -- The bounds are on the signed number, which is that of the register.
  have bounds : (1 ≤ (registerNumber register).toInt ∧ (registerNumber register).toInt ≤ 7) ↔
      1 ≤ register.val ∧ register.val ≤ 7 := by
    rw [toInt_registerNumber]
    omega
  have other : Code.vaCall ≠ Code.sync := by decide
  simp only [effectOn?, code, other, if_false, if_true, bounds]

/-- Whatever has no argument of a call as its effect on a register is explained by that effect. -/
theorem Operates.explains (operates : instruction.Operates taken before after) (register : Fin 256)
    (other : instruction.effectOn? (registerNumber register) ≠ some .callArgument) :
    Explains before.registers register (after.registers register)
      (instruction.effectOn? (registerNumber register)) := by
  cases operates with
  | start _ executes => exact executes.explains register
  | push _ _ executes _ => exact executes.explains register
  | call code _ =>
    -- A call leaves the registers alone that take no argument.
    rw [effectOn?_of_vaCall code] at other ⊢
    have apart : ¬(1 ≤ register.val ∧ register.val ≤ 7) := fun passed => other (if_pos passed)
    rw [if_neg apart]
    exact if_neg apart
  | other _ _ executes => exact executes.explains register

/-- An instruction that is executed by itself passes no argument. -/
theorem Executes.effectOn?_ne {before after : Registers}
    (executes : instruction.Executes before after) (register : Fin 256) :
    instruction.effectOn? (registerNumber register) ≠ some .callArgument := by
  intro does
  -- An argument of a call explains no value, but what is executed explains each of them.
  have explained := executes.explains register
  rw [does] at explained
  exact explained

/-- Only a call has an argument of a call as its effect on a register, and one that takes one. -/
theorem Operates.eq_pass (operates : instruction.Operates taken before after) {register : Fin 256}
    (does : instruction.effectOn? (registerNumber register) = some .callArgument) :
    instruction.opcode.code = Code.vaCall ∧ (1 ≤ register.val ∧ register.val ≤ 7) ∧
      after.registers register = before.pass (taken before.atStart) register := by
  -- All steps but the call itself are those of instructions that are executed by themselves.
  cases operates with
  | start _ executes => exact absurd does (executes.effectOn?_ne register)
  | push _ _ executes _ => exact absurd does (executes.effectOn?_ne register)
  | call code _ =>
    rw [effectOn?_of_vaCall code] at does
    split at does
    · exact ⟨code, ‹_›, rfl⟩
    · cases does
  | other _ _ executes => exact absurd does (executes.effectOn?_ne register)

/-- A call pushes nothing. -/
theorem Operates.quiet_of_vaCall (operates : instruction.Operates taken before after)
    (code : instruction.opcode.code = Code.vaCall) : instruction.opcode.pushes = false := by
  -- It passes an argument in the first register, whatever the arguments are.
  have does : instruction.effectOn? (registerNumber 1) = some .callArgument :=
    effectOn?_of_vaCall code 1
  cases operates with
  | start _ executes => exact absurd does (executes.effectOn?_ne 1)
  | push _ _ executes _ => exact absurd does (executes.effectOn?_ne 1)
  | call _ quiet => exact quiet
  | other _ quiet _ => exact quiet

end Instruction

section Arguments

variable {taken : Registers → Argument → Int32}

/-- Instructions that begin no list of arguments add what they push to it. -/
theorem arguments_of_runs {instructions : List Instruction} {before after : CallMachine}
    (runs : Runs (Instruction.Operates taken) instructions before after)
    (goesOn : ∀ instruction ∈ instructions, instruction.opcode.code ≠ Code.vaStart) :
    ∃ pushes : List (Instruction × Argument),
      after.arguments = before.arguments ++ pushes.map (·.2) ∧
        pushes.map (·.1) = instructions.filter (·.opcode.pushes) ∧
        (∀ push ∈ pushes, ∃ registers, push.1.Pushes registers push.2) ∧
        after.atStart = before.atStart := by
  -- Each push is kept with its argument, since the analysis knows the one by the other.
  induction runs with
  | done state => exact ⟨[], by simp⟩
  | @next instruction rest before middle after first _ ih =>
    obtain ⟨pushes, added, same, made, kept⟩ :=
      ih fun other listed => goesOn other (List.mem_cons_of_mem _ listed)
    have here := goesOn instruction List.mem_cons_self
    cases first with
    | start code _ => exact absurd code here
    | @push registers argument _ pushing _ pushed =>
      -- The argument comes before those that the other instructions push.
      refine ⟨(instruction, argument) :: pushes, ?_, ?_, ?_, kept⟩
      · rw [added, List.map_cons, List.append_assoc]
        rfl
      · simp [same, pushing]
      · intro push listed
        rcases List.mem_cons.mp listed with rfl | behind
        · exact ⟨before.registers, pushed⟩
        · exact made push behind
    | call _ quiet =>
      refine ⟨pushes, added, ?_, made, kept⟩
      simp [same, quiet]
    | other _ quiet _ =>
      refine ⟨pushes, added, ?_, made, kept⟩
      simp [same, quiet]

/-- An argument of a call is what the push of its number put there, among the pushes since the list
of arguments was begun. -/
theorem callArgument_append {behind before : List Instruction} {start : Instruction}
    (goesOn : ∀ instruction ∈ behind, instruction.opcode.code ≠ Code.vaStart)
    (begins : start.opcode.code = Code.vaStart) (register : Fin 256) :
    callArgument (behind ++ start :: before) (registerNumber register) =
      (((behind.reverse.filter (·.opcode.pushes))[register.val - 1]?.map Instruction.pushed).getD
        (.value 0), before) := by
  -- Going back from the call, the analysis stops at the start, and has gone through all pushes.
  have passes : ∀ instruction ∈ behind, (!(instruction.opcode.code == Code.vaStart)) = true := by
    simpa using goesOn
  have taken : ((behind ++ start :: before).takeWhile fun instruction =>
      !(instruction.opcode.code == Code.vaStart)) = behind := by
    rw [List.takeWhile_append_of_pos passes]
    simp [begins]
  have dropped : ((behind ++ start :: before).dropWhile fun instruction =>
      !(instruction.opcode.code == Code.vaStart)) = start :: before := by
    rw [List.dropWhile_append_of_pos passes]
    simp [begins]
  simp only [callArgument, taken, dropped, toInt_registerNumber, Int.toNat_natCast]
  cases (behind.reverse.filter (·.opcode.pushes))[register.val - 1]? <;> rfl

/-- A call supplies the arguments that the analysis finds, if registers are read at the start. -/
theorem supplies_pass {before : List Instruction} {start middle : CallMachine}
    (begun : ∃ instruction ∈ before, instruction.opcode.code = Code.vaStart)
    (runs : Runs (Instruction.Operates taken) before.reverse start middle) {register : Fin 256}
    (passed : 1 ≤ register.val ∧ register.val ≤ 7) :
    Supplies (Instruction.Operates taken) CallMachine.registers start
      (middle.pass (Argument.heldAt middle.atStart) register)
      (callArgument before (registerNumber register)) := by
  -- The instructions are split where the list of arguments was begun last.
  obtain ⟨opening, beforeStart, behind, rfl, begins, goesOn⟩ :
      ∃ (opening : Instruction) (beforeStart behind : List Instruction),
        before = behind ++ opening :: beforeStart ∧ opening.opcode.code = Code.vaStart ∧
          ∀ instruction ∈ behind, instruction.opcode.code ≠ Code.vaStart := by
    obtain ⟨instruction, listed, begins⟩ := begun
    have some : (before.find? (·.opcode.code == Code.vaStart)).isSome := by
      rw [List.find?_isSome]
      exact ⟨instruction, listed, by simp [begins]⟩
    obtain ⟨opening, found⟩ := Option.isSome_iff_exists.mp some
    obtain ⟨begins, behind, beforeStart, split, goesOn⟩ := List.find?_eq_some_iff_append.mp found
    exact ⟨opening, beforeStart, behind, split, by simpa using begins, by simpa using goesOn⟩
  rw [List.reverse_append, List.reverse_cons, List.append_assoc, List.singleton_append] at runs
  obtain ⟨state, ran, later⟩ := runs.of_append
  cases later with
  | @next _ _ _ opened _ opens others =>
    -- The list is empty then, and the registers are kept in mind.
    have empty : opened.arguments = [] ∧ opened.atStart = state.registers := by
      cases opens with
      | start _ _ => exact ⟨rfl, rfl⟩
      | push code _ _ _ => exact absurd begins code
      | call code _ => rw [begins] at code; cases code
      | other code _ _ => exact absurd begins code
    obtain ⟨pushes, added, same, made, kept⟩ :=
      arguments_of_runs others fun instruction listed =>
        goesOn instruction (List.mem_reverse.mp listed)
    rw [empty.1, List.nil_append] at added
    rw [callArgument_append goesOn begins, ← same, List.getElem?_map]
    unfold CallMachine.pass
    rw [if_pos passed, added, kept, empty.2, List.getElem?_map]
    cases found : pushes[register.val - 1]? with
    | none =>
      -- Fewer arguments have been pushed, and the register gets zero.
      exact rfl
    | some push =>
      obtain ⟨registers, pushed⟩ := made push (List.mem_of_getElem? found)
      have gives := pushed.gives
      simp only [Option.map_some, Option.getD_some]
      cases kind : push.1.pushed with
      | unknown => exact trivial
      | value value =>
        rw [kind] at gives
        rw [show push.2 = ⟨value, none⟩ from gives]
        exact rfl
      | register number =>
        -- What the register held at the start is found there.
        rw [kind] at gives
        obtain ⟨source, rfl, read⟩ := gives
        rw [read]
        exact ⟨state, source, ran, rfl, rfl⟩

end Arguments

/-- The register analysis keeps track of calls, if registers are read when the list of arguments is
begun. -/
theorem tracks_operates :
    Tracks (Instruction.Operates Argument.heldAt) CallMachine.registers
      fun instructions => Unmultiplied instructions ∧ Begun instructions where
  suffix := by
    -- The calls of the earlier code have the same code before them as in the whole.
    rintro before instructions behind ⟨plain, begun⟩
    refine ⟨fun instruction listed => plain instruction (behind.mem listed), ?_⟩
    intro call earlier inside code
    exact begun call earlier (inside.trans behind) code
  plain := fun fits => fits.1
  explains := fun operates register other => operates.explains register other
  supplies := by
    intro call before start middle after fits runs operates register does
    obtain ⟨code, passed, same⟩ := operates.eq_pass does
    rw [same]
    exact supplies_pass (fits.2 call before (List.suffix_refl _) code) runs passed

/-- The values that are found for a register before an instruction have among them the one that it
holds there, if no call on the way has passed a register that has changed since the list of its
arguments was begun. Where a single value is found right after a call, it is the one that the
register holds if and only if it is the one that it would hold by the registers at that time. -/
theorem FlowGraph.registerValue_contains_of_settled {segments : List CodeSegment}
    (productless : ∀ segment ∈ segments, ∀ instruction ∈ segment.instructions,
      instruction.opcode.code ≠ Code.muli)
    (begun : ∀ number front call rest, (build segments).code number = front ++ call :: rest →
      call.opcode.code = Code.vaCall → ∃ start ∈ front, start.opcode.code = Code.vaStart) :
    (∀ {block : Nat} {ref : InstructionRef} {before after : CallMachine},
      (build segments).Arrives Instruction.OperatesSettled block before →
      (build segments).blockOf? ref = some block →
      Runs Instruction.OperatesSettled ((build segments).codeBefore block ref.index) before after →
      ∀ register, ((build segments).registerValue ref (registerNumber register)).1.contains
        (after.registers register) = true) ∧
    ∀ {caller next : Nat} {ref : InstructionRef} {front : List Instruction} {call : Instruction}
      {before middle after : CallMachine},
      (build segments).Arrives Instruction.OperatesSettled caller before →
      (build segments).code caller = front ++ [call] → call.opcode.code = Code.vaCall →
      Runs Instruction.OperatesSettled front before middle →
      call.Operates (fun _ => Argument.value) middle after →
      next ∈ (build segments).successors caller → (build segments).blockOf? ref = some next →
      (build segments).codeBefore next ref.index = [] →
      ∀ register value,
        ((build segments).registerValue ref (registerNumber register)).1 = .of value →
        (((build segments).registerValue ref (registerNumber register)).1.contains
            (after.registers register) = true ↔
          after.registers register = middle.pass (Argument.heldAt middle.atStart) register) := by
  have plain : (build segments).Productless := productless
  have fits : ∀ number, Unmultiplied ((build segments).instructionsOf number) ∧
      Begun ((build segments).instructionsOf number) := by
    refine fun number => ⟨plain.instructionsOf number, ?_⟩
    rintro call before ⟨rest, split⟩ code
    -- What stands before the call in the block stands behind it in reverse.
    have inOrder : (build segments).code number = before.reverse ++ call :: rest.reverse := by
      rw [FlowGraph.code, ← split]
      simp
    obtain ⟨start, listed, begins⟩ := begun number _ call _ inOrder code
    exact ⟨start, List.mem_reverse.mp listed, begins⟩
  constructor
  · intro block ref before after arrived place runs register
    exact tracks_operates.contains_registerValue fits
      (arrived.imp Instruction.OperatesSettled.operates) place
      (runs.imp Instruction.OperatesSettled.operates) register
  · intro caller next ref front call before middle after arrived split code runs operates edge place
      first register value single
    have quiet := operates.quiet_of_vaCall code
    -- Control also arrives behind a call that reads the registers at the start.
    have reaches : (build segments).Arrives (Instruction.Operates Argument.heldAt) next
        ⟨middle.pass (Argument.heldAt middle.atStart), middle.arguments, middle.atStart⟩ := by
      refine .follow (arrived.imp Instruction.OperatesSettled.operates) ?_ edge
      rw [split]
      exact (runs.imp Instruction.OperatesSettled.operates).append
        (.next (.call code quiet) (.done _))
    have found := tracks_operates.contains_registerValue fits reaches place
      (by rw [first]; exact .done _) register
    -- So the value that is found is the one by these registers, as it is the only one.
    rw [single, ValueSet.contains_of] at found ⊢
    rw [← found]

/-- Whether a list of arguments is begun before the first call of some instructions. -/
def beginsFirst : List Instruction → Bool
  | [] => true
  | instruction :: rest =>
    instruction.opcode.code == Code.vaStart ||
      (instruction.opcode.code != Code.vaCall && beginsFirst rest)

/-- Then one is begun before each of them. -/
theorem exists_start_of_beginsFirst {front rest : List Instruction} {call : Instruction}
    (begins : beginsFirst (front ++ call :: rest) = true) (code : call.opcode.code = Code.vaCall) :
    ∃ start ∈ front, start.opcode.code = Code.vaStart := by
  induction front with
  | nil =>
    -- The call itself comes first, and begins no list.
    simp only [List.nil_append, beginsFirst, code] at begins
    cases begins
  | cons instruction front ih =>
    simp only [List.cons_append, beginsFirst, Bool.or_eq_true, Bool.and_eq_true, beq_iff_eq]
      at begins
    rcases begins with here | ⟨-, later⟩
    · exact ⟨instruction, List.mem_cons_self, here⟩
    · obtain ⟨start, listed, found⟩ := ih later
      exact ⟨start, List.mem_cons_of_mem _ listed, found⟩

/-- Whether lists of arguments are begun before the calls can be told block by block. -/
theorem FlowGraph.begun_of_beginsFirst {graph : FlowGraph}
    (begins : ∀ number < graph.blocks.length, beginsFirst (graph.code number) = true) (number : Nat)
    (front : List Instruction) (call : Instruction) (rest : List Instruction)
    (split : graph.code number = front ++ call :: rest) (code : call.opcode.code = Code.vaCall) :
    ∃ start ∈ front, start.opcode.code = Code.vaStart := by
  by_cases known : number < graph.blocks.length
  · have checked := begins number known
    rw [split] at checked
    exact exists_start_of_beginsFirst checked code
  · -- There is no code where there is no block.
    have absent : graph.blocks[number]? = none := List.getElem?_eq_none (by omega)
    simp [FlowGraph.code, FlowGraph.instructionsOf, absent] at split

/-- The machine after a call. -/
def CallMachine.called (machine : CallMachine) : CallMachine :=
  ⟨machine.pass Argument.value, machine.arguments, machine.atStart⟩

/-- Code that calls a function with a number and a register as arguments. -/
def passCode : List CodeSegment :=
  [⟨[0], [{ opcode := OpcodeTable.standard.get Code.leti, args := [.int 50, .int 9] },
      { opcode := OpcodeTable.standard.get Code.vaStart },
      { opcode := OpcodeTable.standard.get Code.argPushl, args := [.int 100] },
      { opcode := OpcodeTable.standard.get Code.argPushr, args := [.int 50] },
      { opcode := OpcodeTable.standard.get Code.vaCall, args := [.int 1] },
      { opcode := OpcodeTable.standard.get Code.ret }]⟩,
    ⟨[1], [{ opcode := OpcodeTable.standard.get Code.nop },
      { opcode := OpcodeTable.standard.get Code.ret }]⟩]

/-- The machine before the call, to which a register is passed. -/
def passMachine (register : Fin 256) : CallMachine :=
  ⟨Registers.set (fun _ => 0) register 9, [⟨100, none⟩, ⟨9, some register⟩],
    Registers.set (fun _ => 0) register 9⟩

/-- The register has not changed since the list of arguments was begun. -/
theorem settled_passMachine : (passMachine 50).Settled := by
  intro index _ argument found
  -- The list has two arguments, and nothing has changed for either of them.
  rcases index with _ | _ | index
  · cases found
    rfl
  · cases found
    rfl
  · cases found

/-- Control comes to the call with its arguments. -/
theorem runs_passCode :
    Runs Instruction.OperatesSettled (((FlowGraph.build passCode).code 0).take 4)
      ⟨fun _ => 0, [], fun _ => 0⟩ (passMachine 50) := by
  -- The register is set first, and the list of arguments begun.
  refine .next ⟨.other (by decide) (by decide)
    (@Instruction.Executes.store _ _ 50 9 (by decide) rfl rfl), fun code => by cases code⟩ ?_
  refine .next ⟨.start rfl (.declared (by decide) fun _ _ => rfl), fun code => by cases code⟩ ?_
  -- A number and the register are pushed, which still holds what was stored.
  refine .next ⟨.push (by decide) (by decide) (.declared (by decide) fun _ _ => rfl)
    (.given (by decide) rfl), fun code => by cases code⟩ ?_
  refine .next ⟨.push (by decide) (by decide) (.declared (by decide) fun _ _ => rfl)
    (@Instruction.Pushes.held _ (passMachine 50).registers 50 rfl rfl),
    fun code => by cases code⟩ ?_
  exact .done (passMachine 50)

/-- The arguments are passed. -/
theorem operates_passCode : ∃ call : Instruction,
    (FlowGraph.build passCode).code 0 = ((FlowGraph.build passCode).code 0).take 4 ++ [call] ∧
      call.opcode.code = Code.vaCall ∧
      call.Operates (fun _ => Argument.value) (passMachine 50) (passMachine 50).called :=
  ⟨{ opcode := OpcodeTable.standard.get Code.vaCall, args := [.int 1] }, rfl, rfl, .call rfl rfl⟩

/-- Control comes back from the function. -/
theorem arrives_passCode :
    (FlowGraph.build passCode).Arrives Instruction.OperatesSettled 1 (passMachine 50).called := by
  have enters : 2 ∈ (FlowGraph.build passCode).successors 0 := by decide
  have leaves : 1 ∈ (FlowGraph.build passCode).successors 2 := by decide
  -- The function is entered with what the call has passed.
  obtain ⟨call, split, code, operates⟩ := operates_passCode
  have entered :
      (FlowGraph.build passCode).Arrives Instruction.OperatesSettled 2 (passMachine 50).called := by
    refine .follow (.start ⟨fun _ => 0, [], fun _ => 0⟩ (by decide) rfl) ?_ enters
    rw [split]
    exact runs_passCode.append
      (.next ⟨operates, fun _ => settled_passMachine⟩ (.done (passMachine 50).called))
  -- It only returns, so the registers are still the same.
  refine .follow entered ?_ leaves
  refine .next ⟨.other (by decide) (by decide) (.declared (by decide) fun _ _ => rfl),
    fun code => by cases code⟩ ?_
  exact .next ⟨.other (by decide) (by decide) (.declared (by decide) fun _ _ => rfl),
    fun code => by cases code⟩ (.done (passMachine 50).called)

/-- The register is found as an argument, in the function and behind the call. -/
theorem registerValue_contains_passCode :
    (∀ segment ∈ passCode, ∀ instruction ∈ segment.instructions,
        instruction.opcode.code ≠ Code.muli) ∧
      (∀ number < (FlowGraph.build passCode).blocks.length,
        beginsFirst ((FlowGraph.build passCode).code number) = true) ∧
      (FlowGraph.build passCode).Arrives Instruction.OperatesSettled 1 (passMachine 50).called ∧
      (FlowGraph.build passCode).blockOf? ⟨0, 5⟩ = some 1 ∧
      ((FlowGraph.build passCode).registerValue ⟨0, 5⟩ (registerNumber 2)).1.contains 9 = true ∧
      ((FlowGraph.build passCode).registerValue ⟨1, 0⟩ (registerNumber 2)).1 = .of 9 ∧
      (((FlowGraph.build passCode).registerValue ⟨1, 0⟩ (registerNumber 2)).1.contains
          ((passMachine 50).called.registers 2) = true ↔
        (passMachine 50).called.registers 2 =
          (passMachine 50).pass (Argument.heldAt (passMachine 50).atStart) 2) := by
  -- None of the blocks multiplies, and each one with a call also begins its arguments.
  have productless : ∀ segment ∈ passCode, ∀ instruction ∈ segment.instructions,
      instruction.opcode.code ≠ Code.muli := by decide
  have begins : ∀ number < (FlowGraph.build passCode).blocks.length,
      beginsFirst ((FlowGraph.build passCode).code number) = true := by decide
  have place : (FlowGraph.build passCode).blockOf? ⟨0, 5⟩ = some 1 := rfl
  have entry : (FlowGraph.build passCode).blockOf? ⟨1, 0⟩ = some 2 := rfl
  have enters : 2 ∈ (FlowGraph.build passCode).successors 0 := by decide
  have single : ((FlowGraph.build passCode).registerValue ⟨1, 0⟩ (registerNumber 2)).1 = .of 9 := by
    cbv
  -- Control comes through the function to the place behind the call, and from the start to the
  -- call.
  obtain ⟨call, split, code, operates⟩ := operates_passCode
  have found := FlowGraph.registerValue_contains_of_settled productless
    (FlowGraph.begun_of_beginsFirst begins)
  have behind := found.1 arrives_passCode place (.done (passMachine 50).called) 2
  have inside := found.2 (.start ⟨fun _ => 0, [], fun _ => 0⟩ (by decide) rfl) split code
    runs_passCode operates enters entry rfl 2 9 single
  exact ⟨productless, begins, arrives_passCode, place, behind, single, inside⟩

/-- Code that changes the register between the start of the arguments and its push. -/
def lateCode : List CodeSegment :=
  [⟨[0], [{ opcode := OpcodeTable.standard.get Code.leti, args := [.int 50, .int 9] },
      { opcode := OpcodeTable.standard.get Code.vaStart },
      { opcode := OpcodeTable.standard.get Code.leti, args := [.int 50, .int 10] },
      { opcode := OpcodeTable.standard.get Code.argPushr, args := [.int 50] },
      { opcode := OpcodeTable.standard.get Code.vaCall, args := [.int 1] },
      { opcode := OpcodeTable.standard.get Code.ret }]⟩,
    ⟨[1], [{ opcode := OpcodeTable.standard.get Code.nop },
      { opcode := OpcodeTable.standard.get Code.ret }]⟩]

/-- The machine before the call, to which a register is passed. -/
def lateMachine (register : Fin 256) : CallMachine :=
  ⟨Registers.set (Registers.set (fun _ => 0) register 9) register 10, [⟨10, some register⟩],
    Registers.set (fun _ => 0) register 9⟩

/-- The function gets the register as it was pushed, and its older value is found. -/
theorem registerValue_not_contains_lateCode :
    (∀ segment ∈ lateCode, ∀ instruction ∈ segment.instructions,
        instruction.opcode.code ≠ Code.muli) ∧
      (∀ number front call rest,
        (FlowGraph.build lateCode).code number = front ++ call :: rest →
        call.opcode.code = Code.vaCall → ∃ start ∈ front, start.opcode.code = Code.vaStart) ∧
      (FlowGraph.build lateCode).Arrives (Instruction.Operates fun _ => Argument.value) 2
        (lateMachine 50).called ∧
      (FlowGraph.build lateCode).blockOf? ⟨1, 0⟩ = some 2 ∧
      (FlowGraph.build lateCode).codeBefore 2 0 = [] ∧
      ((FlowGraph.build lateCode).registerValue ⟨1, 0⟩ (registerNumber 1)).1.contains
        ((lateMachine 50).called.registers 1) = false := by
  -- Control follows the edge of the call, with the register changed between the start of the list
  -- and the push.
  refine ⟨by decide, FlowGraph.begun_of_beginsFirst (by decide), ?_, rfl, rfl, by cbv⟩
  have enters : 2 ∈ (FlowGraph.build lateCode).successors 0 := by decide
  refine .follow (.start ⟨fun _ => 0, [], fun _ => 0⟩ (by decide) rfl) ?_ enters
  -- The register is stored to, and the list of arguments begun.
  refine .next (.other (by decide) (by decide)
    (@Instruction.Executes.store _ _ 50 9 (by decide) rfl rfl)) ?_
  refine .next (.start rfl (.declared (by decide) fun _ _ => rfl)) ?_
  -- It changes before it is pushed, so the argument is the newer value.
  refine .next (.other (by decide) (by decide)
    (@Instruction.Executes.store _ _ 50 10 (by decide) rfl rfl)) ?_
  refine .next (.push (by decide) (by decide) (.declared (by decide) fun _ _ => rfl)
    (@Instruction.Pushes.held _ (lateMachine 50).registers 50 rfl rfl)) ?_
  exact .next (.call rfl rfl) (.done _)

end QuestScript
