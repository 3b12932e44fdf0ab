import Mathlib
import QuestScript.Proofs.Flow.Register
import QuestScript.Proofs.Opcode

/-! What the register analysis makes of the opcodes of a configuration.

An opcode can be declared to change registers by a reference, by any number of them, or by a tuple.
The analysis notices the tuples, unless there can be any number of them, and passes over the rest: a
register that only such a parameter changes still counts as having its older value. -/

namespace QuestScript

/-- A configuration that only adds codes keeps the standard opcodes. -/
theorem Config.get_of_standard {config : Config} {table : OpcodeTable}
    (described : config.opcodeTable = .ok table)
    (adds : ∀ entry ∈ config.opcodes, OpcodeTable.standard.contains entry.code = false)
    {code : UInt16} (standard : OpcodeTable.standard.contains code = true) :
    table.get code = OpcodeTable.standard.get code := by
  refine OpcodeTable.get_of_addEntries described ?_
  -- An entry with this code would not be an addition.
  rintro entry listed rfl
  rw [adds entry listed] at standard
  cases standard

/-- Whether each of the consecutive registers changes that an argument of a parameter stands for. -/
def Param.marks (param : Param) : List Bool :=
  match param.item with
  | .scalar _ => []
  | .register => [param.writes]
  | .tuple elements => elements.map (·.access.writes)

namespace Instruction

variable {instruction : Instruction} {register : Fin 256}

/-- An instruction is declared to change a register: it is one of those that an argument of a
parameter stands for, and is marked there. -/
def Declares (instruction : Instruction) (register : Fin 256) : Prop :=
  ∃ operand ∈ instruction.operands, ∃ (first : Int32) (step : Nat), .int first ∈ operand.2 ∧
    operand.1.marks[step]? = some true ∧ first.toInt + step = register.val

/-- An instruction may change a register. -/
inductive Changes (instruction : Instruction) (register : Fin 256) : Prop where
  | sync (code : instruction.opcode.code = Code.sync)
  | call (code : instruction.opcode.code = Code.vaCall) (passed : 1 ≤ register.val)
    (last : register.val ≤ 7)
  | span (code : instruction.opcode.code ∈ [Code.stackPushm, Code.stackPopm])
    (spans : instruction.Spans register)
  | declared (declares : instruction.Declares register)

/-- What a tuple changes is declared. -/
theorem Writes.declares (writes : instruction.Writes register) : instruction.Declares register := by
  obtain ⟨operand, listed, first, step, element, head, found, marked, same⟩ := writes
  refine ⟨operand, listed, first, step, ?_, ?_, same⟩
  · -- The first argument is the only one that counts for a tuple.
    obtain ⟨arg, front, value⟩ := Option.bind_eq_some_iff.mp head
    cases arg with
    | int number =>
      cases value
      exact List.mem_of_mem_head? front
    | float _ => cases value
    | string _ => cases value
  · have tuple : operand.1.item = .tuple operand.1.registers := by
      unfold Param.registers at found ⊢
      split
      · assumption
      · simp_all
    simp [Param.marks, tuple, found, marked]

end Instruction

/-- The parameters stand in order. -/
theorem map_fst_operandsOf (params : List Param) (args : List Arg) :
    (operandsOf params args).map (·.1) = params := by
  induction params generalizing args with
  | nil => rfl
  -- An absent argument leaves the parameter where it is.
  | cons param params ih => simp [operandsOf, ih]

/-- The codes that do something of their own to the register of a parameter, with its number. -/
def Code.targeting : List (UInt16 × Nat) :=
  [(letr, 0), (leti, 0), (letb, 0), (letw, 0), (set, 0), (clear, 0), (rev, 0), (addi, 0), (subi, 0),
    (muli, 0), (divi, 0), (ifZoneClear, 0), (getDifflvl, 0), (syncLeti, 0), (getSlotnumber, 0),
    (getRandom, 1)]

/-- The standard table lists all codes that do something of their own to registers. -/
theorem standard_contains_operating :
    ∀ code ∈ Code.operating, OpcodeTable.standard.contains code = true := by
  -- There are finitely many codes, each of which is looked up.
  have checked : Code.operating.all OpcodeTable.standard.contains = true := by cbv
  exact List.all_eq_true.mp checked

/-- It also declares what they do to the register of a parameter. -/
theorem standard_marks_targeting : ∀ target ∈ Code.targeting,
    ((OpcodeTable.standard.get target.1).params[target.2]?.bind fun param => param.marks[0]?) =
      some true := by decide

namespace Instruction

variable {instruction : Instruction} {register : Fin 256}

/-- A parameter that marks its first register declares that this changes. -/
theorem declares_of_targets {index : Nat} (targets : instruction.Targets index register)
    (marks : (instruction.opcode.params[index]?.bind fun param => param.marks[0]?) = some true) :
    instruction.Declares register := by
  unfold Targets intArg? argsFor at targets
  split at targets
  · rename_i operand found
    -- The parameter of that number is the one that its operand stands with.
    have param : instruction.opcode.params[index]? = some operand.1 := by
      rw [← map_fst_operandsOf instruction.opcode.params instruction.args, List.getElem?_map]
      exact congrArg (Option.map (·.1)) found
    rw [param, Option.bind_some] at marks
    obtain ⟨arg, front, value⟩ := Option.bind_eq_some_iff.mp targets
    refine ⟨operand, List.mem_of_getElem? found, registerNumber register, 0, ?_, marks, by simp⟩
    cases arg with
    | int number =>
      cases value
      exact List.mem_of_mem_head? front
    | float _ => cases value
    | string _ => cases value
  · cases targets

/-- What is done to the register of the first parameter is done by one of these codes. -/
theorem mem_targeting_of_targetEffect? {effect : RegisterEffect}
    (does : instruction.targetEffect? = some effect) :
    (instruction.opcode.code, 0) ∈ Code.targeting := by
  -- All entries of the table are about the first parameter.
  have inside : ∀ code ∈ targetEffects.map (·.1), (code, 0) ∈ Code.targeting := by
    simp [targetEffects, Code.targeting]
  exact inside _ (code_mem_targetEffects does)

/-- An instruction that cannot change a register has no effect on it, if the standard opcodes are
those of the standard table. -/
theorem effectOn?_eq_none {table : OpcodeTable}
    (keeps : ∀ code, OpcodeTable.standard.contains code = true →
      table.get code = OpcodeTable.standard.get code)
    (listed : instruction.opcode = table.get instruction.opcode.code)
    (unchanged : ¬instruction.Changes register) :
    instruction.effectOn? (registerNumber register) = none := by
  have undeclared : instruction.declaredEffect? (registerNumber register) = none := by
    refine if_neg fun writes => unchanged (.declared ?_)
    exact (declaresWrite_iff.mp writes).declares
  -- A register that a code of its own changes is declared by the standard opcode.
  have untargeted : ∀ index, (instruction.opcode.code, index) ∈ Code.targeting →
      ¬instruction.intArg? index = some (registerNumber register) := by
    intro index target targets
    have operating : instruction.opcode.code ∈ Code.operating := by
      have inside : ∀ target ∈ Code.targeting, target.1 ∈ Code.operating := by decide
      exact inside _ target
    have marks := standard_marks_targeting _ target
    rw [← keeps _ (standard_contains_operating _ operating), ← listed] at marks
    exact unchanged (.declared (declares_of_targets targets marks))
  simp only [effectOn?]
  -- The codes stand in the order of the definition, and those without a case of their own are last.
  repeat' split
  · exact absurd (.sync ‹_›) unchanged
  · -- A call, which passes its arguments in the registers from one to seven.
    rename_i code passed
    rw [toInt_registerNumber] at passed
    exact absurd (.call code (by omega) (by omega)) unchanged
  · rfl
  · rename_i code covers
    exact absurd (.span (by simpa using code) (coversRegister_iff.mp covers)) unchanged
  · rfl
  · -- The random number above another one, whose register comes second.
    rename_i code target
    exact absurd target (untargeted 1 (by simp [code, Code.targeting]))
  · exact undeclared
  · rename_i target
    cases does : instruction.targetEffect? with
    | none => rw [Option.none_or, undeclared]
    | some effect => exact absurd target (untargeted 0 (mem_targeting_of_targetEffect? does))
  · exact undeclared

/-- An opcode that the standard table lacks does to a register what it declares by tuples. -/
theorem effectOn?_of_added (added : OpcodeTable.standard.contains instruction.opcode.code = false)
    (number : Int32) : instruction.effectOn? number = instruction.declaredEffect? number := by
  -- The codes with a meaning of their own are all in the standard table.
  refine effectOn?_of_not_operating fun operating => ?_
  rw [standard_contains_operating _ operating] at added
  cases added

/-- A number that is stored in a register is its value. -/
theorem effectOn?_of_store {value : Int32} (code : instruction.opcode.code = Code.leti)
    (into : instruction.Targets 0 register) (given : instruction.intArg? 1 = some value) :
    instruction.effectOn? (registerNumber register) = some (.constant (.of value)) := by
  -- The table gives the number as the effect, before anything declared is considered.
  have does : instruction.targetEffect? = some (.constant (.of value)) := by
    simp [targetEffect?, targetEffects, code, effectOf, given]
  rw [effectOn?_of_target does, into, if_pos rfl, does, Option.some_or]

end Instruction

section Search

variable {find : List Instruction → Int32 → Searching ValueSet} {onward : Searching ValueSet}
  {register : Int32}

/-- Instructions without an effect on a register are passed over. -/
theorem lastValue_append {front back : List Instruction}
    (untouched : ∀ instruction ∈ front, instruction.effectOn? register = none) :
    lastValue find onward register (front ++ back) = lastValue find onward register back := by
  induction front with
  | nil => rfl
  | cons instruction front ih =>
    -- The first one is passed over, and then the others.
    have here := untouched instruction List.mem_cons_self
    rw [List.cons_append, lastValue, here]
    exact ih fun other listed => untouched other (List.mem_cons_of_mem _ listed)

/-- A search for a register of a block first looks through the instructions there. -/
theorem registerValue_eq_lastValue {graph : FlowGraph} {ref : InstructionRef} {block : Nat}
    {register : Fin 256} (place : graph.blockOf? ref = some block) :
    ∃ onward, (graph.registerValue ref (registerNumber register)).1 =
      ((lastValue (registerBefore graph maxVisits [] block) onward (registerNumber register)
        (graph.instructionsBefore block ref.index)).run { visits := 1 }).1 := by
  -- The number of a register is in bounds, so the search does not give up at once.
  have bound := register.isLt
  have inside : 0 ≤ (registerNumber register).toInt ∧ (registerNumber register).toInt ≤ 255 := by
    rw [toInt_registerNumber]
    omega
  unfold FlowGraph.registerValue searchRegister
  rw [place]
  simp only [registerBefore]
  rw [if_pos inside]
  exact ⟨_, rfl⟩

end Search

/-- Behind an instruction of an added opcode, nothing is known of a register that a tuple of it is
declared to change. If none is, then the value of the register is still the one that was stored
before, whatever else the opcode declares about it. -/
theorem FlowGraph.registerValue_of_added {config : Config} {table : OpcodeTable}
    (described : config.opcodeTable = .ok table)
    (adds : ∀ entry ∈ config.opcodes, OpcodeTable.standard.contains entry.code = false)
    {segments : List CodeSegment}
    (listed : ∀ segment ∈ segments, ∀ instruction ∈ segment.instructions,
      instruction.opcode = table.get instruction.opcode.code)
    {ref : InstructionRef} {block : Nat} (place : (build segments).blockOf? ref = some block)
    {front between rest : List Instruction} {store instruction : Instruction}
    (order : (build segments).codeBefore block ref.index =
      front ++ store :: (between ++ instruction :: rest))
    {register : Fin 256} {value : Int32} (stores : store.opcode.code = Code.leti)
    (into : store.Targets 0 register) (given : store.intArg? 1 = some value) {entry : OpcodeEntry}
    (added : entry ∈ config.opcodes) (named : instruction.opcode.code = entry.code)
    (kept : ∀ other ∈ rest, ¬other.Changes register) :
    (instruction.Writes register →
      ((build segments).registerValue ref (registerNumber register)).1 = .all) ∧
    (¬instruction.Writes register → (∀ other ∈ between, ¬other.Changes register) →
      ((build segments).registerValue ref (registerNumber register)).1 = .of value) := by
  have reversed : (build segments).instructionsBefore block ref.index =
      rest.reverse ++ instruction :: (between.reverse ++ store :: front.reverse) := by
    rw [← List.reverse_reverse ((build segments).instructionsBefore block ref.index)]
    rw [show ((build segments).instructionsBefore block ref.index).reverse = _ from order]
    simp
  -- What cannot change the register is passed over.
  have passed : ∀ other, other ∈ between ∨ other ∈ rest → ¬other.Changes register →
      other.effectOn? (registerNumber register) = none := by
    intro other inside unchanged
    have found : other ∈ (build segments).instructionsBefore block ref.index := by
      rw [reversed]
      simp only [List.mem_append, List.mem_cons, List.mem_reverse]
      tauto
    obtain ⟨segment, known, member⟩ := mem_of_mem_instructionsBefore found
    exact Instruction.effectOn?_eq_none (fun _ => Config.get_of_standard described adds)
      (listed segment known other member) unchanged
  have effect : instruction.effectOn? (registerNumber register) =
      instruction.declaredEffect? (registerNumber register) :=
    Instruction.effectOn?_of_added (by rw [named, adds entry added]) _
  obtain ⟨onward, found⟩ := registerValue_eq_lastValue place
  rw [found, reversed, lastValue_append fun other later =>
    passed other (.inr (List.mem_reverse.mp later)) (kept other (List.mem_reverse.mp later))]
  -- Then the added instruction is the next one to look at.
  constructor
  · intro writes
    have unknown : instruction.effectOn? (registerNumber register) = some .unknown := by
      rw [effect]
      exact if_pos (Instruction.declaresWrite_iff.mpr writes)
    rw [lastValue, unknown]
    rfl
  · intro unseen unchanged
    have nothing : instruction.effectOn? (registerNumber register) = none := by
      rw [effect]
      exact if_neg fun writes => unseen (Instruction.declaresWrite_iff.mp writes)
    -- The instruction is passed over like those before it, back to the stored value.
    have untouched : ∀ other ∈ instruction :: between.reverse,
        other.effectOn? (registerNumber register) = none := by
      intro other inside
      rcases List.mem_cons.mp inside with rfl | earlier
      · exact nothing
      · have member := List.mem_reverse.mp earlier
        exact passed other (.inl member) (unchanged other member)
    rw [← List.cons_append, lastValue_append untouched, lastValue,
      Instruction.effectOn?_of_store stores into given]
    rfl

/-- A configuration with opcodes that change the second of two registers, and one or any number of
registers. -/
def probeConfig : Config :=
  { opcodes := [⟨0xF8A0, "probe_pair", ["reg(dword, dword:rw)"], .none⟩,
      ⟨0xF8A1, "probe", ["reg:w"], .none⟩, ⟨0xF8A2, "probe_all", ["reg:rw..."], .none⟩] }

/-- The table that it describes. -/
def probeTable : OpcodeTable :=
  ((OpcodeTable.standard.insert (.plain 0xF8A0 "probe_pair"
      [{ item := .tuple [⟨.dword, .read⟩, ⟨.dword, .readWrite⟩] }])).insert
    (.plain 0xF8A1 "probe" [.register .write])).insert
    (.plain 0xF8A2 "probe_all" [{ item := .register, variadic := true, access := some .readWrite }])

/-- The configuration is accepted. -/
theorem opcodeTable_probeConfig : probeConfig.opcodeTable = .ok probeTable := by cbv

/-- Its codes are not among the standard ones. -/
theorem adds_probeConfig :
    ∀ entry ∈ probeConfig.opcodes, OpcodeTable.standard.contains entry.code = false := by decide

/-- Code that stores a number in a register, and then changes it as the second of a pair. -/
def pairCode : List CodeSegment :=
  [⟨[0], [{ opcode := probeTable.get Code.leti, args := [.int 1, .int 5] },
    { opcode := probeTable.get 0xF8A0, args := [.int 0] },
    { opcode := probeTable.get Code.ret }]⟩]

/-- Nothing is known of the register behind the pair. -/
theorem registerValue_pairCode :
    probeConfig.opcodeTable = .ok probeTable ∧
      (∀ entry ∈ probeConfig.opcodes, OpcodeTable.standard.contains entry.code = false) ∧
      (∀ segment ∈ pairCode, ∀ instruction ∈ segment.instructions,
        instruction.opcode = probeTable.get instruction.opcode.code) ∧
      (FlowGraph.build pairCode).blockOf? ⟨0, 2⟩ = some 0 ∧
      Instruction.Writes { opcode := probeTable.get 0xF8A0, args := [.int 0] } 1 ∧
      ((FlowGraph.build pairCode).registerValue ⟨0, 2⟩ (registerNumber 1)).1 = .all := by
  have listed : ∀ segment ∈ pairCode, ∀ instruction ∈ segment.instructions,
      instruction.opcode = probeTable.get instruction.opcode.code := by decide
  have place : (FlowGraph.build pairCode).blockOf? ⟨0, 2⟩ = some 0 := rfl
  have order : (FlowGraph.build pairCode).codeBefore 0 2 =
      [] ++ { opcode := probeTable.get Code.leti, args := [.int 1, .int 5] } ::
        ([] ++ { opcode := probeTable.get 0xF8A0, args := [.int 0] } :: []) := rfl
  -- The second register of the pair is the one behind the first.
  have writes : Instruction.Writes { opcode := probeTable.get 0xF8A0, args := [.int 0] } 1 :=
    ⟨_, List.mem_cons_self, 0, 1, ⟨.dword, .readWrite⟩, rfl, rfl, rfl, rfl⟩
  have into : Instruction.Targets
      { opcode := probeTable.get Code.leti, args := [.int 1, .int 5] } 0 1 := rfl
  have added : ⟨0xF8A0, "probe_pair", ["reg(dword, dword:rw)"], .none⟩ ∈ probeConfig.opcodes :=
    List.mem_cons_self
  have found := FlowGraph.registerValue_of_added opcodeTable_probeConfig adds_probeConfig listed
    place order rfl into rfl added rfl (by simp)
  exact ⟨opcodeTable_probeConfig, adds_probeConfig, listed, place, writes, found.1 writes⟩

/-- Code that stores numbers in two registers, and then changes one of them by itself, and the other
as one of many. -/
def probeCode : List CodeSegment :=
  [⟨[0], [{ opcode := probeTable.get Code.leti, args := [.int 1, .int 5] },
    { opcode := probeTable.get Code.leti, args := [.int 2, .int 6] },
    { opcode := probeTable.get 0xF8A1, args := [.int 1] },
    { opcode := probeTable.get 0xF8A2, args := [.int 3, .int 2] },
    { opcode := probeTable.get Code.ret }]⟩]

/-- The older values are found for both registers, although they are declared to change. -/
theorem registerValue_probeCode :
    probeConfig.opcodeTable = .ok probeTable ∧
      (∀ entry ∈ probeConfig.opcodes, OpcodeTable.standard.contains entry.code = false) ∧
      (FlowGraph.build probeCode).code 0 =
        [{ opcode := probeTable.get Code.leti, args := [.int 1, .int 5] },
          { opcode := probeTable.get Code.leti, args := [.int 2, .int 6] },
          { opcode := probeTable.get 0xF8A1, args := [.int 1] },
          { opcode := probeTable.get 0xF8A2, args := [.int 3, .int 2] },
          { opcode := probeTable.get Code.ret }] ∧
      Instruction.Declares { opcode := probeTable.get 0xF8A1, args := [.int 1] } 1 ∧
      Instruction.Declares { opcode := probeTable.get 0xF8A2, args := [.int 3, .int 2] } 2 ∧
      ((FlowGraph.build probeCode).registerValue ⟨0, 3⟩ (registerNumber 1)).1 = .of 5 ∧
      ((FlowGraph.build probeCode).registerValue ⟨0, 4⟩ (registerNumber 2)).1 = .of 6 := by
  -- One is marked to be written, and the other to be read and written with all of its kind.
  refine ⟨opcodeTable_probeConfig, adds_probeConfig, rfl, ?_, ?_, by cbv, by cbv⟩
  · exact ⟨_, List.mem_cons_self, 1, 0, List.mem_cons_self, rfl, rfl⟩
  · exact ⟨_, List.mem_cons_self, 2, 0, by simp, rfl, rfl⟩

end QuestScript
