import QuestScript.Discovery
import QuestScript.Proofs.Instruction.Spelling

/-! Code: instructions that are read and written one after the other. -/

namespace QuestScript

/-- A reader that reads some instructions and moves on to another place. -/
inductive Decodes (table : OpcodeTable) (width : CharWidth) :
    Reader → List Instruction → Reader → Prop where
  | nil (reader : Reader) : Decodes table width reader [] reader
  | cons {reader middle next : Reader} {instruction : Instruction}
    {instructions : List Instruction}
    (first : decodeInstruction table width reader = .ok instruction middle)
    (others : Decodes table width middle instructions next) :
    Decodes table width reader (instruction :: instructions) next

/-- Bytes of some instructions. -/
def codeSize (width : CharWidth) (instructions : List Instruction) : Nat :=
  (instructions.map (·.size width)).sum

/-- Arguments are read from bytes that follow each other. -/
theorem moves_of_decodeParams {width : CharWidth} {mnemonic : String} {params : List Param}
    {args : List Arg} {reader next : Reader}
    (read : decodeParams width mnemonic params reader = .ok args next) :
    ∃ bytes, reader.Moves bytes next := by
  -- The bytes are those of the first parameter and then those of the others.
  induction params generalizing reader args with
  | nil =>
    obtain ⟨-, rfl⟩ := pure_eq_ok read
    exact ⟨[], .refl reader⟩
  | cons param params ih =>
    obtain ⟨first, middle, readFirst, back⟩ := bind_eq_ok read
    obtain ⟨rest, stop, readRest, made⟩ := bind_eq_ok back
    obtain ⟨-, rfl⟩ := pure_eq_ok made
    obtain ⟨front, _, _, _, spelled⟩ := Param.spelled_of_decode readFirst
    obtain ⟨bytes, moved⟩ := ih readRest
    exact ⟨front ++ bytes, spelled.moves.trans moved⟩

/-- An instruction is read from at least one byte, whatever the table lists. -/
theorem moves_of_decodeInstruction {table : OpcodeTable} {width : CharWidth}
    {reader next : Reader} {instruction : Instruction}
    (read : decodeInstruction table width reader = .ok instruction next) :
    ∃ bytes, 0 < bytes.length ∧ reader.Moves bytes next := by
  obtain ⟨code, middle, args, readCode, readArgs, -⟩ := decodeInstruction_eq_ok read
  have moved := (moves_of_decodeCode readCode).2 (table.get code) (table.get_code code)
  -- The code alone takes a byte.
  have front := (table.get code).size_pos
  rw [← Opcode.codeBytes_length] at front
  unfold Opcode.decodeArgs at readArgs
  split at readArgs
  · obtain ⟨-, rfl⟩ := pure_eq_ok readArgs
    exact ⟨_, front, moved⟩
  · obtain ⟨bytes, more⟩ := moves_of_decodeParams readArgs
    refine ⟨_, ?_, moved.trans more⟩
    rw [List.length_append]
    omega

namespace Decodes

variable {table : OpcodeTable} {width : CharWidth} {reader next : Reader}
  {instructions : List Instruction}

/-- Code is written as it was read, up to the terminators of its strings. -/
theorem spelled (last : table.VariadicLast) (run : Decodes table width reader instructions next) :
    ∃ bytes pieces, instructions.mapM (·.encode width) = .ok pieces ∧
      pieces.flatten.length = codeSize width instructions ∧
        Spelled width reader next bytes pieces.flatten
          (∀ instruction ∈ instructions, instruction.WellTyped table width)
          (codeCut? width instructions) := by
  -- Every instruction starts where the one before it has ended.
  induction run with
  | nil reader => exact ⟨[], [], rfl, rfl, .of_moves (.refl reader) (by simp)⟩
  | cons first others ih =>
    obtain ⟨bytes, written, encoded, size, -, front⟩ := spelled_of_decodeInstruction last first
    obtain ⟨otherBytes, pieces, otherEncoded, otherSize, back⟩ := ih
    refine ⟨bytes ++ otherBytes, written :: pieces, ?_, ?_, ?_⟩
    · rw [List.mapM_cons, encoded, otherEncoded]
      rfl
    · rw [List.flatten_cons, List.length_append, size, otherSize]
      rfl
    · rw [codeCut?, List.flatten_cons, ← size]
      refine (front.append back).imp fun typed => ?_
      exact List.forall_mem_cons.mpr typed

end Decodes

/-- The instructions that fill a reader's bytes are read from all of them. -/
theorem decodes_of_decodeAllSteps {table : OpcodeTable} {width : CharWidth} {steps : Nat}
    {reader : Reader} {instructions : List Instruction} (enough : reader.rest.length ≤ steps)
    (run : decodeAllSteps table width steps reader = .ok instructions) :
    ∃ next, Decodes table width reader instructions next ∧ next.rest = [] := by
  -- A step is taken for every instruction, and each of these has a byte at least.
  induction steps generalizing reader instructions with
  | zero =>
    cases run
    exact ⟨reader, .nil reader, List.length_eq_zero_iff.mp (by omega)⟩
  | succ steps ih =>
    simp only [decodeAllSteps] at run
    split at run
    · rename_i none
      cases run
      exact ⟨reader, .nil reader, List.isEmpty_iff.mp none⟩
    · split at run
      · cases run
      · rename_i instruction middle first
        -- One step and at least one byte are used up.
        obtain ⟨bytes, positive, moved⟩ := moves_of_decodeInstruction first
        have rest := congrArg List.length moved.rest
        rw [List.length_append] at rest
        obtain ⟨others, back, made⟩ := except_bind_eq_ok run
        cases made
        obtain ⟨next, decoded, done⟩ := ih (by omega) back
        exact ⟨next, .cons first decoded, done⟩

namespace Source

/-- The instructions of a segment are read until its end is reached, and a strict parse logs nothing
about them. -/
theorem decodes_of_decodeSegmentSteps {source : Source} (strict : source.options.lenient = false)
    {start stop steps : Nat} {reader : Reader} {instructions : List Instruction} {journal : Journal}
    (enough : stop ≤ reader.position + steps)
    (run : source.decodeSegmentSteps start stop steps reader = .ok (instructions, journal)) :
    journal = [] ∧ ∃ next, Decodes source.opcodes source.options.width reader instructions next ∧
      stop ≤ next.position := by
  -- The position grows with every step, so that the end is reached before the steps run out.
  induction steps generalizing reader instructions journal with
  | zero =>
    cases run
    exact ⟨rfl, reader, .nil reader, by omega⟩
  | succ steps ih =>
    simp only [decodeSegmentSteps] at run
    split at run
    · rename_i reached
      cases run
      exact ⟨rfl, reader, .nil reader, reached⟩
    · split at run
      · rename_i instruction middle first
        obtain ⟨bytes, positive, moved⟩ := moves_of_decodeInstruction first
        have position := moved.position
        obtain ⟨⟨others, log⟩, back, made⟩ := except_bind_eq_ok run
        cases made
        obtain ⟨rfl, next, decoded, reached⟩ := ih (by omega) back
        exact ⟨rfl, next, .cons first decoded, reached⟩
      · -- What cannot be decoded ends a strict parse.
        simp [strict] at run

/-- Well-typed instructions are read back as a segment that they fill exactly. -/
theorem decodeSegmentSteps_encode {source : Source} (last : source.opcodes.VariadicLast)
    {instructions : List Instruction} {pieces : List (List UInt8)}
    (typed : ∀ instruction ∈ instructions,
      instruction.WellTyped source.opcodes source.options.width)
    (written : instructions.mapM (·.encode source.options.width) = .ok pieces) (start steps : Nat)
    (position : Nat) (rest : List UInt8) (enough : pieces.flatten.length ≤ steps) :
    source.decodeSegmentSteps start (position + pieces.flatten.length) steps
      ⟨position, pieces.flatten ++ rest⟩ = .ok (instructions, []) := by
  induction instructions generalizing pieces steps position with
  | nil =>
    cases written
    cases steps <;> simp [decodeSegmentSteps]
  | cons instruction instructions ih =>
    -- The first instruction takes its own bytes, and the others start behind them.
    obtain ⟨front, encoded, positive, read⟩ :=
      decodeInstruction_encode last (typed instruction List.mem_cons_self)
    obtain ⟨piece, others, same, back, rfl⟩ := mapM_cons_eq_ok written
    obtain rfl : front = piece := Except.ok.inj (encoded.symm.trans same)
    rw [List.flatten_cons, List.length_append] at enough ⊢
    cases steps with
    | zero => omega
    | succ steps =>
      -- The end is not reached before the first instruction has been read.
      have before : ¬position + (front.length + others.flatten.length) ≤ position := by omega
      have followed := ih (fun other found => typed other (List.mem_cons_of_mem _ found)) back steps
        (position + front.length) (by omega)
      rw [Nat.add_assoc] at followed
      simp only [decodeSegmentSteps, before, if_false, List.append_assoc,
        read position (others.flatten ++ rest), followed]
      rfl

end Source

end QuestScript
