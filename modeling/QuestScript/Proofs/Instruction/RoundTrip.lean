import QuestScript.Proofs.Instruction.WellTyped
import QuestScript.Proofs.Opcode
import QuestScript.Script.Encode

/-! Code that is written as a segment is read back from its bytes. -/

namespace QuestScript

/-- A byte that announces no other is a code of its own. -/
theorem decodeCode_short {first : UInt8} (alone : opensLongCode first = false) (position : Nat)
    (rest : List UInt8) :
    decodeCode ⟨position, first :: rest⟩ = .ok (.ofNat first.toNat) ⟨position + 1, rest⟩ := by
  have read : Reader.u8 ⟨position, first :: rest⟩ = .ok first ⟨position + 1, rest⟩ := rfl
  -- The byte is read, and no other one after it.
  rw [decodeCode, bind_of_ok read, alone]
  rfl

/-- A byte that announces another one is the high byte of a code. -/
theorem decodeCode_long {first : UInt8} (announces : opensLongCode first = true) (second : UInt8)
    (position : Nat) (rest : List UInt8) :
    decodeCode ⟨position, first :: second :: rest⟩ =
      .ok (.ofNat (256 * first.toNat + second.toNat)) ⟨position + 2, rest⟩ := by
  have read : Reader.u8 ⟨position, first :: second :: rest⟩ =
      .ok first ⟨position + 1, second :: rest⟩ := rfl
  have readNext : Reader.u8 ⟨position + 1, second :: rest⟩ = .ok second ⟨position + 2, rest⟩ := rfl
  -- The second byte is read after the first one.
  rw [decodeCode, bind_of_ok read, announces, if_pos rfl, bind_of_ok readNext]
  rfl

/-- The bytes of a code that a script can have are read back as that code. -/
theorem decodeCode_codeBytes (opcode : Opcode) (reachable : isReachableCode opcode.code = true)
    (position : Nat) (rest : List UInt8) :
    decodeCode ⟨position, opcode.codeBytes ++ rest⟩ =
      .ok opcode.code ⟨position + opcode.codeBytes.length, rest⟩ := by
  have small : opcode.code.toNat < 65536 := opcode.code.toNat_lt
  have high : (UInt8.ofNat (opcode.code.toNat / 256)).toNat = opcode.code.toNat / 256 := by
    rw [UInt8.toNat_ofNat']
    omega
  -- The high byte says which of both forms a code has.
  unfold isReachableCode at reachable
  unfold Opcode.codeBytes
  by_cases short : opcode.code ≤ 0xFF
  · -- A short code is a single byte that announces no other.
    have below : opcode.code.toNat ≤ 255 := UInt16.le_iff_toNat_le.mp short
    have zero : UInt8.ofNat (opcode.code.toNat / 256) = 0 := by
      rw [← UInt8.toNat_inj, high]
      change opcode.code.toNat / 256 = 0
      omega
    simp only [zero, if_true, Bool.not_eq_true'] at reachable
    have value : UInt16.ofNat (UInt8.ofNat opcode.code.toNat).toNat = opcode.code := by
      rw [UInt8.toNat_ofNat_of_lt' (by change _ < 256; omega), UInt16.ofNat_toNat]
    rw [if_pos short, List.cons_append, decodeCode_short reachable, value]
    rfl
  · -- A long code is announced by its first byte.
    have above : ¬opcode.code.toNat ≤ 255 := fun below => short (UInt16.le_iff_toNat_le.mpr below)
    have nonzero : ¬UInt8.ofNat (opcode.code.toNat / 256) = 0 := by
      rw [← UInt8.toNat_inj, high]
      change ¬opcode.code.toNat / 256 = 0
      omega
    simp only [nonzero, if_false] at reachable
    have value : UInt16.ofNat (256 * (UInt8.ofNat (opcode.code.toNat / 256)).toNat +
        (UInt8.ofNat opcode.code.toNat).toNat) = opcode.code := by
      rw [high, UInt8.toNat_ofNat', ← UInt16.toNat_inj, UInt16.toNat_ofNat']
      omega
    rw [if_neg short, List.cons_append, List.cons_append, decodeCode_long reachable, value]
    rfl

/-- A well-typed instruction is written, and read back whatever follows it. -/
theorem decodeInstruction_encode {table : OpcodeTable} {width : CharWidth}
    {instruction : Instruction} (last : table.VariadicLast)
    (typed : instruction.WellTyped table width) :
    ∃ bytes, instruction.encode width = .ok bytes ∧ 0 < bytes.length ∧
      ∀ position rest, decodeInstruction table width ⟨position, bytes ++ rest⟩ =
        .ok instruction ⟨position + bytes.length, rest⟩ := by
  obtain ⟨opcode, args, valid⟩ := instruction
  obtain ⟨rfl, ⟨code, reachable, rfl⟩, fits⟩ := typed
  -- An instruction starts with its code, by which the table gives back its opcode.
  have front := (table.get code).size_pos
  have readCode := decodeCode_codeBytes (table.get code) (by simpa using reachable)
  simp only [OpcodeTable.get_code] at readCode
  by_cases pops : (table.get code).pops = true
  · -- Nothing is stored with an opcode that pops.
    rw [if_pos pops] at fits
    obtain rfl : args = [] := fits
    refine ⟨(table.get code).codeBytes, by rw [Instruction.encode, if_pos pops], by simpa, ?_⟩
    intro position rest
    have noArgs : (table.get code).decodeArgs width
        ⟨position + (table.get code).codeBytes.length, rest⟩ = .ok []
          ⟨position + (table.get code).codeBytes.length, rest⟩ := by
      rw [Opcode.decodeArgs, if_pos pops]
      rfl
    simp only [decodeInstruction, readCode, noArgs]
  · -- The arguments stand right after the code.
    rw [if_neg pops] at fits
    obtain ⟨stored, written, read⟩ := decodeParams_encodeOperands (table.get code).mnemonic
      (last code) fits
    refine ⟨(table.get code).codeBytes ++ stored, ?_, ?_, ?_⟩
    · rw [Instruction.encode, if_neg pops]
      simp only [Instruction.operands, written]
      rfl
    · rw [List.length_append, Opcode.codeBytes_length]
      omega
    · intro position rest
      have readArgs : (table.get code).decodeArgs width
          ⟨position + (table.get code).codeBytes.length, stored ++ rest⟩ = .ok args
            ⟨position + (table.get code).codeBytes.length + stored.length, rest⟩ := by
        rw [Opcode.decodeArgs, if_neg pops, read]
      simp only [decodeInstruction, List.append_assoc, readCode, readArgs, List.length_append,
        Nat.add_assoc]

/-- Well-typed instructions are written, and read back one after the other. -/
theorem decodeAllSteps_encode {table : OpcodeTable} {width : CharWidth} (last : table.VariadicLast)
    {instructions : List Instruction}
    (typed : ∀ instruction ∈ instructions, instruction.WellTyped table width) :
    ∃ pieces, instructions.mapM (·.encode width) = .ok pieces ∧
      ∀ steps position, pieces.flatten.length ≤ steps →
        decodeAllSteps table width steps ⟨position, pieces.flatten⟩ = .ok instructions := by
  -- What is left to read is always the bytes of the instructions that are left.
  induction instructions with
  | nil =>
    refine ⟨[], rfl, fun steps position _ => ?_⟩
    cases steps <;> rfl
  | cons instruction instructions ih =>
    obtain ⟨front, written, nonempty, read⟩ :=
      decodeInstruction_encode last (typed instruction List.mem_cons_self)
    obtain ⟨pieces, writtenOthers, readOthers⟩ :=
      ih fun other found => typed other (List.mem_cons_of_mem _ found)
    refine ⟨front :: pieces, ?_, fun steps position enough => ?_⟩
    · rw [List.mapM_cons, written, writtenOthers]
      rfl
    · rw [List.flatten_cons, List.length_append] at enough
      -- There is a byte to read, and so there is a step left to read it in.
      cases steps with
      | zero => omega
      | succ steps =>
        have more : (front ++ pieces.flatten).isEmpty = false := by
          cases front with
          | nil => cases nonempty
          | cons byte front => rfl
        simp only [decodeAllSteps, List.flatten_cons, more, Bool.false_eq_true, if_false,
          read position pieces.flatten, readOthers steps _ (by omega)]
        rfl

/-- Decoding undoes encoding.

Well-typed instructions that are written as one segment are exactly those that its bytes are read
as, for every table that a configuration describes. -/
theorem decodeRange_encode_code {config : Config} {table : OpcodeTable}
    (described : config.opcodeTable = .ok table) (width : CharWidth) (labels : LabelSet)
    (instructions : List Instruction)
    (typed : ∀ instruction ∈ instructions, instruction.WellTyped table width) :
    ∃ encoded, Script.encode width ⟨[⟨labels, .code instructions⟩]⟩ = .ok encoded ∧
      decodeRange encoded.bytes 0 encoded.bytes.length table width = .ok instructions := by
  obtain ⟨pieces, written, read⟩ :=
    decodeAllSteps_encode (Config.opcodeTable_variadicLast described) typed
  -- A segment of code is the bytes of its instructions, and they make up the whole script.
  have segment : Segment.encode width ⟨labels, .code instructions⟩ = .ok pieces.flatten := by
    simp only [Segment.encode, written]
    rfl
  have encoded : Script.encode width ⟨[⟨labels, .code instructions⟩]⟩ =
      .ok ⟨[pieces.flatten].flatten, labelTable [(labels, 0)]⟩ := by
    rw [Script.encode, List.mapM_cons, segment, List.mapM_nil]
    rfl
  refine ⟨_, encoded, ?_⟩
  -- The range is all the bytes, which are those of the only segment.
  have whole : ∀ bytes : List UInt8, Reader.within bytes 0 bytes.length = ⟨0, bytes⟩ := by
    intro bytes
    simp [Reader.within]
  simp only [decodeRange, whole, List.flatten_cons, List.flatten_nil, List.append_nil]
  exact read _ 0 (Nat.le_refl _)

/-- A configuration with an opcode that takes a floating-point number and any count of labels. -/
def turnConfig : Config := { opcodes := [⟨0xF8AA, "turn", ["float", "ilabel..."], .none⟩] }

/-- The table that it describes. -/
def turnTable : OpcodeTable :=
  OpcodeTable.standard.insert (.plain 0xF8AA "turn" [{ item := .scalar .float }, .codeLabels])

/-- Instructions with a code of two bytes, a text, arguments on the stack, and an unlisted code. -/
def turnCode : List Instruction :=
  [{ opcode := turnTable.get 0xF8AA, args := [.float ⟨0x7FC00001⟩, .int 0, .int 65535] },
    { opcode := turnTable.get Code.argPushs, args := [.string "a😀"] },
    { opcode := turnTable.get Code.message },
    { opcode := turnTable.get 0xF9FF }]

/-- The configuration is accepted. -/
theorem opcodeTable_turnConfig : turnConfig.opcodeTable = .ok turnTable := by cbv

/-- The instructions have the arguments that their opcodes take. -/
theorem wellTyped_turnCode :
    ∀ instruction ∈ turnCode, instruction.WellTyped turnTable .wide := by
  simp only [turnCode, List.forall_mem_cons, List.not_mem_nil, false_implies, implies_true, and_true]
  -- Each opcode is listed, or stands in for one, under a code that can be read.
  refine ⟨⟨rfl, ⟨0xF8AA, by decide, rfl⟩, ?_⟩, ⟨rfl, ⟨0x4E, by decide, rfl⟩, ?_⟩,
    ⟨rfl, ⟨0x50, by decide, rfl⟩, ?_⟩, ⟨rfl, ⟨0xF9FF, by decide, rfl⟩, ?_⟩⟩
  · cbv
  · cbv
  · cbv
  · cbv

/-- Wide text, a number that is none, and labels up to the greatest come back from their bytes. -/
theorem decodeRange_encode_turnCode :
    turnConfig.opcodeTable = .ok turnTable ∧
      (∀ instruction ∈ turnCode, instruction.WellTyped turnTable .wide) ∧
      ∃ encoded, Script.encode .wide ⟨[⟨[3], .code turnCode⟩]⟩ = .ok encoded ∧
        decodeRange encoded.bytes 0 encoded.bytes.length turnTable .wide = .ok turnCode :=
  -- All arguments are in the range of their types, also at its ends.
  ⟨opcodeTable_turnConfig, wellTyped_turnCode,
    decodeRange_encode_code opcodeTable_turnConfig .wide [3] turnCode wellTyped_turnCode⟩

end QuestScript
