import QuestScript.Proofs.Opcode
import QuestScript.Proofs.Steps
import QuestScript.Proofs.Text.Width
import QuestScript.Script.Encode

/-! The bytes that a script is written in are those of its size, less what is counted for arguments
that are missing. -/

namespace QuestScript

namespace Param

variable {width : CharWidth} {mnemonic : String} {index : Nat} {param : Param}

/-- Bytes that are counted for a missing argument, for which none are written. -/
def omitted (width : CharWidth) (param : Param) (args : List Arg) : Nat :=
  if !param.variadic && args.isEmpty then param.storedSize width args else 0

/-- A label is written in two bytes. -/
theorem labelBytes_length {arg : Arg} {bytes : List UInt8} (written : arg.labelBytes = .ok bytes) :
    bytes.length = 2 := by
  -- Only a label that is a word is written at all.
  simp only [Arg.labelBytes] at written
  split at written
  · cases written
    rfl
  · cases written

/-- An item of a variadic parameter is written in as many bytes as its items have. -/
theorem encodeElement_length {arg : Arg} {bytes : List UInt8}
    (written : param.encodeElement arg = .ok bytes) : bytes.length = param.elementSize := by
  obtain ⟨item, variadic, access⟩ := param
  -- Labels and words have two bytes, and all else has one.
  cases item with
  | register =>
    cases written
    rfl
  | tuple elements =>
    cases written
    rfl
  | scalar type =>
    cases type with
    | label kind => exact labelBytes_length written
    | byte | word | dword | float | string | pointer | any =>
      cases written
      rfl

/-- Items are written one after the other. -/
theorem encodeElements_length {args : List Arg} {items : List (List UInt8)}
    (written : args.mapM param.encodeElement = .ok items) :
    items.flatten.length = param.elementSize * args.length := by
  induction args generalizing items with
  | nil =>
    cases written
    rfl
  | cons arg args ih =>
    obtain ⟨first, others, front, back, rfl⟩ := mapM_cons_eq_ok written
    -- The first item adds its own size to that of the others.
    simp only [List.flatten_cons, List.length_append, List.length_cons, encodeElement_length front,
      ih back, Nat.mul_succ]
    omega

/-- A single argument is written in the bytes of its parameter. -/
theorem encodeScalar_length {arg : Arg} {rest : List Arg} {bytes : List UInt8}
    (single : ¬param.variadic = true)
    (written : param.encodeScalar width mnemonic index arg = .ok bytes) :
    bytes.length = param.storedSize width (arg :: rest) := by
  obtain ⟨item, variadic, access⟩ := param
  obtain rfl : variadic = false := by simpa using single
  -- How an argument is written depends on the type of its parameter alone.
  cases item with
  | register =>
    cases written
    rfl
  | tuple elements =>
    cases written
    rfl
  | scalar type =>
    cases type with
    | byte =>
      cases written
      rfl
    | word =>
      cases written
      rfl
    | dword =>
      cases written
      rfl
    | float =>
      cases written
      rfl
    | label kind => exact labelBytes_length written
    | string =>
      -- A string has a field of its own size.
      cases written
      exact CharWidth.field_length _ _ _
    | pointer => cases written
    | any => cases written

/-- What is written for a parameter has the size of its arguments, less that of a missing one. -/
theorem encode_length {args : List Arg} {bytes : List UInt8}
    (written : param.encode width mnemonic index args = .ok bytes) :
    bytes.length + param.omitted width args = param.storedSize width args := by
  unfold encode at written
  split at written
  · rename_i variadic
    -- The count stands in front of the items, so that none of them can be missing.
    obtain ⟨items, encoded, made⟩ := except_bind_eq_ok written
    cases made
    simp only [omitted, storedSize, variadic, List.length_cons, encodeElements_length encoded,
      Bool.not_true, Bool.false_and, Bool.false_eq_true, if_true, if_false]
    omega
  · rename_i single
    cases args with
    | nil =>
      cases written
      simp [omitted, single]
    | cons arg rest =>
      -- One argument is enough, whatever follows it.
      simp only [omitted, List.isEmpty_cons, Bool.and_false, Bool.false_eq_true, if_false,
        Nat.add_zero]
      exact encodeScalar_length single written

end Param

/-- Bytes that are counted for the missing ones among some arguments. -/
def operandsOmitted (width : CharWidth) (operands : List (Param × List Arg)) : Nat :=
  (operands.map fun operand => operand.1.omitted width operand.2).sum

/-- What is written for some parameters has the size of their arguments, less that of missing ones. -/
theorem encodeOperands_length {width : CharWidth} {mnemonic : String} {index : Nat}
    {operands : List (Param × List Arg)} {bytes : List UInt8}
    (written : encodeOperands width mnemonic index operands = .ok bytes) :
    bytes.length + operandsOmitted width operands =
      (operands.map fun operand => operand.1.storedSize width operand.2).sum := by
  -- The parameters are written one after the other.
  induction operands generalizing index bytes with
  | nil =>
    cases written
    rfl
  | cons operand rest ih =>
    obtain ⟨first, encoded, back⟩ := except_bind_eq_ok written
    obtain ⟨others, encodedOthers, made⟩ := except_bind_eq_ok back
    cases made
    have front := Param.encode_length encoded
    have behind := ih encodedOthers
    simp only [operandsOmitted] at behind
    simp only [operandsOmitted, List.length_append, List.map_cons, List.sum_cons]
    omega

namespace Instruction

variable {width : CharWidth}

/-- Bytes that are counted for the missing arguments of an instruction. -/
def omitted (width : CharWidth) (instruction : Instruction) : Nat :=
  if instruction.opcode.pops then 0 else operandsOmitted width instruction.operands

/-- An instruction is written in the bytes of its size, less those of missing arguments. -/
theorem encode_length {instruction : Instruction} {bytes : List UInt8}
    (written : instruction.encode width = .ok bytes) :
    bytes.length + instruction.omitted width = instruction.size width := by
  unfold encode at written
  split at written
  · -- Nothing is stored with an opcode that pops.
    rename_i pops
    cases written
    simp [omitted, size, pops]
  · rename_i stores
    obtain ⟨stored, encoded, made⟩ := except_bind_eq_ok written
    cases made
    have back := encodeOperands_length encoded
    simp only [omitted, size, stores, List.length_append, Opcode.codeBytes_length,
      Bool.false_eq_true, if_false, ← List.sum_eq_foldr]
    omega

/-- Code is written in the bytes of its size, less those of missing arguments. -/
theorem encodeAll_length {instructions : List Instruction} {pieces : List (List UInt8)}
    (written : instructions.mapM (·.encode width) = .ok pieces) :
    pieces.flatten.length + (instructions.map (·.omitted width)).sum =
      (instructions.map (·.size width)).sum := by
  induction instructions generalizing pieces with
  | nil =>
    cases written
    rfl
  | cons instruction instructions ih =>
    obtain ⟨first, others, front, back, rfl⟩ := mapM_cons_eq_ok written
    -- What is left out of the first instruction adds to what is left out of the others.
    have firstSize := encode_length front
    have otherSizes := ih back
    simp only [List.flatten_cons, List.length_append, List.map_cons, List.sum_cons]
    omega

end Instruction

/-- The instructions of a segment; only code has any. -/
def Segment.instructions (segment : Segment) : List Instruction :=
  match segment.content with
  | .code instructions => instructions
  | _ => []

/-- A segment is written in the bytes of its size, less those of missing arguments. -/
theorem Segment.encode_length {width : CharWidth} {segment : Segment} {bytes : List UInt8}
    (written : segment.encode width = .ok bytes) :
    bytes.length + (segment.instructions.map (·.omitted width)).sum = segment.size width := by
  obtain ⟨labels, content⟩ := segment
  cases content with
  | code instructions =>
    obtain ⟨pieces, encoded, made⟩ := except_bind_eq_ok written
    cases made
    exact Instruction.encodeAll_length encoded
  | data data =>
    -- Data is its own spelling.
    cases written
    rfl
  | text value stored =>
    cases written
    exact CharWidth.field_length _ _ _

namespace Script

variable {width : CharWidth}

/-- All instructions of a script. -/
def instructions (script : Script) : List Instruction :=
  script.segments.flatMap Segment.instructions

/-- Bytes that are counted for the missing arguments of a script. -/
def omitted (width : CharWidth) (script : Script) : Nat :=
  (script.instructions.map (·.omitted width)).sum

/-- Segments are written one after the other. -/
theorem encodeSegments_length {segments : List Segment} {pieces : List (List UInt8)}
    (written : segments.mapM (·.encode width) = .ok pieces) :
    pieces.flatten.length + (⟨segments⟩ : Script).omitted width =
      (⟨segments⟩ : Script).size width := by
  induction segments generalizing pieces with
  | nil =>
    cases written
    rfl
  | cons segment segments ih =>
    -- The bytes of the first segment come first, and what is missing adds up.
    obtain ⟨first, others, front, back, rfl⟩ := mapM_cons_eq_ok written
    have firstSize := Segment.encode_length front
    have otherSizes := ih back
    simp only [omitted, instructions, size, ← List.sum_eq_foldr] at otherSizes
    simp only [omitted, instructions, size, List.flatten_cons, List.length_append, List.flatMap_cons,
      List.map_append, List.sum_append, List.map_cons, List.sum_cons, ← List.sum_eq_foldr]
    omega

/-- A script is written in the bytes of its size, less those of missing arguments. -/
theorem encode_length {script : Script} {encoded : EncodedScript}
    (written : script.encode width = .ok encoded) :
    encoded.bytes.length + script.omitted width = script.size width := by
  -- The bytes are the joined pieces of the segments.
  obtain ⟨pieces, wrote, made⟩ := except_bind_eq_ok written
  cases made
  exact encodeSegments_length wrote

/-- Nothing is missing from a script exactly if nothing is from each of its instructions. -/
theorem omitted_eq_zero_iff {script : Script} :
    script.omitted width = 0 ↔
      ∀ instruction ∈ script.instructions, instruction.omitted width = 0 := by
  simp [omitted, List.sum_eq_zero_iff_forall_eq_nat]

end Script

end QuestScript
