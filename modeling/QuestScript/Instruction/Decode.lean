import QuestScript.Bytes.Reader
import QuestScript.Instruction

/-! Reading instructions from bytes. -/

namespace QuestScript

/-- Bytes that the string of one instruction takes at most. -/
def maxStringSize : Nat := 4096

/-- The next code, of one or two bytes. -/
def decodeCode : Decoding UInt16 := do
  let first ← Reader.u8
  if opensLongCode first then
    let second ← Reader.u8
    return .ofNat (256 * first.toNat + second.toNat)
  else return .ofNat first.toNat

namespace Param

/-- The items of a variadic parameter, after their count. -/
def decodeVariadic (param : Param) : Decoding (List Arg) := do
  let count ← Reader.u8
  if param.elementSize = 2 then
    return (← Reader.u16s count.toNat).map fun word => .int (.ofNat word.toNat)
  else
    return (← Reader.take count.toNat).map fun byte => .int (.ofNat byte.toNat)

/-- The argument of a parameter that is not variadic. -/
def decodeScalar (width : CharWidth) (mnemonic : String) (param : Param) : Decoding Arg := do
  match param.item with
  | .register | .tuple _ | .scalar .byte => return .int (.ofNat (← Reader.u8).toNat)
  | .scalar .word | .scalar (.label _) => return .int (.ofNat (← Reader.u16).toNat)
  | .scalar .dword => return .int (← Reader.u32).toInt32
  | .scalar .float => return .float ⟨← Reader.u32⟩
  | .scalar .string => return .string (← Reader.string width maxStringSize false)
  | .scalar .pointer | .scalar .any => throw (.unsupportedParam mnemonic param.typeName)

/-- The arguments of a parameter. -/
def decode (width : CharWidth) (mnemonic : String) (param : Param) : Decoding (List Arg) :=
  if param.variadic then param.decodeVariadic
  else return [← param.decodeScalar width mnemonic]

end Param

/-- The arguments of some parameters. -/
def decodeParams (width : CharWidth) (mnemonic : String) : List Param → Decoding (List Arg)
  | [] => return []
  | param :: params => do
    let first ← param.decode width mnemonic
    let others ← decodeParams width mnemonic params
    return first ++ others

/-- The arguments stored with an opcode; one that pops has none. -/
def Opcode.decodeArgs (width : CharWidth) (opcode : Opcode) : Decoding (List Arg) :=
  if opcode.pops then return [] else decodeParams width opcode.mnemonic opcode.params

/-- Why an instruction could not be decoded, and its opcode if that was read. -/
structure InstructionError where
  opcode : Option Opcode
  cause : DecodeError
deriving DecidableEq, Repr

/-- The next instruction. -/
def decodeInstruction (table : OpcodeTable) (width : CharWidth) :
    EStateM InstructionError Reader Instruction := fun reader =>
  match decodeCode reader with
  | .error cause next => .error ⟨none, cause⟩ next
  | .ok code next =>
    let opcode := table.get code
    match opcode.decodeArgs width next with
    | .error cause next => .error ⟨some opcode, cause⟩ next
    | .ok args next => .ok { opcode, args } next

/-- The instructions that fill the bytes of a reader, for as many steps as given.

Every instruction has a byte at least, so as many steps as bytes suffice. -/
def decodeAllSteps (table : OpcodeTable) (width : CharWidth) :
    Nat → Reader → Except DecodeError (List Instruction)
  | 0, _ => .ok []
  | steps + 1, reader =>
    if reader.rest.isEmpty then .ok []
    else match decodeInstruction table width reader with
      | .error failure _ => .error failure.cause
      | .ok instruction next => do
        return instruction :: (← decodeAllSteps table width steps next)

/-- The instructions that fill a range, none of which may cross its end. -/
def decodeRange (bytes : List UInt8) (start stop : Nat) (table : OpcodeTable) (width : CharWidth) :
    Except DecodeError (List Instruction) :=
  let reader := Reader.within bytes start stop
  decodeAllSteps table width reader.rest.length reader

end QuestScript
