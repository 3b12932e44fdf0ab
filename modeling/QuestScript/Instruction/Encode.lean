import QuestScript.Bytes.Words
import QuestScript.Instruction
import QuestScript.Report

/-! Writing instructions as bytes. -/

namespace QuestScript

/-- Why an instruction could not be written. -/
inductive EncodeError where
  /-- A parameter of this type has no spelling in bytes. -/
  | unsupportedParam (mnemonic : String) (index : Nat) (type : String)
  /-- A label is not a 16-bit word. -/
  | labelOutOfRange (value : Int32)
deriving DecidableEq, Repr

/-- What an encoding error says. -/
def EncodeError.message : EncodeError → String
  | unsupportedParam mnemonic index type =>
    s!"Parameter {index} of {mnemonic} has unsupported type {type}"
  | labelOutOfRange value => s!"Label value {value.toInt} doesn't fit into 16 bits"

namespace Arg

/-- The low byte of an argument. -/
def byteBytes (arg : Arg) : List UInt8 := [.ofNat arg.toInt32.toUInt32.toNat]

/-- The low word of an argument. -/
def wordBytes (arg : Arg) : List UInt8 := QuestScript.wordBytes (.ofNat arg.toInt32.toUInt32.toNat)

/-- A label, which has to be a word. -/
def labelBytes (arg : Arg) : Except EncodeError (List UInt8) :=
  let value := arg.toInt32.toInt
  if 0 ≤ value ∧ value ≤ 0xFFFF then .ok arg.wordBytes else .error (.labelOutOfRange arg.toInt32)

end Arg

namespace Param

/-- One item of a variadic parameter. -/
def encodeElement (param : Param) (arg : Arg) : Except EncodeError (List UInt8) :=
  match param.item with
  | .scalar (.label _) => arg.labelBytes
  | .scalar .word => .ok arg.wordBytes
  | _ => .ok arg.byteBytes

/-- The argument of the parameter at `index`, which is not variadic. -/
def encodeScalar (width : CharWidth) (mnemonic : String) (index : Nat) (param : Param) (arg : Arg) :
    Except EncodeError (List UInt8) :=
  match param.item with
  | .register | .tuple _ | .scalar .byte => .ok arg.byteBytes
  | .scalar .word => .ok arg.wordBytes
  | .scalar (.label _) => arg.labelBytes
  | .scalar .dword => .ok (doubleWordBytes arg.toInt32.toUInt32)
  | .scalar .float => .ok (doubleWordBytes arg.toSingle.bits)
  | .scalar .string => .ok (width.field arg.toText (width.terminatedSize arg.toText))
  | .scalar .pointer | .scalar .any => .error (.unsupportedParam mnemonic index param.typeName)

/-- The arguments of the parameter at `index`; nothing stands for an argument that is missing. -/
def encode (width : CharWidth) (mnemonic : String) (index : Nat) (param : Param) (args : List Arg) :
    Except EncodeError (List UInt8) :=
  if param.variadic then do
    let items ← args.mapM param.encodeElement
    return .ofNat args.length :: items.flatten
  else match args with
    | [] => .ok []
    | arg :: _ => param.encodeScalar width mnemonic index arg

end Param

/-- The arguments of some parameters, of which the first is at `index`. -/
def encodeOperands (width : CharWidth) (mnemonic : String) :
    Nat → List (Param × List Arg) → Except EncodeError (List UInt8)
  | _, [] => .ok []
  | index, (param, args) :: rest => do
    let first ← param.encode width mnemonic index args
    let others ← encodeOperands width mnemonic (index + 1) rest
    return first ++ others

/-- Warnings about the missing arguments of some parameters, up to one that cannot be written. -/
def missingArgs (width : CharWidth) (mnemonic : String) :
    Nat → List (Param × List Arg) → Journal
  | _, [] => []
  | index, (param, args) :: rest =>
    match param.encode width mnemonic index args with
    | .error _ => []
    | .ok _ =>
      let here := if param.variadic || !args.isEmpty then [] else
        [⟨.warning, .encoding, s!"No argument passed to {mnemonic} for parameter {index + 1}."⟩]
      here ++ missingArgs width mnemonic (index + 1) rest

namespace Instruction

/-- The bytes of an instruction. -/
def encode (width : CharWidth) (instruction : Instruction) : Except EncodeError (List UInt8) :=
  if instruction.opcode.pops then .ok instruction.opcode.codeBytes
  else do
    let stored ← encodeOperands width instruction.opcode.mnemonic 0 instruction.operands
    return instruction.opcode.codeBytes ++ stored

/-- What is logged while an instruction is written. -/
def encodeJournal (width : CharWidth) (instruction : Instruction) : Journal :=
  if instruction.opcode.pops then []
  else missingArgs width instruction.opcode.mnemonic 0 instruction.operands

end Instruction

end QuestScript
