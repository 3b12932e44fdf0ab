import QuestScript.Param
import QuestScript.Text.Hex

/-! Opcodes: the kinds of instructions, and the tables that list them. -/

namespace QuestScript

/-- What an instruction does to the argument stack. -/
inductive StackEffect where
  | none
  /-- Its argument goes onto the stack. -/
  | push
  /-- Its arguments come from the stack, and none are stored with it. -/
  | pop
deriving DecidableEq, Repr

/-- The word for a stack effect. -/
def StackEffect.name : StackEffect → String
  | none => "none"
  | push => "push"
  | pop => "pop"

/-- A kind of instruction. -/
structure Opcode where
  code : UInt16
  mnemonic : String
  params : List Param := []
  stack : StackEffect := .none
  /-- Whether a table lists it. -/
  known : Bool := true
deriving DecidableEq, Repr

/-- Whether a byte announces a second byte of the code. -/
def opensLongCode (byte : UInt8) : Bool := byte == 0xF8 || byte == 0xF9

namespace Opcode

/-- The stand-in for a code that a table does not list. -/
def unknown (code : UInt16) : Opcode :=
  { code
    mnemonic := "unknown_" ++ hexDigits (if code ≤ 0xFF then 2 else 4) code.toNat
    known := false }

/-- Bytes of the code. -/
def size (opcode : Opcode) : Nat := if opcode.code ≤ 0xFF then 1 else 2

/-- The bytes of the code; the high byte comes first. -/
def codeBytes (opcode : Opcode) : List UInt8 :=
  if opcode.code ≤ 0xFF then [.ofNat opcode.code.toNat]
  else [.ofNat (opcode.code.toNat / 256), .ofNat opcode.code.toNat]

/-- Whether arguments come from the stack. -/
def pops (opcode : Opcode) : Bool := opcode.stack == .pop

/-- Whether its argument goes onto the stack. -/
def pushes (opcode : Opcode) : Bool := opcode.stack == .push

end Opcode

/-- A table of opcodes: all that were ever entered, the latest first. -/
structure OpcodeTable where
  entered : List Opcode
deriving Repr

namespace OpcodeTable

/-- The table without opcodes. -/
def empty : OpcodeTable := ⟨[]⟩

/-- The table with one more opcode, which takes the place of an older one with its code. -/
def insert (table : OpcodeTable) (opcode : Opcode) : OpcodeTable :=
  ⟨opcode :: table.entered⟩

/-- The table of some opcodes, where later ones take the place of earlier ones. -/
def ofList (opcodes : List Opcode) : OpcodeTable := opcodes.foldl insert empty

/-- The opcode listed for a code. -/
def find? (table : OpcodeTable) (code : UInt16) : Option Opcode :=
  table.entered.find? (·.code == code)

/-- The opcode for a code, a stand-in if none is listed. -/
def get (table : OpcodeTable) (code : UInt16) : Opcode :=
  (table.find? code).getD (.unknown code)

/-- Whether a code is listed. -/
def contains (table : OpcodeTable) (code : UInt16) : Bool := (table.find? code).isSome

/-- The opcode now listed for the code that a mnemonic was last entered with. -/
def byMnemonic? (table : OpcodeTable) (mnemonic : String) : Option Opcode :=
  (table.entered.find? (·.mnemonic == mnemonic)).bind fun opcode => table.find? opcode.code

/-- Codes in a table. -/
def size (table : OpcodeTable) : Nat := (table.entered.map (·.code)).eraseDups.length

end OpcodeTable

end QuestScript
