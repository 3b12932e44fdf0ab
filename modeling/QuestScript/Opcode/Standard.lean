import QuestScript.Opcode

/-! The core instruction set, and the opcodes whose parameters refer to labels. -/

namespace QuestScript

namespace Code

/-- The codes that are referred to by name. -/
@[simp] def nop : UInt16 := 0x00
@[simp] def ret : UInt16 := 0x01
@[simp] def sync : UInt16 := 0x02
@[simp] def exit : UInt16 := 0x03
@[simp] def thread : UInt16 := 0x04
@[simp] def vaStart : UInt16 := 0x05
@[simp] def vaEnd : UInt16 := 0x06
@[simp] def vaCall : UInt16 := 0x07
@[simp] def letr : UInt16 := 0x08
@[simp] def leti : UInt16 := 0x09
@[simp] def letb : UInt16 := 0x0A
@[simp] def letw : UInt16 := 0x0B
@[simp] def set : UInt16 := 0x10
@[simp] def clear : UInt16 := 0x11
@[simp] def rev : UInt16 := 0x12
@[simp] def addi : UInt16 := 0x19
@[simp] def subi : UInt16 := 0x1B
@[simp] def muli : UInt16 := 0x1D
@[simp] def divi : UInt16 := 0x1F
@[simp] def jmp : UInt16 := 0x28
@[simp] def call : UInt16 := 0x29
@[simp] def jmpOn : UInt16 := 0x2A
@[simp] def jmpOff : UInt16 := 0x2B
@[simp] def jmpE : UInt16 := 0x2C
@[simp] def jmpiLe : UInt16 := 0x3F
@[simp] def switchJmp : UInt16 := 0x40
@[simp] def switchCall : UInt16 := 0x41
@[simp] def stackPushm : UInt16 := 0x44
@[simp] def stackPopm : UInt16 := 0x45
@[simp] def argPushr : UInt16 := 0x48
@[simp] def argPushl : UInt16 := 0x49
@[simp] def argPushb : UInt16 := 0x4A
@[simp] def argPushw : UInt16 := 0x4B
@[simp] def argPusha : UInt16 := 0x4C
@[simp] def argPusho : UInt16 := 0x4D
@[simp] def argPushs : UInt16 := 0x4E
@[simp] def message : UInt16 := 0x50
@[simp] def ifZoneClear : UInt16 := 0x88
@[simp] def setFloorHandler : UInt16 := 0x95
@[simp] def getDifflvl : UInt16 := 0xB9
@[simp] def syncLeti : UInt16 := 0xD9
@[simp] def getSlotnumber : UInt16 := 0xE6
@[simp] def getNpcData : UInt16 := 0xF841
@[simp] def getRandom : UInt16 := 0xF89A
@[simp] def npcActionString : UInt16 := 0xF8DC
@[simp] def loadUnkData : UInt16 := 0xF8F2

/-- The codes of the comparing jumps, from equality to the last comparison with an immediate. -/
def isComparingJump (code : UInt16) : Bool := jmpE ≤ code && code ≤ jmpiLe

end Code

namespace Param

def byte : Param := { item := .scalar .byte }
def word : Param := { item := .scalar .word }
def dword : Param := { item := .scalar .dword }
def string : Param := { item := .scalar .string }
def label (kind : LabelKind) : Param := { item := .scalar (.label kind) }
def codeLabel : Param := label .code
def codeLabels : Param := { item := .scalar (.label .code), variadic := true }
def registerReads : Param := { item := .register, variadic := true, access := some .read }
def register (access : Access) : Param := { item := .register, access := some access }

/-- One register of the given type. -/
def reg (type : ScalarType) (access : Access) : Param := { item := .tuple [⟨type, access⟩] }

/-- Consecutive registers that are only read. -/
def tuple (types : List ScalarType) : Param :=
  { item := .tuple (types.map fun type => ⟨type, .read⟩) }

/-- A place and a radius with the code to run there. -/
def coordinates : Param := tuple [.dword, .dword, .dword, .dword, .label .code]

end Param

namespace Opcode

def plain (code : UInt16) (mnemonic : String) (params : List Param) : Opcode :=
  { code, mnemonic, params }

def pushing (code : UInt16) (mnemonic : String) (params : List Param) : Opcode :=
  { code, mnemonic, params, stack := .push }

def popping (code : UInt16) (mnemonic : String) (params : List Param) : Opcode :=
  { code, mnemonic, params, stack := .pop }

/-- Opcodes with a code and parameters of their own. -/
def core : List Opcode :=
  [ plain Code.nop "nop" [],
    plain Code.ret "ret" [],
    plain Code.sync "sync" [],
    popping Code.exit "exit" [.dword],
    plain Code.thread "thread" [.codeLabel],
    plain Code.vaStart "va_start" [],
    plain Code.vaEnd "va_end" [],
    plain Code.vaCall "va_call" [.codeLabel],
    plain Code.letr "let" [.reg .dword .write, .reg .dword .read],
    plain Code.leti "leti" [.reg .dword .write, .dword],
    plain Code.letb "letb" [.reg .byte .write, .byte],
    plain Code.letw "letw" [.reg .word .write, .word],
    plain 0x0C "leta" [.reg .pointer .write, .reg .any .read],
    plain 0x0D "leto" [.reg .pointer .write, .label .any],
    plain Code.set "set" [.reg .dword .write],
    plain Code.clear "clear" [.reg .dword .write],
    plain Code.rev "rev" [.reg .dword .readWrite],
    plain 0x13 "gset" [.word],
    plain 0x14 "gclear" [.word],
    plain 0x15 "grev" [.word],
    plain 0x16 "glet" [.word],
    plain 0x17 "gget" [.word, .reg .word .write],
    plain Code.jmp "jmp" [.codeLabel],
    plain Code.call "call" [.codeLabel],
    plain Code.jmpOn "jmp_on" [.codeLabel, .registerReads],
    plain Code.jmpOff "jmp_off" [.codeLabel, .registerReads],
    plain Code.switchJmp "switch_jmp" [.reg .dword .read, .codeLabels],
    plain Code.switchCall "switch_call" [.reg .dword .read, .codeLabels],
    plain 0x42 "stack_push" [.reg .any .read],
    plain 0x43 "stack_pop" [.reg .any .write],
    plain Code.stackPushm "stack_pushm" [.register .read, .dword],
    plain Code.stackPopm "stack_popm" [.register .write, .dword],
    pushing Code.argPushr "arg_pushr" [.reg .any .read],
    pushing Code.argPushl "arg_pushl" [.dword],
    pushing Code.argPushb "arg_pushb" [.byte],
    pushing Code.argPushw "arg_pushw" [.word],
    pushing Code.argPusha "arg_pusha" [.reg .any .read],
    pushing Code.argPusho "arg_pusho" [.label .any],
    pushing Code.argPushs "arg_pushs" [.string],
    popping Code.message "message" [.dword, .string],
    plain 0x51 "list" [.reg .byte .write, .string],
    plain 0x52 "fadein" [],
    plain 0x53 "fadeout" [],
    popping 0x5A "window_msg" [.string],
    popping 0x5B "add_msg" [.string],
    plain 0x5C "mesend" [],
    plain 0x66 "npc_crp_v3" [.tuple [.any, .any, .any, .label .code, .any, .any]],
    plain Code.ifZoneClear "if_zone_clear" [.reg .dword .write, .tuple [.dword, .dword]],
    plain 0x8C "at_coords_call" [.coordinates],
    plain 0x8D "at_coords_talk" [.coordinates],
    plain 0x8E "col_npcin" [.coordinates],
    popping Code.setFloorHandler "set_floor_handler" [.dword, .codeLabel],
    popping 0x96 "clr_floor_handler" [.dword],
    plain 0xA1 "set_qt_failure" [.codeLabel],
    plain 0xA2 "set_qt_success" [.codeLabel],
    plain 0xA5 "set_qt_cancel" [.codeLabel],
    plain Code.getDifflvl "get_difflvl" [.reg .dword .write],
    plain 0xBA "set_qt_exit" [.codeLabel],
    plain Code.syncLeti "sync_leti" [.reg .dword .write, .dword],
    plain Code.getSlotnumber "get_slotnumber" [.reg .dword .write],
    plain Code.getNpcData "get_npc_data" [.label .data],
    plain Code.getRandom "get_random" [.tuple [.dword, .dword], .reg .dword .write],
    plain Code.npcActionString "npc_action_string"
      [.reg .dword .read, .reg .dword .read, .label .text],
    popping Code.loadUnkData "load_unk_data"
      [.dword, .dword, .dword, .dword, .reg .dword .read, .label .data] ]

/-- Arithmetic with a register, and then with an immediate. -/
def arithmetic : List Opcode :=
  let forms (name : String) (code : UInt16) : List Opcode :=
    [ plain code name [.reg .dword .write, .reg .dword .read],
      plain (code + 1) (name ++ "i") [.reg .dword .write, .dword] ]
  forms "add" 0x18 ++ forms "sub" 0x1A ++ forms "mul" 0x1C ++ forms "div" 0x1E ++
    forms "and" 0x20 ++ forms "or" 0x22 ++ forms "xor" 0x24 ++ forms "mod" 0x26

/-- Jumps that compare two registers, and then a register with an immediate. -/
def comparing : List Opcode :=
  let forms (sign relation : String) (type : ScalarType) (code : UInt16) : List Opcode :=
    [ plain code (sign ++ "jmp_" ++ relation) [.reg type .read, .reg type .read, .codeLabel],
      plain (code + 1) (sign ++ "jmpi_" ++ relation) [.reg .dword .read, .dword, .codeLabel] ]
  forms "" "=" .any Code.jmpE ++ forms "" "!=" .any 0x2E ++ forms "u" ">" .dword 0x30 ++
    forms "" ">" .dword 0x32 ++ forms "u" "<" .dword 0x34 ++ forms "" "<" .dword 0x36 ++
    forms "u" ">=" .dword 0x38 ++ forms "" ">=" .dword 0x3A ++ forms "u" "<=" .dword 0x3C ++
    forms "" "<=" .dword 0x3E

end Opcode

/-- The table of the core instruction set. -/
def OpcodeTable.standard : OpcodeTable :=
  .ofList (Opcode.core ++ Opcode.arithmetic ++ Opcode.comparing)

end QuestScript
