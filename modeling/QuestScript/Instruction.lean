import QuestScript.Number.Single
import QuestScript.Opcode
import QuestScript.Text.Quoted
import QuestScript.Text.Width

/-! Instructions: an opcode with its arguments. -/

namespace QuestScript

/-- An argument of an instruction. -/
inductive Arg where
  | int (value : Int32)
  | float (value : Single)
  | string (text : String)
deriving DecidableEq, Repr

namespace Arg

/-- The value of a whole-number argument. -/
def int? : Arg → Option Int32
  | int value => some value
  | _ => none

/-- The argument as a whole number; a text counts as zero. -/
def toInt32 : Arg → Int32
  | int value => value
  | float value => value.toInt32
  | string _ => 0

/-- The argument as a floating-point number; a text counts as zero. -/
def toSingle : Arg → Single
  | int value => .ofInt32 value
  | float value => value
  | string _ => .zero

/-- The argument as a text. -/
def toText : Arg → String
  | int value => toString value.toInt
  | float value => value.plainText
  | string text => text

/-- The argument as a listing shows it. -/
def listing : Arg → String
  | int value => toString value.toInt
  | float value => value.listingText
  | string text => quoted text

/-- Equality of values, by which what is no number differs from itself. -/
def same : Arg → Arg → Bool
  | int a, int b => a == b
  | float a, float b => a.same b
  | string a, string b => a == b
  | _, _ => false

end Arg

/-- An instruction; its arguments stand in the order of the parameters, those of a variadic one side
by side. -/
structure Instruction where
  opcode : Opcode
  args : List Arg := []
  /-- Whether the arguments could be decoded. -/
  valid : Bool := true
deriving DecidableEq, Repr

/-- Parameters with their arguments.

Every parameter before a variadic one has a single argument, so each starts one argument after the
one before it. -/
def operandsOf : List Param → List Arg → List (Param × List Arg)
  | [], _ => []
  | param :: params, args =>
    (param, if param.variadic then args else args.take 1) :: operandsOf params (args.drop 1)

/-- Bytes of a parameter's arguments; an argument that is missing counts as if it were there. -/
def Param.storedSize (width : CharWidth) (param : Param) (args : List Arg) : Nat :=
  if param.variadic then 1 + param.elementSize * args.length
  else match param.item with
    | .register | .tuple _ | .scalar .byte => 1
    | .scalar .word | .scalar (.label _) => 2
    | .scalar .dword | .scalar .float => 4
    | .scalar .string =>
      match args with
      | [] => width.unitSize
      | arg :: _ => width.terminatedSize arg.toText
    | .scalar .pointer | .scalar .any => 0

namespace Instruction

/-- An instruction whose arguments could not be decoded. -/
def undecoded (opcode : Opcode) : Instruction := { opcode, valid := false }

/-- The parameters with their arguments. -/
def operands (instruction : Instruction) : List (Param × List Arg) :=
  operandsOf instruction.opcode.params instruction.args

/-- The arguments of a parameter. -/
def argsFor (instruction : Instruction) (index : Nat) : List Arg :=
  match instruction.operands[index]? with
  | some operand => operand.2
  | none => []

/-- The first argument of a parameter, if it is a whole number. -/
def intArg? (instruction : Instruction) (index : Nat) : Option Int32 :=
  (instruction.argsFor index).head?.bind Arg.int?

/-- Bytes of an instruction. -/
def size (width : CharWidth) (instruction : Instruction) : Nat :=
  if instruction.opcode.pops then instruction.opcode.size
  else instruction.opcode.size +
    (instruction.operands.map fun operand => operand.1.storedSize width operand.2).foldr (· + ·) 0

/-- The arguments as a listing shows them. -/
def operandText (instruction : Instruction) : String :=
  ", ".intercalate (instruction.args.map Arg.listing)

/-- The instruction as a listing shows it. -/
def listing (instruction : Instruction) : String :=
  if instruction.args.isEmpty then instruction.opcode.mnemonic
  else instruction.opcode.mnemonic ++ " " ++ instruction.operandText

/-- Equality of codes and argument values. -/
def same (a b : Instruction) : Bool :=
  a.opcode.code == b.opcode.code && a.valid == b.valid &&
    a.args.length == b.args.length && (a.args.zip b.args).all fun (x, y) => x.same y

end Instruction

end QuestScript
