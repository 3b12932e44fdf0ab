/-! Parameters of opcodes: what an argument is, and how it is stored. -/

namespace QuestScript

/-- What a label parameter points at. -/
inductive LabelKind where
  | any
  | code
  | data
  | text
deriving DecidableEq, Repr

/-- A value that one argument or one register holds. -/
inductive ScalarType where
  | byte
  | word
  | dword
  | float
  | string
  | label (kind : LabelKind)
  /-- An address; only registers hold one. -/
  | pointer
  /-- Anything; only registers hold it. -/
  | any
deriving DecidableEq, Repr

/-- How an instruction uses a register. -/
inductive Access where
  | read
  | write
  | readWrite
deriving DecidableEq, Repr

/-- One of the consecutive registers that a tuple refers to. -/
structure TupleElement where
  type : ScalarType
  access : Access
deriving DecidableEq, Repr

/-- What a parameter's arguments are. -/
inductive ItemType where
  | scalar (type : ScalarType)
  /-- A reference to one register. -/
  | register
  /-- A reference to the first of several consecutive registers. -/
  | tuple (elements : List TupleElement)
deriving DecidableEq, Repr

/-- A parameter of an opcode; a variadic one takes any number of items, with their count in front. -/
structure Param where
  item : ItemType
  variadic : Bool := false
  access : Option Access := none
deriving DecidableEq, Repr

/-- The name of a scalar type. -/
def ScalarType.name : ScalarType → String
  | byte => "byte"
  | word => "word"
  | dword => "dword"
  | float => "float"
  | string => "string"
  | label .any => "label"
  | label .code => "ilabel"
  | label .data => "dlabel"
  | label .text => "slabel"
  | pointer => "pointer"
  | any => "any"

/-- All scalar types. -/
def ScalarType.all : List ScalarType :=
  [byte, word, dword, float, string, label .any, label .code, label .data, label .text, pointer, any]

namespace Access

/-- The letters for a way to use a register. -/
def mark : Access → String
  | read => "r"
  | write => "w"
  | readWrite => "rw"

/-- All ways to use a register. -/
def all : List Access := [read, write, readWrite]

/-- Whether the register changes. -/
def writes : Access → Bool
  | read => false
  | write | readWrite => true

end Access

/-- The name of an item type; a tuple shows only its length. -/
def ItemType.name : ItemType → String
  | scalar type => type.name
  | register => "reg"
  | tuple elements => s!"reg_tuple[{elements.length}]"

namespace Param

/-- The name of a parameter's type. -/
def typeName (param : Param) : String :=
  if param.variadic then param.item.name ++ "..." else param.item.name

/-- Whether a parameter is declared to change registers. -/
def writes (param : Param) : Bool := param.access.any Access.writes

/-- Whether a parameter's arguments are labels. -/
def isLabel (param : Param) : Bool :=
  match param.item with
  | .scalar (.label _) => true
  | _ => false

/-- The registers of a tuple parameter. -/
def registers (param : Param) : List TupleElement :=
  match param.item, param.variadic with
  | .tuple elements, false => elements
  | _, _ => []

/-- Bytes of one item of a variadic parameter. -/
def elementSize (param : Param) : Nat :=
  match param.item with
  | .scalar (.label _) | .scalar .word => 2
  | _ => 1

end Param

end QuestScript
