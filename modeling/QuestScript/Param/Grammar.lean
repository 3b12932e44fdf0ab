import QuestScript.Param
import QuestScript.Text.Blank
import QuestScript.Text.Quoted

/-! The short spelling of parameters in configuration files.

An item is a scalar name, `reg`, or `reg(` names `)` with commas between them; a name may have a mark
`:r`, `:w` or `:rw`, and three dots after an item make it variadic. -/

namespace QuestScript

/-- A text that spells no parameter. -/
structure ParamError where
  text : String
deriving DecidableEq, Repr

/-- What an error in a parameter says. -/
def ParamError.message (error : ParamError) : String :=
  "Invalid parameter description " ++ quoted error.text

/-- The scalar type of a name. -/
def ScalarType.ofName? (name : List Char) : Option ScalarType :=
  ScalarType.all.find? fun type => type.name.toList == name

/-- The way to use a register that some letters stand for. -/
def Access.ofMark? (mark : List Char) : Option Access :=
  Access.all.find? fun access => access.mark.toList == mark

/-- The pieces of a text between commas. -/
def splitCommas : List Char → List (List Char)
  | [] => [[]]
  | c :: rest =>
    if c = ',' then [] :: splitCommas rest
    else match splitCommas rest with
      | piece :: pieces => (c :: piece) :: pieces
      | [] => [[c]]

/-- A text without `tail` at its end, if it ends so. -/
def dropTail? (tail text : List Char) : Option (List Char) :=
  if tail.isSuffixOf text then some (text.take (text.length - tail.length)) else none

/-- A text without `front` at its start, if it starts so. -/
def dropFront? (front text : List Char) : Option (List Char) :=
  if front.isPrefixOf text then some (text.drop front.length) else none

namespace Param

/-- A name and the access that a mark after it gives. -/
def marked? (text : List Char) : Option (List Char × Option Access) :=
  match text.dropWhile (· != ':') with
  | [] => some (text, none)
  | _ :: mark => (Access.ofMark? mark).map fun access => (text.takeWhile (· != ':'), some access)

/-- A register of a tuple, which is read unless marked otherwise. -/
def element? (text : List Char) : Option TupleElement := do
  let (name, access) ← marked? (trimmed text)
  let type ← ScalarType.ofName? name
  return ⟨type, access.getD .read⟩

/-- The part of a text between `reg(` and `)`. -/
def tupleBody? (text : List Char) : Option (List Char) :=
  (dropFront? "reg(".toList text).bind (dropTail? ")".toList)

/-- A parameter that is not variadic. -/
def item? (text : List Char) : Option Param :=
  match tupleBody? text with
  | some body => ((splitCommas body).mapM element?).map fun elements => { item := .tuple elements }
  | none => do
    let (name, access) ← marked? text
    if name = "reg".toList then return { item := .register, access := some (access.getD .read) }
    let type ← ScalarType.ofName? name
    return { item := .scalar type, access := access }

/-- The parameter that a text spells, without white space at its ends. -/
def spelled? (text : List Char) : Option Param :=
  match dropTail? "...".toList text with
  | some body => (item? (trimmed body)).map fun param => { param with variadic := true }
  | none => item? text

/-- The parameter that a text spells. -/
def ofString (text : String) : Except ParamError Param :=
  let text := trimmed text.toList
  match spelled? text with
  | some param => .ok param
  | none => .error ⟨String.ofList text⟩

end Param

end QuestScript
