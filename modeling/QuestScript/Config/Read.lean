import QuestScript.Config
import QuestScript.Toml.Document

/-! Configurations from TOML documents.

Every key is optional, apart from the code and the mnemonic of an opcode. -/

namespace QuestScript

open Toml (Item Fields)

/-- Why a text is no configuration. -/
inductive ConfigError where
  /-- It is no document, or one with other keys or types of values. -/
  | malformed
  | value (fault : ConfigFault)
deriving DecidableEq, Repr

/-- What an error in a configuration says. -/
def ConfigError.message : ConfigError → String
  | malformed => "Invalid config syntax: expected a document with the keys of a configuration"
  | value fault => fault.message

namespace Toml.Item

/-- A number from zero to below a limit. -/
def natBelow? (limit : Nat) : Item → Option Nat
  | integer value => if 0 ≤ value ∧ value < limit then some value.toNat else none
  | _ => none

/-- A number of 32 bits. -/
def label? (item : Item) : Option Label := item.natBelow? 0x100000000

/-- A number of things. -/
def count? (item : Item) : Option Nat := item.natBelow? 0x8000000000000000

/-- A floating-point number, which may be written as a whole one. -/
def double? : Item → Option Double
  | float value => some value
  | integer value => some (.ofInt value)
  | _ => none

/-- A truth value. -/
def bool? : Item → Option Bool
  | boolean value => some value
  | _ => none

/-- A text. -/
def text? : Item → Option String
  | string text => some text
  | _ => none

/-- The values of a list. -/
def items? : Item → Option (List Item)
  | array items => some items
  | tables elements => some (elements.map (table .header))
  | _ => none

/-- The values of a list, if each of them is of a kind. -/
def list? {α : Type} (element? : Item → Option α) (item : Item) : Option (List α) :=
  item.items?.bind (·.mapM element?)

/-- Whether nothing is in a value. -/
def isEmpty : Item → Bool
  | array items => items.isEmpty
  | tables elements => elements.isEmpty
  | table _ fields => fields.isEmpty
  | _ => false

/-- The word for one of some choices: a string, or the only key of a table, with nothing in it. -/
def word? : Item → Option String
  | string text => some text
  | table _ [(key, item)] => if item.isEmpty then some key else none
  | _ => none

/-- The one of some choices that a value names. -/
def choice? {α : Type} (choices : List (String × α)) (item : Item) : Option α := do
  choices.lookup (← item.word?)

/-- The fields of a record, also when its values stand in a list in the order of their keys. A
closed record has no keys but these.

A moment counts as a record with one key of its own. -/
def record? (keys : List String) (closed : Bool) (item : Item) : Option Fields :=
  match item with
  | table _ fields => if closed && fields.any (!keys.contains ·.1) then none else some fields
  | moment => if closed then none else some []
  | item => item.items?.map keys.zip

end Toml.Item

/-- The value of a field, a default if there is none. -/
def Toml.Fields.getD {α : Type} (fields : Fields) (key : String) (default : α)
    (read? : Item → Option α) : Option α :=
  match fields.get? key with
  | some item => read? item
  | none => some default

/-- Limits, from a record of them. -/
def Thresholds.ofItem? (item : Item) : Option Thresholds := do
  let fields ← item.record? ["max_total_nops", "max_sequential_nops", "max_unknown_opcode_ratio",
    "max_stack_pop_without_push_ratio", "max_unknown_label_ratio"] false
  let base : Thresholds := {}
  return {
    maxTotalNops := ← fields.getD "max_total_nops" base.maxTotalNops Item.count?
    maxSequentialNops := ← fields.getD "max_sequential_nops" base.maxSequentialNops Item.count?
    maxUnknownOpcodeRatio :=
      ← fields.getD "max_unknown_opcode_ratio" base.maxUnknownOpcodeRatio Item.double?
    maxPopWithoutPushRatio :=
      ← fields.getD "max_stack_pop_without_push_ratio" base.maxPopWithoutPushRatio Item.double?
    maxUnknownLabelRatio :=
      ← fields.getD "max_unknown_label_ratio" base.maxUnknownLabelRatio Item.double? }

/-- Widths by their names. -/
def widthChoices : List (String × CharWidth) := [("narrow", .narrow), ("wide", .wide)]

/-- Options, from a record of them. -/
def ParseOptions.ofItem? (item : Item) : Option ParseOptions := do
  let fields ← item.record?
    ["width", "lenient", "cardinality_bound", "builtin_labels", "thresholds"] false
  let base : ParseOptions := {}
  return {
    width := ← fields.getD "width" base.width (Item.choice? widthChoices)
    lenient := ← fields.getD "lenient" base.lenient Item.bool?
    cardinalityBound := ← fields.getD "cardinality_bound" base.cardinalityBound Item.count?
    builtinLabels := ← fields.getD "builtin_labels" base.builtinLabels fun item =>
      (item.list? Item.label?).map LabelSet.ofList
    thresholds := ← fields.getD "thresholds" base.thresholds Thresholds.ofItem? }

/-- Stack effects by their names. -/
def stackChoices : List (String × StackEffect) := [("none", .none), ("push", .push), ("pop", .pop)]

/-- The description of an opcode, from a record. -/
def OpcodeEntry.ofItem? (item : Item) : Option OpcodeEntry := do
  let fields ← item.record? ["code", "mnemonic", "params", "stack"] true
  let code ← (← fields.get? "code").natBelow? 0x10000
  return {
    code := .ofNat code
    mnemonic := ← (← fields.get? "mnemonic").text?
    params := ← fields.getD "params" [] (Item.list? Item.text?)
    stack := ← fields.getD "stack" .none (Item.choice? stackChoices) }

namespace Config

/-- A configuration, from the fields of a document. -/
def ofFields? (document : Fields) : Option Config := do
  let fields ← (Item.table .header document).record? ["parse", "entry_labels", "opcodes"] true
  return {
    parse := ← fields.getD "parse" {} ParseOptions.ofItem?
    entryLabels := ← fields.getD "entry_labels" [0] (Item.list? Item.label?)
    opcodes := ← fields.getD "opcodes" [] (Item.list? OpcodeEntry.ofItem?) }

/-- A configuration, from a document's text. -/
def ofToml (text : String) : Except ConfigError Config :=
  match (Toml.parse? text).bind ofFields? with
  | none => .error .malformed
  | some config =>
    match config.fault? with
    | some fault => .error (.value fault)
    | none => .ok config

end Config

end QuestScript
