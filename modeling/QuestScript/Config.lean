import QuestScript.Opcode.Standard
import QuestScript.Options
import QuestScript.Param.Grammar
import QuestScript.Report

/-! Configurations: options, entry labels, and opcodes that the standard table lacks. -/

namespace QuestScript

/-- An opcode as a configuration describes it. -/
structure OpcodeEntry where
  code : UInt16
  mnemonic : String
  /-- The parameters in their short spelling. -/
  params : List String := []
  stack : StackEffect := .none
deriving DecidableEq, Repr

/-- What is wrong with an opcode's description. -/
inductive EntryFault where
  /-- No script has this code: its first byte does not announce a second, or has to. -/
  | unreachableCode
  | param (cause : ParamError)
  /-- A variadic parameter stands before another parameter. -/
  | variadicNotLast
deriving DecidableEq, Repr

/-- What a fault of an opcode's description says. -/
def EntryFault.message : EntryFault → String
  | unreachableCode => "two-byte codes start with 0xf8 or 0xf9"
  | param cause => cause.message
  | variadicNotLast => "only the last parameter can be variadic"

/-- Whether the bytes of a code are read back as that code. -/
def isReachableCode (code : UInt16) : Bool :=
  let high := UInt8.ofNat (code.toNat / 256)
  if high = 0 then !opensLongCode (.ofNat code.toNat) else opensLongCode high

/-- Whether every parameter before the last takes one argument. -/
def variadicOnlyLast (params : List Param) : Bool := params.dropLast.all fun param => !param.variadic

/-- The opcode that an entry describes. -/
def OpcodeEntry.toOpcode (entry : OpcodeEntry) : Except EntryFault Opcode :=
  if !isReachableCode entry.code then .error .unreachableCode
  else match entry.params.mapM Param.ofString with
    | .error cause => .error (.param cause)
    | .ok params =>
      if !variadicOnlyLast params then .error .variadicNotLast
      else .ok { code := entry.code, mnemonic := entry.mnemonic, params, stack := entry.stack }

/-- A configuration. -/
structure Config where
  parse : ParseOptions := {}
  /-- The labels that are code if a command names none. -/
  entryLabels : List Label := [0]
  opcodes : List OpcodeEntry := []
deriving DecidableEq, Repr

/-- What is wrong with the values of a configuration. -/
inductive ConfigFault where
  | noCardinality
  | ratio (name : String) (value : Double)
  | opcode (entry : OpcodeEntry) (fault : EntryFault)
deriving DecidableEq, Repr

/-- A code with a mark that it is hexadecimal. -/
def codeText (code : UInt16) : String := "0x" ++ hexDigits 1 code.toNat

/-- What a fault of a configuration says. -/
def ConfigFault.message (fault : ConfigFault) : String :=
  "Invalid config value: " ++ match fault with
    | noCardinality => "cardinality_bound must be at least 1"
    | ratio name value => s!"{name} must be between 0 and 1, got {value.plainText}"
    | opcode entry fault => s!"opcode {codeText entry.code} ({entry.mnemonic}): {fault.message}"

/-- The table with the opcodes that some entries describe, up to a fault. -/
def OpcodeTable.addEntries (table : OpcodeTable) : List OpcodeEntry → Except ConfigFault OpcodeTable
  | [] => .ok table
  | entry :: rest =>
    match entry.toOpcode with
    | .error fault => .error (.opcode entry fault)
    | .ok opcode => (table.insert opcode).addEntries rest

/-- What is logged about codes that are listed already, up to a fault. -/
def OpcodeTable.replacements (table : OpcodeTable) : List OpcodeEntry → Journal
  | [] => []
  | entry :: rest =>
    let here := if table.contains entry.code then
      [⟨.debug, .config, s!"Replacing opcode {codeText entry.code} with {entry.mnemonic}"⟩] else []
    here ++ match entry.toOpcode with
      | .error _ => []
      | .ok opcode => (table.insert opcode).replacements rest

namespace Config

/-- The standard opcodes with those of the configuration. -/
def opcodeTable (config : Config) : Except ConfigFault OpcodeTable :=
  OpcodeTable.standard.addEntries config.opcodes

/-- What is logged when the table is made. -/
def opcodeTableJournal (config : Config) : Journal :=
  OpcodeTable.standard.replacements config.opcodes ++
    match config.opcodeTable with
    | .error _ => []
    | .ok table =>
      if config.opcodes.isEmpty then []
      else [⟨.info, .config, s!"Opcode table has {table.size} opcodes, " ++
        s!"{config.opcodes.length} from config"⟩]

/-- The ratios of a configuration, by their names in files. -/
def ratios (config : Config) : List (String × Double) :=
  let thresholds := config.parse.thresholds
  [("max_unknown_opcode_ratio", thresholds.maxUnknownOpcodeRatio),
    ("max_stack_pop_without_push_ratio", thresholds.maxPopWithoutPushRatio),
    ("max_unknown_label_ratio", thresholds.maxUnknownLabelRatio)]

/-- Whether a number is one from zero to one. -/
def isRatio (value : Double) : Bool := (Double.ofRatio 0 1).le value && value.le (.ofRatio 1 1)

/-- The first fault of a configuration. -/
def fault? (config : Config) : Option ConfigFault :=
  if config.parse.cardinalityBound = 0 then some .noCardinality
  else match config.ratios.find? fun ratio => !isRatio ratio.2 with
    | some (name, value) => some (.ratio name value)
    | none => config.opcodes.findSome? fun entry =>
      match entry.toOpcode with
      | .error fault => some (.opcode entry fault)
      | .ok _ => none

/-- Whether a configuration says nothing else than the default. -/
def isDefault (config : Config) : Bool :=
  config.parse.same {} && config.entryLabels == [0] && config.opcodes.isEmpty

end Config

end QuestScript
