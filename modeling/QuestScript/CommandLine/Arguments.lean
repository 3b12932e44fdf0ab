import QuestScript.Label
import QuestScript.Listing
import QuestScript.Text.Scan

/-! The arguments of the command line. -/

namespace QuestScript.CommandLine

/-- What an option is about. -/
inductive Flag where
  | labels
  | entry
  | lenient
  | legacy
  | format
  | config
  | output
  | verify
  | verbose
  | help
  | version
deriving DecidableEq, Repr

namespace Flag

/-- All options. -/
def all : List Flag :=
  [labels, entry, lenient, legacy, format, config, output, verify, verbose, help, version]

/-- The word for an option, after two dashes. -/
def word : Flag → String
  | labels => "labels"
  | entry => "entry"
  | lenient => "lenient"
  | legacy => "legacy"
  | format => "format"
  | config => "config"
  | output => "output"
  | verify => "verify"
  | verbose => "verbose"
  | help => "help"
  | version => "version"

/-- The letter for an option, after one dash. -/
def letter? : Flag → Option Char
  | labels => some 'l'
  | entry => some 'e'
  | format => some 'f'
  | config => some 'c'
  | output => some 'o'
  | verbose => some 'v'
  | help => some 'h'
  | version => some 'V'
  | lenient | legacy | verify => none

/-- Whether an option has a value. -/
def takesValue : Flag → Bool
  | labels | entry | format | config | output => true
  | lenient | legacy | verify | verbose | help | version => false

/-- The option for a word. -/
def ofWord? (text : List Char) : Option Flag := all.find? fun flag => flag.word.toList == text

/-- The option for a letter. -/
def ofLetter? (letter : Char) : Option Flag := all.find? fun flag => flag.letter? == some letter

end Flag

/-- What the command line asks for. -/
structure Command where
  inputs : List String
  /-- The file with the label table. -/
  labels : String
  /-- Labels that are code; if there are none, the configuration names them. -/
  entries : List Label
  lenient : Bool
  /-- Whether characters have one byte. -/
  legacy : Bool
  format : ListingFormat
  config : Option String
  /-- The directory for listings. -/
  output : Option String
  verify : Bool
  verbosity : Nat
deriving DecidableEq, Repr

/-- Why there is nothing to run. -/
inductive Halt where
  /-- The arguments make no sense. -/
  | usage
  /-- Help was asked for, in full or in short. -/
  | help (full : Bool)
  | version
deriving DecidableEq, Repr

/-- The arguments up to some place. -/
structure Gathered where
  inputs : List String := []
  labels : Option String := none
  entries : List Label := []
  lenient : Bool := false
  legacy : Bool := false
  format : Option ListingFormat := none
  config : Option String := none
  output : Option String := none
  verify : Bool := false
  verbosity : Nat := 0
  /-- The option that the next argument is the value of. -/
  pending : Option Flag := none
  /-- Whether all that follows are inputs. -/
  inputsOnly : Bool := false
deriving Repr

/-- A label on the command line: a number of 32 bits, perhaps with a sign. -/
def label? (text : String) : Option Label :=
  let (negative, digits) := match text.toList with
    | '+' :: digits => (false, digits)
    | '-' :: digits => (true, digits)
    | digits => (false, digits)
  let number := natOfDigits 10 digits
  if digits.isEmpty || !digits.all Char.isDigit then none
  else if negative && number != 0 then none
  else if number < 0x100000000 then some number else none

namespace Gathered

/-- The arguments with one more input. -/
def addInput (gathered : Gathered) (path : String) : Except Halt Gathered :=
  if path.isEmpty then .error .usage
  else .ok { gathered with inputs := gathered.inputs ++ [path] }

/-- A path for an option that has none yet. -/
def newPath (previous : Option String) (path : String) : Except Halt (Option String) :=
  if previous.isSome || path.isEmpty then .error .usage else .ok (some path)

/-- The arguments with the value of an option. -/
def setValue (gathered : Gathered) (flag : Flag) (value : String) : Except Halt Gathered := do
  let gathered := { gathered with pending := none }
  match flag with
  | .labels => return { gathered with labels := ← newPath gathered.labels value }
  | .config => return { gathered with config := ← newPath gathered.config value }
  | .output => return { gathered with output := ← newPath gathered.output value }
  | .entry =>
    match label? value with
    | some label => return { gathered with entries := gathered.entries ++ [label] }
    | none => throw .usage
  | .format =>
    match gathered.format, ListingFormat.all.find? (·.name == value) with
    | none, some format => return { gathered with format := some format }
    | _, _ => throw .usage
  | .lenient | .legacy | .verify | .verbose | .help | .version => throw .usage

/-- The arguments with an option that has no value; only one of them may be repeated. -/
def setFlag (gathered : Gathered) (flag : Flag) (full : Bool) : Except Halt Gathered :=
  match flag with
  | .lenient => if gathered.lenient then .error .usage else .ok { gathered with lenient := true }
  | .legacy => if gathered.legacy then .error .usage else .ok { gathered with legacy := true }
  | .verify => if gathered.verify then .error .usage else .ok { gathered with verify := true }
  | .verbose => .ok { gathered with verbosity := gathered.verbosity + 1 }
  | .help => .error (.help full)
  | .version => .error .version
  | .labels | .entry | .format | .config | .output => .ok { gathered with pending := some flag }

/-- The arguments with options that stand as letters after one dash. -/
def addLetters (gathered : Gathered) : List Char → Except Halt Gathered
  | [] => .ok gathered
  | letter :: rest =>
    match Flag.ofLetter? letter with
    | none => .error .usage
    | some flag =>
      if flag.takesValue && !rest.isEmpty then
        -- What follows is the value, perhaps after an equals sign.
        let value := match rest with
          | '=' :: value => value
          | value => value
        gathered.setValue flag (String.ofList value)
      else do (← gathered.setFlag flag false).addLetters rest

/-- The arguments with an option that stands as a word after two dashes. -/
def addWord (gathered : Gathered) (text : List Char) : Except Halt Gathered :=
  let word := text.takeWhile (· != '=')
  match Flag.ofWord? word, text.drop word.length with
  | none, _ => .error .usage
  | some flag, [] => gathered.setFlag flag true
  | some flag, _ :: value => gathered.setValue flag (String.ofList value)

/-- The arguments with one more. -/
def add (gathered : Gathered) (argument : String) : Except Halt Gathered :=
  if gathered.inputsOnly then gathered.addInput argument
  else match argument.toList with
    | '-' :: first :: rest =>
      -- An option cannot stand in place of a value.
      if gathered.pending.isSome then .error .usage
      else if first ≠ '-' then gathered.addLetters (first :: rest)
      else if rest.isEmpty then .ok { gathered with inputsOnly := true }
      else gathered.addWord rest
    | _ =>
      match gathered.pending with
      | some flag => gathered.setValue flag argument
      | none => gathered.addInput argument

/-- The command of all arguments. -/
def command (gathered : Gathered) : Except Halt Command :=
  match gathered.labels with
  | none => .error .usage
  | some labels =>
    if gathered.pending.isSome || gathered.inputs.isEmpty then .error .usage
    else .ok {
      inputs := gathered.inputs, labels, entries := gathered.entries, lenient := gathered.lenient,
      legacy := gathered.legacy, format := gathered.format.getD .text, config := gathered.config,
      output := gathered.output, verify := gathered.verify, verbosity := gathered.verbosity }

end Gathered

/-- The command that some arguments stand for. -/
def Command.ofArguments (arguments : List String) : Except Halt Command := do
  (← arguments.foldlM Gathered.add {}).command

end QuestScript.CommandLine
