import QuestScript.CommandLine.Arguments
import QuestScript.CommandLine.Files
import QuestScript.CommandLine.Help
import QuestScript.CommandLine.LabelFile
import QuestScript.Config.Read
import QuestScript.Parse
import QuestScript.Script.Encode

/-! Running the command line. -/

namespace QuestScript.CommandLine

/-- What a command has written. -/
structure Output where
  /-- The text for its user. -/
  text : String := ""
  /-- Messages and log entries, oldest first. -/
  messages : List String := []
deriving DecidableEq, Repr

/-- Why a command, or its work on one input, has failed. -/
structure Failure where
  message : String
  /-- Each is the reason for the one before it. -/
  causes : List String := []
deriving DecidableEq, Repr

namespace Failure

/-- The end of a command. -/
def report (failure : Failure) : List String :=
  ("Error: " ++ failure.message) ::
    if failure.causes.isEmpty then []
    else "" :: "Caused by:" :: failure.causes.map ("    " ++ ·)

/-- The failure of one input. -/
def line (failure : Failure) : String :=
  "Error: " ++ ": ".intercalate (failure.message :: failure.causes)

end Failure

/-- The least severity that is logged. -/
def Command.logLevel (command : Command) : Severity :=
  match command.verbosity with
  | 0 => .warning
  | 1 => .info
  | _ => .debug

/-- A log entry in its place among messages; further lines of it are indented. -/
def logLine (entry : LogEntry) : String :=
  let level := entry.severity.logName.pushn ' ' (5 - entry.severity.logName.length)
  let text := "\n    ".intercalate (entry.text.splitOn "\n")
  s!"[{level} {entry.topic.name}] {text}"

section

variable {m : Type → Type} [Monad m]

/-- Steps of a command. -/
abbrev Running (m : Type → Type) := ExceptT Failure (StateT Output m)

/-- Writes a message. -/
def say (messages : List String) : Running m Unit :=
  modify fun output => { output with messages := output.messages ++ messages }

/-- Logs what is severe enough. -/
def log (command : Command) (journal : Journal) : Running m Unit :=
  say ((journal.filter fun entry => command.logLevel.rank ≤ entry.severity.rank).map logLine)

/-- The value of a step with files, or a failure that its error causes. -/
def orFail {α : Type} (message : String) (result : Except FileError α) : Running m α :=
  match result with
  | .ok value => return value
  | .error cause => throw ⟨message, [cause.message]⟩

/-- The configuration of a command. -/
def loadConfig (files : FileAccess m) (command : Command) : Running m Config := do
  let config ← match command.config with
    | none => pure {}
    | some path =>
      match (← files.read path).bind textOfBytes with
      | .error cause =>
        throw ⟨s!"Couldn't read config file {path}: {cause.message}", [cause.message]⟩
      | .ok text =>
        match Config.ofToml text with
        | .error cause => throw ⟨cause.message, []⟩
        | .ok config =>
          log command [⟨.info, .config, s!"Loaded config from {path}"⟩]
          pure config
  return { config with parse := { config.parse with
    lenient := config.parse.lenient || command.lenient
    width := if command.legacy then .narrow else config.parse.width } }

/-- The label table of a command. -/
def loadLabels (files : FileAccess m) (command : Command) : Running m LabelTable := do
  let path := command.labels
  let text ← orFail s!"Couldn't read label file {path}" ((← files.read path).bind textOfBytes)
  match labelTableOfText text with
  | .ok table => return table
  | .error cause => throw ⟨s!"Invalid label file {path}", [cause.message]⟩

/-- The opcodes of a command. -/
def loadOpcodes (command : Command) (config : Config) : Running m OpcodeTable := do
  log command config.opcodeTableJournal
  match config.opcodeTable with
  | .ok table => return table
  | .error fault => throw ⟨fault.message, []⟩

/-- Reads the script at a path. -/
def readScript (command : Command) (config : Config) (labels : LabelTable) (opcodes : OpcodeTable)
    (path : String) (bytes : List UInt8) : Running m Script := do
  let entries := if command.entries.isEmpty then config.entryLabels else command.entries
  let (result, journal) := parse bytes labels entries opcodes config.parse
  log command journal
  match result with
  | .error failure =>
    throw ⟨s!"Couldn't parse {path}", [failure.message, failure.cause.message]⟩
  | .ok outcome =>
    let errors := outcome.problemsAtLeast .error
    log command [⟨.info, .program,
      s!"{path}: {errors.length} errors, {outcome.warnings.length} warnings"⟩]
    match outcome.value with
    | some script => return script
    | none =>
      let reasons := " ".intercalate (errors.map (·.message))
      throw ⟨s!"Parsing {path} failed: {reasons}", []⟩

/-- Fails if a script is not written back as it was. -/
def verify (command : Command) (width : CharWidth) (path : String) (bytes : List UInt8)
    (script : Script) : Running m Unit := do
  log command (script.encodeJournal width)
  match script.encode width with
  | .error cause => throw ⟨s!"Couldn't re-encode {path}", [cause.message]⟩
  | .ok encoded =>
    if encoded.bytes != bytes then
      throw ⟨s!"Re-encoding {path} didn't reproduce the input", []⟩

/-- Lists the script at a path. -/
def runInput (files : FileAccess m) (command : Command) (config : Config) (labels : LabelTable)
    (opcodes : OpcodeTable) (path : String) : Running m Unit := do
  let bytes ← orFail s!"Couldn't read bytecode file {path}" (← files.read path)
  let script ← readScript command config labels opcodes path bytes
  let width := config.parse.width
  if command.verify then verify command width path bytes script
  let text := script.render command.format width
  match command.output with
  | none => modify fun output => { output with text := output.text ++ text }
  | some directory =>
    let target := listingPath directory path command.format.extension
    orFail s!"Couldn't write {target}" (← files.write target text)

/-- Lists scripts one after the other, and says which have failed. -/
def runInputs (files : FileAccess m) (command : Command) (config : Config) (labels : LabelTable)
    (opcodes : OpcodeTable) : List String → StateT Output m (List Failure)
  | [] => return []
  | path :: rest => do
    let result ← (runInput files command config labels opcodes path).run
    let others ← runInputs files command config labels opcodes rest
    match result with
    | .ok _ => return others
    | .error failure => return failure :: others

/-- Runs a command. -/
def runCommand (files : FileAccess m) (command : Command) : Running m Unit := do
  let config ← loadConfig files command
  let labels ← loadLabels files command
  let opcodes ← loadOpcodes command config
  if let some directory := command.output then
    orFail s!"Couldn't create output directory {directory}" (← files.ensureDirectories directory)
  let failures ← runInputs files command config labels opcodes command.inputs
  say (failures.map Failure.line)
  if !failures.isEmpty then
    throw ⟨s!"{failures.length} of {command.inputs.length} inputs failed", []⟩

/-- Runs the command that some arguments stand for; the result is the exit status and what was
written. -/
def run (files : FileAccess m) (arguments : List String) : m (Nat × Output) := do
  match Command.ofArguments arguments with
  | .error .usage => return (2, { messages := [usageText] })
  | .error (.help full) => return (0, { text := if full then fullHelp else shortHelp })
  | .error .version => return (0, { text := versionText })
  | .ok command =>
    let (result, output) ← (runCommand files command).run.run {}
    match result with
    | .ok _ => return (0, output)
    | .error failure =>
      return (1, { output with messages := output.messages ++ failure.report })

end

end QuestScript.CommandLine
