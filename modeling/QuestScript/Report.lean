/-! What an operation has to say besides its result: problems for its user, entries for its log. -/

namespace QuestScript

/-- How much a message matters. -/
inductive Severity where
  | trace
  | debug
  | info
  | warning
  | error
deriving DecidableEq, Repr

namespace Severity

/-- Severities from the least to the greatest. -/
def rank : Severity → Nat
  | trace => 0
  | debug => 1
  | info => 2
  | warning => 3
  | error => 4

/-- The word for a severity. -/
def name : Severity → String
  | trace => "trace"
  | debug => "debug"
  | info => "info"
  | warning => "warning"
  | error => "error"

/-- The word for a severity in front of a log entry. -/
def logName : Severity → String
  | trace => "TRACE"
  | debug => "DEBUG"
  | info => "INFO"
  | warning => "WARN"
  | error => "ERROR"

end Severity

/-- The part of the program that a log entry comes from. -/
inductive Topic where
  | program
  | config
  | encoding
  | parsing
  | discovery
  | classification
  | flow
  | registers
  | stack
deriving DecidableEq, Repr

/-- The name of a part of the program in its log. -/
def Topic.name : Topic → String
  | program => "quest_disasm"
  | config => "quest_disasm::config"
  | encoding => "quest_disasm::codec"
  | parsing => "quest_disasm::discovery"
  | discovery => "quest_disasm::discovery::fixpoint"
  | classification => "quest_disasm::discovery::classifier"
  | flow => "quest_disasm::analysis::cfg"
  | registers => "quest_disasm::analysis::register"
  | stack => "quest_disasm::analysis::stack"

/-- A line of the log. -/
structure LogEntry where
  severity : Severity
  topic : Topic
  text : String
deriving DecidableEq, Repr

/-- The lines of the log, oldest first. -/
abbrev Journal := List LogEntry

/-- Something wrong with a script. -/
structure Problem where
  severity : Severity
  /-- In short, for the user. -/
  summary : String
  /-- In full. -/
  message : String
deriving DecidableEq, Repr

/-- A problem is also logged, in full. -/
def Problem.logEntry (problem : Problem) : LogEntry :=
  ⟨problem.severity, .program, problem.message⟩

/-- The value of an operation, absent if it failed, and the problems met on the way. -/
structure Outcome (α : Type) where
  value : Option α
  problems : List Problem
deriving Repr

namespace Outcome

variable {α β : Type}

/-- Whether there is a value. -/
def isSuccess (outcome : Outcome α) : Bool := outcome.value.isSome

/-- The problems that matter at least so much. -/
def problemsAtLeast (outcome : Outcome α) (severity : Severity) : List Problem :=
  outcome.problems.filter fun problem => severity.rank ≤ problem.severity.rank

/-- The problems that are warnings. -/
def warnings (outcome : Outcome α) : List Problem :=
  outcome.problems.filter fun problem => problem.severity == .warning

/-- The outcome with another value. -/
def map (f : α → β) (outcome : Outcome α) : Outcome β :=
  ⟨outcome.value.map f, outcome.problems⟩

end Outcome

end QuestScript
