import QuestScript.CommandLine.Arguments

/-! What the command line says about itself. -/

namespace QuestScript.CommandLine

/-- The name and the version of the program. -/
def versionText : String := "quest_disasm 0.1.0\n"

/-- The form of the arguments. -/
def usageLine : String := "Usage: quest_disasm [OPTIONS] --labels <LABELS> <BYTECODE>..."

/-- What is written if arguments make no sense. -/
def usageText : String :=
  "error: invalid arguments\n\n" ++ usageLine ++ "\n\nFor more information, try '--help'."

/-- What the program does. -/
def purpose : String := "Recover the code, data and string layout of quest script bytecode"

namespace Flag

/-- An option with its value, as help shows it. -/
def form (flag : Flag) : String :=
  let front := match flag.letter? with
    | some letter => "-" ++ letter.toString ++ ", --"
    | none => "    --"
  let value := if flag.takesValue then " <" ++ flag.word.toUpper ++ ">" else ""
  let dots := if flag = .verbose then "..." else ""
  front ++ flag.word ++ value ++ dots

/-- What an option is for, in the help in short. -/
def brief : Flag → String
  | labels => "JSON array of label offsets, indexed by label. `null` or -1 marks an absent label"
  | entry => "Entry labels, decoded as instructions. Defaults to the config file's entry labels"
  | lenient => "Report problems as warnings and keep going"
  | legacy => "Use one byte per character for strings"
  | format => "[default: text] [possible values: text, json, jsonl, csv]"
  | config => "TOML file overriding parse options and adding opcodes"
  | output => "Write one output file per input into this directory instead of stdout"
  | verify => "Re-encode the result and check it reproduces the input"
  | verbose => "-v for info, -vv for debug"
  | help => "Print help (see more with '--help')"
  | version => "Print version"

/-- What an option is for, in lines for the help in full. -/
def fullLines : Flag → List String
  | format => ["Possible values:", "- text:  Assembly-like listing (default)",
      "- json:  JSON format (hierarchical)",
      "- jsonl: JSON Lines format (one segment per line)",
      "- csv:   CSV format (one row per instruction)", "", "[default: text]"]
  | help => ["Print help (see a summary with '-h')"]
  | flag => [flag.brief]

end Flag

/-- A line after so many blanks. -/
def indented (count : Nat) (line : String) : String := "".pushn ' ' count ++ line

/-- The help in short. -/
def shortHelp : String :=
  let options := Flag.all.map fun flag =>
    indented 2 (flag.form.pushn ' ' (21 - flag.form.length) ++ "  " ++ flag.brief)
  let lines := [purpose, "", usageLine, "", "Arguments:", "  <BYTECODE>...  Raw bytecode files", "",
    "Options:"] ++ options
  String.join (lines.map (· ++ "\n"))

/-- The help in full. -/
def fullHelp : String :=
  let options := Flag.all.map fun flag =>
    indented 2 flag.form :: flag.fullLines.map (indented 10)
  let lines := [purpose, "", usageLine, "", "Arguments:", "  <BYTECODE>...",
    indented 10 "Raw bytecode files", "", "Options:"] ++ [""].intercalate options
  String.join (lines.map (· ++ "\n"))

end QuestScript.CommandLine
