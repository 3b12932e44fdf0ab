import QuestScript.Label
import QuestScript.Text.Scan

/-! Label tables in files: JSON arrays of offsets, with -1 or null for a label that has no place. -/

namespace QuestScript.CommandLine

/-- Why a text is no label table. -/
inductive LabelFileError where
  /-- No list of whole numbers and nulls, starting at this line and column, makes up the text. -/
  | malformed (line column : Nat)
  | invalidOffset (label : Label) (offset : Int)
deriving DecidableEq, Repr

/-- What an error in a label table says. -/
def LabelFileError.message : LabelFileError → String
  | malformed line column => s!"expected a list of offsets at line {line} column {column}"
  | invalidOffset label offset => s!"Label {label} has invalid offset {offset}"

/-- White space in JSON. -/
def isJsonBlank (c : Char) : Bool := c == ' ' || c == '\n' || c == '\t' || c == '\r'

/-- White space, if any. -/
def jsonBlanks : Scan Unit := do discard (Scan.span isJsonBlank)

/-- A whole number of 64 bits; zero has no sign, and no other number starts with it. -/
def jsonInteger : Scan Int := do
  let negative := (← Scan.optional (Scan.word "-")).isSome
  let digits ← Scan.span Char.isDigit
  let number := natOfDigits 10 digits
  let isSpelled : Bool := match digits with
    | [] => false
    | '0' :: rest => rest.isEmpty && !negative
    | _ => true
  let value : Int := if negative then -number else number
  if isSpelled ∧ -0x8000000000000000 ≤ value ∧ value < 0x8000000000000000 then return value
  else failure

/-- An entry of the list, with white space around it. -/
def labelEntry : Scan (Option Int) := do
  jsonBlanks
  let entry ← (do Scan.word "null"; return none) <|> (do return some (← jsonInteger))
  jsonBlanks
  return entry

/-- The list. -/
def labelEntries : Scan (List (Option Int)) := do
  jsonBlanks
  Scan.word "["
  let entries ← Scan.optional do
    let first ← labelEntry
    return first :: (← Scan.many (do Scan.word ","; labelEntry))
  jsonBlanks
  Scan.word "]"
  jsonBlanks
  return entries.getD []

/-- The table word of an entry. -/
def entryWord (label : Label) (entry : Option Int) : Except LabelFileError UInt32 :=
  match entry with
  | none => .ok noOffset
  | some offset =>
    if offset = -1 then .ok noOffset
    else if 0 ≤ offset ∧ offset < noOffset.toNat then .ok (.ofNat offset.toNat)
    else .error (.invalidOffset label offset)

/-- The table of a text. -/
def labelTableOfText (text : String) : Except LabelFileError LabelTable :=
  match Scan.whole? labelEntries text with
  | some entries => entries.zipIdx.mapM fun (entry, label) => entryWord label entry
  | none =>
    let before := text.toList.takeWhile isJsonBlank
    let lastLine := before.reverse.takeWhile (· != '\n')
    .error (.malformed (before.count '\n' + 1) (lastLine.length + 1))

end QuestScript.CommandLine
