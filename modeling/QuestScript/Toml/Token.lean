import QuestScript.Text.Scan
import QuestScript.Toml

/-! Blanks, comments, strings and keys of TOML documents. -/

namespace QuestScript.Toml

/-- Characters between the parts of a line. -/
def isBlankChar (c : Char) : Bool := c == ' ' || c == '\t'

/-- Characters that comments and strings hold as they are: all but control characters. -/
def isPlainChar (c : Char) : Bool := c == '\t' || (0x20 ≤ c.toNat && c.toNat != 0x7F)

/-- Blanks, if any. -/
def blanks : Scan Unit := do discard (Scan.span isBlankChar)

/-- The end of a line. -/
def newline : Scan Unit := Scan.word "\n" <|> Scan.word "\r\n"

/-- A comment, up to the end of its line. -/
def comment : Scan Unit := do
  Scan.word "#"
  discard (Scan.span isPlainChar)

/-- What may follow on a line. -/
def lineEnd : Scan Unit := do
  blanks
  discard (Scan.optional comment)
  newline <|> Scan.finish

/-- Blanks, ends of lines, and comments on lines of their own. -/
def gap : Scan Unit := do
  let blank : Scan Unit := do discard (Scan.char isBlankChar)
  discard (Scan.many (blank <|> newline <|> (do comment; newline)))

/-- Hexadecimal digits. -/
def isHexDigit (c : Char) : Bool :=
  c.isDigit || ('a' ≤ c && c ≤ 'f') || ('A' ≤ c && c ≤ 'F')

/-- A class's characters, `count` of them. -/
def exactly (isIn : Char → Bool) : Nat → Scan (List Char)
  | 0 => return []
  | count + 1 => do return (← Scan.char isIn) :: (← exactly isIn count)

/-- The character with a number of `count` hexadecimal digits. -/
def numberedChar (count : Nat) : Scan Char := do
  let number := natOfDigits 16 (← exactly isHexDigit count)
  if number.isValidChar then return Char.ofNat number else failure

/-- A character after a backslash. -/
def escape : Scan Char := do
  Scan.word "\\"
  match ← Scan.char fun _ => true with
  | 'b' => return '\x08'
  | 't' => return '\t'
  | 'n' => return '\n'
  | 'f' => return '\x0c'
  | 'r' => return '\r'
  | '"' => return '"'
  | '\\' => return '\\'
  | 'u' => numberedChar 4
  | 'U' => numberedChar 8
  | _ => failure

/-- A backslash at the end of a line, with all the white space after it. -/
def continuation : Scan Unit := do
  Scan.word "\\"
  blanks
  newline
  let blank : Scan Unit := do discard (Scan.char isBlankChar)
  discard (Scan.many (blank <|> newline))

/-- Plain characters of a string between quotes of a kind; in double quotes a backslash is none. -/
def isQuotedChar (quote c : Char) : Bool :=
  isPlainChar c && c != quote && (quote == '\'' || c != '\\')

/-- The characters of a string on one line, between quotes of a kind. -/
def lineChar (quote : Char) : Scan Char :=
  Scan.char (isQuotedChar quote) <|> (if quote = '"' then escape else failure)

/-- A string on one line. -/
def lineString (quote : Char) : Scan String := do
  discard (Scan.char (· == quote))
  let text ← Scan.many (lineChar quote)
  discard (Scan.char (· == quote))
  return String.ofList text

/-- Quotes that do not end a string of several lines, as there are two of them at most. -/
def innerQuotes (quote : Char) : Scan (List Char) := do
  let quotes ← Scan.span (· == quote)
  if quotes.length = 1 ∨ quotes.length = 2 then return quotes else failure

/-- A part of a string of several lines. -/
def blockPart (quote : Char) : Scan (List Char) :=
  (do return [← lineChar quote]) <|> (do newline; return ['\n']) <|>
    (if quote = '"' then (do continuation; return []) else failure) <|> innerQuotes quote

/-- A string of several lines; up to two quotes can stand right before its end. -/
def blockString (quote : Char) : Scan String := do
  discard (exactly (· == quote) 3)
  discard (Scan.optional newline)
  let parts ← Scan.many (blockPart quote)
  discard (exactly (· == quote) 3)
  let last := Scan.char (· == quote)
  let quotes := (← Scan.optional last).toList ++ (← Scan.optional last).toList
  return String.ofList (parts.flatten ++ quotes)

/-- A string in any of its forms. -/
def string : Scan String :=
  blockString '"' <|> lineString '"' <|> blockString '\'' <|> lineString '\''

/-- Characters of keys without quotes. -/
def isKeyChar (c : Char) : Bool := c.isAlphanum || c == '_' || c == '-'

/-- One name of a key. -/
def name : Scan String :=
  lineString '"' <|> lineString '\'' <|>
    (do return String.ofList ((← Scan.char isKeyChar) :: (← Scan.span isKeyChar)))

/-- One name of a key, with the blanks around it. -/
def spacedName : Scan String := do
  blanks
  let text ← name
  blanks
  return text

/-- Keys have fewer names than this, and values are nested less deep. -/
def depthLimit : Nat := 80

/-- A key. -/
def key : Scan Key := do
  let first ← spacedName
  let others ← Scan.many (do Scan.word "."; spacedName)
  let names := first :: others
  if depthLimit ≤ names.length then failure
  else return ⟨names.dropLast, names.getLastD first⟩

end QuestScript.Toml
