import QuestScript.Toml.Number

/-! Values and lines of TOML documents. -/

namespace QuestScript.Toml

/-- A value that holds no others. -/
def scalar : Scan Item :=
  (do return .string (← string)) <|> number <|>
    (do Scan.word "true"; return .boolean true) <|> (do Scan.word "false"; return .boolean false)

/-- Values in brackets; a comma may follow the last. -/
def array (item : Scan Item) : Scan Item := do
  let spaced : Scan Item := do
    gap
    let value ← item
    gap
    return value
  Scan.word "["
  let items ← Scan.optional do
    let first ← spaced
    let others ← Scan.many (do Scan.word ","; spaced)
    discard (Scan.optional (Scan.word ","))
    return first :: others
  gap
  Scan.word "]"
  return .array (items.getD [])

/-- Pairs in braces, on one line and without a comma after the last. -/
def braces (item : Scan Item) : Scan Item := do
  let pair : Scan (Key × Item) := do
    let key ← key
    Scan.word "="
    blanks
    let value ← item
    blanks
    return (key, value)
  Scan.word "\x7b"
  let pairs ← Scan.optional do
    let first ← pair
    return first :: (← Scan.many (do Scan.word ","; pair))
  blanks
  Scan.word "\x7d"
  match inlineTable (pairs.getD []) with
  | some table => return table
  | none => failure

/-- A value with at most `depth` others around those inside it. -/
def value : Nat → Scan Item
  | 0 => scalar
  | depth + 1 => scalar <|> array (value depth) <|> braces (value depth)

/-- A line that gives a key its value. -/
def assignment : Scan Statement := do
  let key ← key
  Scan.word "="
  blanks
  let item ← value (depthLimit - 1)
  lineEnd
  return .assign key item

/-- A header. -/
def header : Scan Statement :=
  (do
    Scan.word "[["
    let key ← key
    Scan.word "]]"
    lineEnd
    return .element key) <|>
  do
    Scan.word "["
    let key ← key
    Scan.word "]"
    lineEnd
    return .table key

/-- A line, which may say nothing. -/
def line : Scan (Option Statement) := do
  let statement ← (do newline; return none) <|>
    (do comment; newline <|> Scan.finish; return none) <|>
    (do return some (← header)) <|> (do return some (← assignment))
  blanks
  return statement

/-- The lines of a document. -/
def lines : Scan (List Statement) := do
  -- A mark of the byte order can stand in front.
  discard (Scan.optional (Scan.char (· == '\ufeff')))
  blanks
  return (← Scan.many line).filterMap id

/-- The fields of a document. -/
def parse? (text : String) : Option Fields := (Scan.whole? lines text).bind assemble

end QuestScript.Toml
