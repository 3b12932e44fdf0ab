/-! Rows of comma-separated fields. -/

namespace QuestScript.Csv

/-- Whether a character keeps a field from being written as it is. -/
def needsQuotes (c : Char) : Bool := c == ',' || c == '"' || c == '\r' || c == '\n'

/-- A field in quotes, with those inside it doubled. -/
def quotedField (field : List Char) : List Char :=
  '"' :: field.flatMap (fun c => if c = '"' then ['"', '"'] else [c]) ++ ['"']

/-- A field, in quotes only if it needs them. -/
def fieldText (field : List Char) : List Char :=
  if field.any needsQuotes then quotedField field else field

/-- Fields with commas between them. -/
def rowText (fields : List (List Char)) : List Char := [','].intercalate (fields.map fieldText)

/-- Rows on lines of their own. -/
def tableText (rows : List (List String)) : String :=
  String.ofList (rows.flatMap fun row => rowText (row.map String.toList) ++ ['\n'])

end QuestScript.Csv
