import QuestScript.Listing.Csv
import QuestScript.Listing.Text

/-! The formats in which scripts are listed. -/

namespace QuestScript

/-- A format for listings. -/
inductive ListingFormat where
  | text
  | json
  | jsonLines
  | csv
deriving DecidableEq, Repr

namespace ListingFormat

/-- All formats. -/
def all : List ListingFormat := [text, json, jsonLines, csv]

/-- The word for a format. -/
def name : ListingFormat → String
  | text => "text"
  | json => "json"
  | jsonLines => "jsonl"
  | csv => "csv"

/-- The ending of the names of files in a format. -/
def extension : ListingFormat → String
  | text => "asm"
  | json => "json"
  | jsonLines => "jsonl"
  | csv => "csv"

/-- The words by which a format can be called. -/
def names : ListingFormat → List String
  | text => ["text", "asm"]
  | json => ["json"]
  | jsonLines => ["jsonl", "jsonlines"]
  | csv => ["csv"]

end ListingFormat

/-- A word for no format. -/
structure FormatError where
  word : String
deriving DecidableEq, Repr

/-- What an unknown format's error says. -/
def FormatError.message (error : FormatError) : String := "Unknown output format: " ++ error.word

/-- The format that a word stands for, in large or small letters.

No letter outside ASCII has a small form that these words contain. -/
def ListingFormat.ofWord (word : String) : Except FormatError ListingFormat :=
  match ListingFormat.all.find? fun format => format.names.contains word.toLower with
  | some format => .ok format
  | none => .error ⟨word⟩

/-- A script in a format. -/
def Script.render (format : ListingFormat) (width : CharWidth) (script : Script) : String :=
  match format with
  | .text => script.toListing
  | .json => (script.toJson width).pretty
  | .jsonLines => script.toJsonLines width
  | .csv => script.toCsv width

end QuestScript
