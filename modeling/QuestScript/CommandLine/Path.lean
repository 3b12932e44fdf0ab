/-! Paths of files, and the path of a listing. -/

namespace QuestScript.CommandLine

/-- The parts of a path between its slashes. -/
def pathParts (path : String) : List String := (path.splitOn "/").filter (· != "")

/-- Whether a part of a path leads nowhere. -/
def isIdlePart (part : String) : Bool := part == "" || part == "."

/-- The parts of a path between its slashes, from the last one that leads somewhere back to the
first. -/
def partsBack (path : String) : List String :=
  (path.splitOn "/").reverse.dropWhile isIdlePart

/-- The path that ends in a part, of parts in reverse. -/
def pathOfBack (parts : List String) : String := "/".intercalate parts.reverse

/-- The last part of a path, unless that leads to the directory above. -/
def fileName? (path : String) : Option String :=
  (partsBack path).head?.filter (· != "..")

/-- A file's name without its ending. A dot in front belongs to the name. -/
def stem (name : String) : String :=
  let letters := name.toList
  let front := (letters.reverse.dropWhile (· != '.')).drop 1
  if front.isEmpty then name else String.ofList front.reverse

/-- A path whose file has another ending; a path without a file's name stays as it is. -/
def withEnding (path ending : String) : String :=
  match partsBack path with
  | [] => path
  | name :: before =>
    if name = ".." then path
    else
      let isWhole := before.length + 1 = (path.splitOn "/").length
      -- Two dots are left of such a name, which lead to the directory above and take no ending.
      let named := if stem name = "." ∧ isWhole then ".." else stem name ++ "." ++ ending
      pathOfBack (named :: before)

/-- The path of the listing of an input in a directory. -/
def listingPath (directory input ending : String) : String :=
  let base := ((fileName? input).map stem).getD input
  let path := if directory.endsWith "/" then directory ++ base else directory ++ "/" ++ base
  withEnding path ending

/-- The paths that some parts in reverse lead through, the longest first. -/
def pathsBack : List String → List String
  | [] => []
  | part :: before =>
    if isIdlePart part then pathsBack before else pathOfBack (part :: before) :: pathsBack before

/-- The directories that a path leads through, the innermost first. -/
def outerPaths (path : String) : List String := pathsBack ((partsBack path).drop 1)

end QuestScript.CommandLine
