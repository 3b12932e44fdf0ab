import QuestScript.CommandLine.Run

/-! The program. -/

namespace QuestScript.CommandLine

/-- The error of a file that the system reports. -/
def fileError : IO.Error → FileError
  | .noFileOrDirectory .. => .missing
  | .alreadyExists .. => .present
  | .inappropriateType _ 20 _ => .notDirectory
  | .inappropriateType _ 21 _ => .isDirectory
  | .invalidArgument _ 36 _ => .nameTooLong
  | failure => .other (toString failure)

/-- The result of an action on files. -/
def caught {α : Type} (action : IO α) : IO (Except FileError α) := do
  try return .ok (← action)
  catch failure => return .error (fileError failure)

/-- Access to the files of the system. -/
def systemFiles : FileAccess IO where
  read path := caught do return (← IO.FS.readBinFile path).toList
  makeDirectory path := caught (IO.FS.createDir path)
  write path text := caught (IO.FS.writeFile path text)

end QuestScript.CommandLine

/-- Runs the program on its arguments. -/
def main (arguments : List String) : IO UInt32 := do
  let (status, output) ←
    QuestScript.CommandLine.run QuestScript.CommandLine.systemFiles arguments
  for message in output.messages do IO.eprintln message
  IO.print output.text
  return .ofNat status
