import QuestScript.CommandLine.Path

/-! Files as the command line sees them. -/

namespace QuestScript.CommandLine

/-- Why a file could not be read or written. -/
inductive FileError where
  | missing
  | present
  | notDirectory
  | isDirectory
  | nameTooLong
  /-- The bytes are no text in UTF-8. -/
  | notText
  | other (text : String)
deriving DecidableEq, Repr

/-- What an error with a file says. -/
def FileError.message : FileError → String
  | missing => "No such file or directory (os error 2)"
  | present => "File exists (os error 17)"
  | notDirectory => "Not a directory (os error 20)"
  | isDirectory => "Is a directory (os error 21)"
  | nameTooLong => "File name too long (os error 36)"
  | notText => "stream did not contain valid UTF-8"
  | other text => text

/-- The text of some bytes. -/
def textOfBytes (bytes : List UInt8) : Except FileError String :=
  match String.fromUTF8? ⟨bytes.toArray⟩ with
  | some text => .ok text
  | none => .error .notText

/-- What a command does with files. -/
structure FileAccess (m : Type → Type) where
  read : String → m (Except FileError (List UInt8))
  /-- Makes a directory in one that there is already. -/
  makeDirectory : String → m (Except FileError Unit)
  write : String → String → m (Except FileError Unit)

namespace FileAccess

variable {m : Type → Type} [Monad m]

/-- Makes a directory unless it is there. -/
def ensureDirectory (files : FileAccess m) (path : String) : m (Except FileError Unit) := do
  match ← files.makeDirectory path with
  | .error .present =>
    -- Reading tells a directory from a file.
    match ← files.read path with
    | .error .isDirectory => return .ok ()
    | _ => return .error .present
  | result => return result

/-- Makes the first of some directories, and those after it as far as it needs them. -/
def ensureFirst (files : FileAccess m) : List String → m (Except FileError Unit)
  | [] => return .ok ()
  | path :: outer => do
    match ← files.ensureDirectory path with
    | .error .missing =>
      match ← files.ensureFirst outer with
      | .ok _ => files.ensureDirectory path
      | failure => return failure
    | result => return result

/-- Makes a directory, and those that it is in. -/
def ensureDirectories (files : FileAccess m) (path : String) : m (Except FileError Unit) :=
  files.ensureFirst (path :: outerPaths path)

end FileAccess

end QuestScript.CommandLine
