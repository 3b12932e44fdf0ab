import QuestScript.CommandLine.Files

/-! Files and directories that are kept as a value. -/

namespace QuestScript.CommandLine

/-- Files and directories, each by the names on the way to it from the root. -/
structure FileStore where
  /-- The directory that paths start in. -/
  home : List String
  files : List (List String × List UInt8)
  /-- Directories other than those that hold the files or `home`. -/
  directories : List (List String) := []
deriving Repr

namespace FileStore

/-- Bytes that a name can have. -/
def longestName : Nat := 255

/-- Bytes that a path can have. -/
def longestPath : Nat := 4095

/-- The bytes of a file. -/
def find? (store : FileStore) (place : List String) : Option (List UInt8) :=
  (store.files.find? (·.1 == place)).map (·.2)

/-- Whether there is a directory. -/
def isDirectory (store : FileStore) (place : List String) : Bool :=
  place.isPrefixOf store.home || store.directories.contains place ||
    store.files.any fun file => place.isPrefixOf file.1 && file.1 != place

/-- Where a part of a path leads from a place. -/
def step (store : FileStore) (place : List String) (part : String) :
    Except FileError (List String) :=
  let next := place ++ [part]
  if !store.isDirectory place then .error .notDirectory
  else if part = "." then .ok place
  else if part = ".." then .ok place.dropLast
  else if longestName < part.utf8ByteSize then .error .nameTooLong
  else if store.isDirectory next || (store.find? next).isSome then .ok next
  else .error .missing

/-- Where a path starts. -/
def start (store : FileStore) (path : String) : Except FileError (List String) :=
  if path.isEmpty then .error .missing
  else if longestPath < path.utf8ByteSize then .error .nameTooLong
  else .ok (if path.startsWith "/" then [] else store.home)

/-- Where a path leads. -/
def locate (store : FileStore) (path : String) : Except FileError (List String) := do
  (pathParts path).foldlM store.step (← store.start path)

/-- The directory in which the last part of a path is looked for, and that part. -/
def locateLast (store : FileStore) (path : String) : Except FileError (List String × String) := do
  let directory ← (pathParts path).dropLast.foldlM store.step (← store.start path)
  if store.isDirectory directory then return (directory, (pathParts path).getLast?.getD ".")
  else throw .notDirectory

/-- The bytes of the file at a path. -/
def read (store : FileStore) (path : String) : Except FileError (List UInt8) := do
  match store.find? (← store.locate path) with
  | none => throw .isDirectory
  | some bytes => if path.endsWith "/" then throw .notDirectory else return bytes

/-- The files with a directory at a path. -/
def makeDirectory (store : FileStore) (path : String) : Except FileError FileStore := do
  let (directory, name) ← store.locateLast path
  match store.step directory name with
  | .ok _ => throw .present
  | .error .missing =>
    return { store with directories := (directory ++ [name]) :: store.directories }
  | .error cause => throw cause

/-- The files with some bytes at a place. -/
def put (store : FileStore) (place : List String) (bytes : List UInt8) : FileStore :=
  { store with files := store.files.filter (·.1 != place) ++ [(place, bytes)] }

/-- The files with a text at a path. -/
def write (store : FileStore) (path text : String) : Except FileError FileStore := do
  let (directory, name) ← store.locateLast path
  if path.endsWith "/" then throw .isDirectory
  match store.step directory name with
  | .ok place =>
    if store.isDirectory place then throw .isDirectory
    else return store.put place text.toUTF8.toList
  | .error .missing => return store.put (directory ++ [name]) text.toUTF8.toList
  | .error cause => throw cause

/-- A change that leaves the files alone if it fails. -/
def attempt (change : FileStore → Except FileError FileStore) :
    StateM FileStore (Except FileError Unit) := fun store =>
  match change store with
  | .ok store => (.ok (), store)
  | .error cause => (.error cause, store)

/-- Access to files that are kept as a value. -/
def access : FileAccess (StateM FileStore) where
  read path := do return (← get).read path
  makeDirectory path := attempt (·.makeDirectory path)
  write path text := attempt (·.write path text)

/-- The files below the directory that paths start in, by their paths. -/
def filesAtHome (store : FileStore) : List (String × List UInt8) :=
  store.files.filterMap fun (place, bytes) =>
    if store.home.isPrefixOf place then
      some ("/".intercalate (place.drop store.home.length), bytes)
    else none

end FileStore

end QuestScript.CommandLine
