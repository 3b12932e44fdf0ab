/-! Reading texts from the front. -/

namespace QuestScript

/-- A step that reads some of a text, or fails and leaves it as it was. -/
abbrev Scan := StateT (List Char) Option

namespace Scan

variable {α : Type}

/-- The next character, if it is one of a class. -/
def char (isIn : Char → Bool) : Scan Char := fun text =>
  match text with
  | c :: rest => if isIn c then some (c, rest) else none
  | [] => none

/-- A given word. -/
def word (expected : String) : Scan Unit := fun text =>
  let letters := expected.toList
  if letters.isPrefixOf text then some ((), text.drop letters.length) else none

/-- The characters of a class that come next. -/
def span (isIn : Char → Bool) : Scan (List Char) := fun text =>
  some (text.takeWhile isIn, text.dropWhile isIn)

/-- The end of the text. -/
def finish : Scan Unit := fun text =>
  if text.isEmpty then some ((), []) else none

/-- An item, if there is one. -/
def optional (item : Scan α) : Scan (Option α) := fun text =>
  match item text with
  | some (value, rest) => some (some value, rest)
  | none => some (none, text)

/-- The items that come next, `steps` of them at most. -/
def manySteps (item : Scan α) : Nat → List Char → List α × List Char
  | 0, text => ([], text)
  | steps + 1, text =>
    match item text with
    | none => ([], text)
    | some (value, rest) =>
      let (others, rest) := manySteps item steps rest
      (value :: others, rest)

/-- The items that come next.

An item has a character at least, so as many steps as characters suffice. -/
def many (item : Scan α) : Scan (List α) := fun text => some (manySteps item text.length text)

/-- The value of a whole text. -/
def whole? (item : Scan α) (text : String) : Option α :=
  match item text.toList with
  | some (value, []) => some value
  | _ => none

end Scan

/-- The value of a digit of whatever base. -/
def digitValue (c : Char) : Nat :=
  if c.isDigit then c.toNat - '0'.toNat
  else if 'a' ≤ c then c.toNat - 'a'.toNat + 10
  else c.toNat - 'A'.toNat + 10

/-- The number that digits of a base spell. -/
def natOfDigits (base : Nat) (digits : List Char) : Nat :=
  digits.foldl (fun number c => base * number + digitValue c) 0

end QuestScript
