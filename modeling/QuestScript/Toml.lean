import QuestScript.Number.Double

/-! TOML documents, and what may be said more than once in them.

A table can be written in braces, under a header, or by dotted keys. One that is only passed through
on the way to another can still get a header; everything else is defined once. -/

namespace QuestScript.Toml

/-- How a table came to be. -/
inductive TableOrigin where
  /-- It stands in braces, and is complete. -/
  | inline
  /-- It has a header. -/
  | header
  /-- The header of another table names it. -/
  | implied
  /-- A dotted key names it. -/
  | dotted
deriving DecidableEq, Repr

/-- A value in a document. -/
inductive Item where
  | string (text : String)
  | integer (value : Int)
  | float (value : Double)
  | boolean (value : Bool)
  /-- A date, a time, or both; no configuration has a use for which. -/
  | moment
  | array (items : List Item)
  | table (origin : TableOrigin) (fields : List (String × Item))
  /-- Tables with a header in double brackets each. -/
  | tables (elements : List (List (String × Item)))
deriving Repr

/-- The fields of a table, none of them twice. -/
abbrev Fields := List (String × Item)

namespace Fields

/-- The value of a field. -/
def get? (fields : Fields) (key : String) : Option Item :=
  (List.find? (fun field => field.1 == key) fields).map (·.2)

/-- The fields with a value in place of the one that a key has. -/
def replace (fields : Fields) (key : String) (item : Item) : Fields :=
  List.map (fun field => if field.1 == key then (key, item) else field) fields

/-- The fields with one more. -/
def add (fields : Fields) (key : String) (item : Item) : Fields := fields ++ [(key, item)]

/-- A change to the last of some tables. -/
def changeLast (change : Fields → Option Fields) (elements : List Fields) : Option Item := do
  let last ← elements.getLast?
  return .tables (elements.dropLast ++ [← change last])

/-- The fields with a value under a dotted key.

The tables on the way may not have headers, and the last one exists only through dotted keys. -/
def putDotted (last : String) (item : Item) : List String → Fields → Option Fields
  | [], fields => if (fields.get? last).isSome then none else some (fields.add last item)
  | key :: path, fields =>
    match fields.get? key with
    | none => do return fields.add key (.table .dotted (← putDotted last item path []))
    | some (.table .dotted inner) => do
      return fields.replace key (.table .dotted (← putDotted last item path inner))
    | some (.table .implied inner) => do
      if path.isEmpty then none
      else return fields.replace key (.table .implied (← putDotted last item path inner))
    | some (.tables elements) => do
      if path.isEmpty then none
      else return fields.replace key (← changeLast (putDotted last item path) elements)
    | some _ => none

/-- The fields with a change to the table that a header's keys lead to. -/
def changeAt (change : Fields → Option Fields) : List String → Fields → Option Fields
  | [], fields => change fields
  | key :: path, fields =>
    match fields.get? key with
    | none => do return fields.add key (.table .implied (← changeAt change path []))
    | some (.table .inline _) => none
    | some (.table origin inner) => do
      return fields.replace key (.table origin (← changeAt change path inner))
    | some (.tables elements) => do
      return fields.replace key (← changeLast (changeAt change path) elements)
    | some _ => none

/-- The fields with a table for a header. -/
def openTable (key : String) (fields : Fields) : Option Fields :=
  match fields.get? key with
  | none => some (fields.add key (.table .header []))
  | some (.table .implied inner) => some (fields.replace key (.table .header inner))
  | some _ => none

/-- The fields with a table for a header in double brackets. -/
def openElement (key : String) (fields : Fields) : Option Fields :=
  match fields.get? key with
  | none => some (fields.add key (.tables [[]]))
  | some (.tables elements) => some (fields.replace key (.tables (elements ++ [[]])))
  | some _ => none

end Fields

/-- A key: the names of tables, and the name in the last of them. -/
structure Key where
  path : List String
  last : String
deriving DecidableEq, Repr

/-- A line of a document. -/
inductive Statement where
  | assign (key : Key) (item : Item)
  | table (key : Key)
  | element (key : Key)
deriving Repr

/-- A document up to some line, and the keys of the last header. -/
structure Draft where
  fields : Fields := []
  current : List String := []
deriving Repr

/-- A document with one more line. -/
def Draft.step (draft : Draft) : Statement → Option Draft
  | .assign key item => do
    let fields ← draft.fields.changeAt (Fields.putDotted key.last item key.path) draft.current
    return { draft with fields }
  | .table key => do
    return ⟨← draft.fields.changeAt (Fields.openTable key.last) key.path, key.path ++ [key.last]⟩
  | .element key => do
    return ⟨← draft.fields.changeAt (Fields.openElement key.last) key.path, key.path ++ [key.last]⟩

/-- The fields that the lines of a document define. -/
def assemble (statements : List Statement) : Option Fields :=
  (statements.foldlM Draft.step {}).map (·.fields)

/-- The table in braces that some pairs define. -/
def inlineTable (pairs : List (Key × Item)) : Option Item := do
  let fields ← pairs.foldlM (fun fields (key, item) => Fields.putDotted key.last item key.path fields)
    ([] : Fields)
  return .table .inline fields

end QuestScript.Toml
