import QuestScript.Csv

/-! Reading comma-separated fields.

What texts spell a table is said by rules for fields, records and lines. A reader goes through a
text once and finds the table that it spells, so that no text spells two tables. Every table of
records that are not empty is spelled by the text that is written for it. -/

namespace QuestScript.Csv

/-- How the value of a field is spelled between quotes. -/
inductive SpellsQuoted : (value text : List Char) → Prop where
  | nil : SpellsQuoted [] []
  /-- A quote is doubled. -/
  | quote {value text : List Char} (rest : SpellsQuoted value text) :
    SpellsQuoted ('"' :: value) ('"' :: '"' :: text)
  /-- Anything else stands for itself, a comma and the end of a line too. -/
  | other {c : Char} {value text : List Char} (notQuote : c ≠ '"')
    (rest : SpellsQuoted value text) : SpellsQuoted (c :: value) (c :: text)

/-- How the value of a field is spelled. -/
inductive SpellsField : (value text : List Char) → Prop where
  /-- As it is, without commas, quotes and ends of lines. -/
  | plain {value : List Char}
    (bare : ∀ c ∈ value, c ≠ ',' ∧ c ≠ '"' ∧ c ≠ '\r' ∧ c ≠ '\n') : SpellsField value value
  /-- Between quotes. -/
  | quoted {value text : List Char} (inner : SpellsQuoted value text) :
    SpellsField value ('"' :: text ++ ['"'])

/-- How a record is spelled: its fields have commas between them. -/
inductive SpellsRecord : List String → List Char → Prop where
  | last {value : String} {text : List Char} (field : SpellsField value.toList text) :
    SpellsRecord [value] text
  | cons {value : String} {values : List String} {text rest : List Char}
    (field : SpellsField value.toList text) (others : SpellsRecord values rest) :
    SpellsRecord (value :: values) (text ++ ',' :: rest)

/-- How a table is spelled: each record is on a line of its own. -/
inductive Spells : List (List String) → List Char → Prop where
  | nil : Spells [] []
  /-- The last line need not be ended if there is something on it. -/
  | last {record : List String} {text : List Char} (line : SpellsRecord record text)
    (something : text ≠ []) : Spells [record] text
  | cons {record : List String} {records : List (List String)} {text ending rest : List Char}
    (line : SpellsRecord record text) (ended : ending = ['\n'] ∨ ending = ['\r', '\n'])
    (others : Spells records rest) : Spells (record :: records) (text ++ ending ++ rest)

/-- Where in a field a reader is. -/
inductive Place where
  /-- Before its first character. -/
  | start
  /-- In a field without quotes. -/
  | plain
  /-- Between quotes. -/
  | quoted
  /-- Behind a quote that ends the field unless another one follows. -/
  | closing
  /-- Behind the first character of a line's end that has two. -/
  | returned
deriving DecidableEq, Repr

/-- What was read of a text so far. -/
structure Reading where
  records : List (List String) := []
  /-- The fields of the record that is not complete. -/
  fields : List String := []
  /-- The value of the field that is not complete. -/
  field : List Char := []
  place : Place := .start
deriving DecidableEq, Repr

namespace Reading

/-- The field is complete. -/
def endField (reading : Reading) : Reading :=
  { reading with fields := reading.fields ++ [String.ofList reading.field], field := [],
                 place := .start }

/-- The record is complete with its last field. -/
def endRecord (reading : Reading) : Reading :=
  { records := reading.records ++ [reading.endField.fields] }

/-- The field has one more character. -/
def push (reading : Reading) (c : Char) (place : Place) : Reading :=
  { reading with field := reading.field ++ [c], place }

/-- What was read after one more character, unless it cannot stand here. -/
def step (reading : Reading) (c : Char) : Option Reading :=
  match reading.place with
  | .quoted =>
    if c = '"' then some { reading with place := .closing } else some (reading.push c .quoted)
  | .returned => if c = '\n' then some reading.endRecord else none
  | place =>
    if c = ',' then some reading.endField
    else if c = '\n' then some reading.endRecord
    else if c = '\r' then some { reading with place := .returned }
    else match place, decide (c = '"') with
      | .start, true => some { reading with place := .quoted }
      | .closing, true => some (reading.push c .quoted)
      | .start, false | .plain, false => some (reading.push c .plain)
      | _, _ => none

/-- The records of a text that ends here, unless it cannot. -/
def finish (reading : Reading) : Option (List (List String)) :=
  match reading.place with
  | .quoted | .returned => none
  -- Behind the end of a line no other record has begun.
  | .start => some (if reading.fields = [] then reading.records else reading.endRecord.records)
  | .plain | .closing => some reading.endRecord.records

end Reading

/-- The table that a text spells. -/
def read (text : String) : Option (List (List String)) :=
  (text.toList.foldlM Reading.step {}).bind Reading.finish

/-- A field can be complete here: the reader is not between quotes, and not within the end of a
line. -/
def Place.Ends (place : Place) : Prop := place = .start ∨ place = .plain ∨ place = .closing

section

variable {reading : Reading}

/-- A comma ends a field. -/
theorem step_comma (ends : reading.place.Ends) : reading.step ',' = some reading.endField := by
  rcases ends with place | place | place <;> simp [Reading.step, place]

/-- The end of a line ends a record. -/
theorem foldlM_ending {ending : List Char} (ended : ending = ['\n'] ∨ ending = ['\r', '\n'])
    (ends : reading.place.Ends) : ending.foldlM Reading.step reading = some reading.endRecord := by
  rcases ended with rfl | rfl
  · rcases ends with place | place | place <;> simp [Reading.step, place]
  · -- Nothing of what was read changes between the two characters.
    rcases ends with place | place | place <;>
      simp [Reading.step, place, Reading.endRecord, Reading.endField]

/-- A character that needs no quotes joins a field without quotes. -/
theorem step_bare {c : Char} (bare : c ≠ ',' ∧ c ≠ '"' ∧ c ≠ '\r' ∧ c ≠ '\n')
    (outside : reading.place = .start ∨ reading.place = .plain) :
    reading.step c = some (reading.push c .plain) := by
  -- No character that has a meaning outside quotes is met.
  obtain ⟨comma, quote, carriage, newline⟩ := bare
  rcases outside with place | place <;>
    simp [Reading.step, place, comma, quote, carriage, newline]

/-- A value that needs no quotes is read as it is. -/
theorem foldlM_bare {value : List Char}
    (bare : ∀ c ∈ value, c ≠ ',' ∧ c ≠ '"' ∧ c ≠ '\r' ∧ c ≠ '\n')
    (outside : reading.place = .start ∨ reading.place = .plain) :
    ∃ place, value.foldlM Reading.step reading =
        some { reading with field := reading.field ++ value, place } ∧
      (place = reading.place ∧ value = [] ∨ place = .plain) := by
  induction value generalizing reading with
  | nil => exact ⟨reading.place, by simp, .inl ⟨rfl, rfl⟩⟩
  | cons c value ih =>
    obtain ⟨first, others⟩ := List.forall_mem_cons.mp bare
    -- Behind its first character, the reader stays in the field.
    obtain ⟨place, run, stays⟩ := @ih (reading.push c .plain) others (.inr rfl)
    refine ⟨place, ?_, .inr ?_⟩
    · rw [List.foldlM_cons, step_bare first outside]
      simpa [Reading.push] using run
    · rcases stays with ⟨same, -⟩ | plain
      · exact same
      · exact plain

/-- A value between quotes is read up to the last quote. -/
theorem foldlM_quoted {value text : List Char} (spelled : SpellsQuoted value text)
    (inside : reading.place = .quoted) :
    text.foldlM Reading.step reading =
      some { reading with field := reading.field ++ value } := by
  induction spelled generalizing reading with
  | nil => simp
  | @quote value text rest ih =>
    -- The first of two quotes could end the field, and the second one shows that it does not.
    have both : ['"', '"'].foldlM Reading.step reading = some (reading.push '"' .quoted) := by
      simp [Reading.step, inside, Reading.push]
    have joined : '"' :: '"' :: text = ['"', '"'] ++ text := rfl
    rw [joined, List.foldlM_append, both]
    simp [Reading.push, ih, inside]
  | @other c value text notQuote rest ih =>
    have one : reading.step c = some (reading.push c .quoted) := by
      simp [Reading.step, inside, notQuote]
    rw [List.foldlM_cons, one]
    simp [Reading.push, ih, inside]

/-- A field is read to where it can be complete. -/
theorem foldlM_field {value text : List Char} (spelled : SpellsField value text)
    (start : reading.place = .start) (empty : reading.field = []) :
    ∃ place, text.foldlM Reading.step reading = some { reading with field := value, place } ∧
      place.Ends ∧ (place = .start → text = []) := by
  cases spelled with
  | plain bare =>
    -- Without quotes the field takes the characters as they come.
    obtain ⟨place, run, stays⟩ := foldlM_bare bare (.inl start)
    rw [empty, List.nil_append] at run
    rcases stays with ⟨rfl, rfl⟩ | rfl
    · exact ⟨_, run, .inl start, fun _ => rfl⟩
    · exact ⟨_, run, .inr (.inl rfl), by simp⟩
  | quoted inner =>
    -- The opening quote, what is between the quotes, and the closing quote are read in turn.
    refine ⟨.closing, ?_, .inr (.inr rfl), by simp⟩
    have opened : reading.step '"' = some { reading with place := .quoted } := by
      simp [Reading.step, start]
    have read := @foldlM_quoted { reading with place := .quoted } _ _ inner rfl
    rw [List.cons_append, List.foldlM_cons, opened]
    simp only [Option.bind_eq_bind, Option.bind_some]
    rw [List.foldlM_append, read]
    simp [Reading.step, empty]

/-- A record is read to where its last field can be complete. -/
theorem foldlM_record {values : List String} {text : List Char} (spelled : SpellsRecord values text)
    (records : List (List String)) (fields : List String) :
    ∃ reading, text.foldlM Reading.step { records, fields } = some reading ∧
      reading.place.Ends ∧ reading.endRecord = { records := records ++ [fields ++ values] } ∧
      fields.length ≤ reading.fields.length ∧
      (reading.place = .start → reading.fields.length = fields.length → text = []) := by
  induction spelled generalizing fields with
  | @last value text field =>
    obtain ⟨place, run, ends, only⟩ := @foldlM_field { records, fields } _ _ field rfl rfl
    refine ⟨_, run, ends, ?_, Nat.le_refl _, fun start _ => only start⟩
    simp [Reading.endRecord, Reading.endField]
  | @cons value values text rest field others ih =>
    obtain ⟨place, run, ends, -⟩ := @foldlM_field { records, fields } _ _ field rfl rfl
    obtain ⟨reading, later, endsLater, complete, more, -⟩ := ih (fields ++ [value])
    rw [List.length_append, List.length_singleton] at more
    -- The comma ends the first field, and the others follow it.
    have comma : Reading.step { records, fields, field := value.toList, place } ',' =
        some { records, fields := fields ++ [value] } := by
      rw [step_comma ends]
      simp [Reading.endField]
    refine ⟨reading, ?_, endsLater, by simpa using complete, by omega, fun _ same => by omega⟩
    rw [List.foldlM_append, run]
    simp only [Option.bind_eq_bind, Option.bind_some, List.foldlM_cons, comma, later]

/-- A table is read record by record. -/
theorem foldlM_table {table : List (List String)} {text : List Char} (spelled : Spells table text)
    (records : List (List String)) :
    (text.foldlM Reading.step { records }).bind Reading.finish = some (records ++ table) := by
  induction spelled generalizing records with
  | nil => simp [Reading.finish]
  | @last record text line something =>
    -- A last line that is not ended is complete if anything of it was read.
    obtain ⟨reading, run, ends, complete, -, only⟩ := foldlM_record line records []
    rw [run, Option.bind_some]
    rw [List.nil_append] at complete
    have done : reading.endRecord.records = records ++ [record] := by rw [complete]
    rcases ends with place | place | place
    · -- Something was read of the record, so that it has begun.
      have begun : reading.fields ≠ [] := fun none => something (only place (by rw [none]))
      simp [Reading.finish, place, begun, done]
    · simp [Reading.finish, place, done]
    · simp [Reading.finish, place, done]
  | @cons record table text ending rest line ended others ih =>
    -- A line that is ended leaves nothing of it behind but the record.
    obtain ⟨reading, run, ends, complete, -⟩ := foldlM_record line records []
    rw [List.nil_append] at complete
    have front : (text ++ ending).foldlM Reading.step { records } =
        some { records := records ++ [record] } := by
      rw [List.foldlM_append, run]
      exact (foldlM_ending ended ends).trans (congrArg some complete)
    rw [List.foldlM_append, front]
    simpa using ih (records ++ [record])

end

/-- A text that spells a table is read as it. -/
theorem read_of_spells {table : List (List String)} {text : String}
    (spelled : Spells table text.toList) : read text = some table :=
  foldlM_table spelled []

/-- Both kinds of line ends, a last line without one, and quotes that are not needed. -/
example : read "a,\"b\"\"c,\n\"\r\n\"\"," = some [["a", "b\"c,\n"], ["", ""]] := by
  decide

/-- A value with its quotes doubled is spelled between quotes. -/
theorem spellsQuoted_doubled (value : List Char) :
    SpellsQuoted value (value.flatMap fun c => if c = '"' then ['"', '"'] else [c]) := by
  -- Only quotes are doubled, and everything else stands for itself.
  induction value with
  | nil => exact .nil
  | cons c value ih =>
    by_cases quote : c = '"'
    · subst quote
      exact .quote ih
    · rw [List.flatMap_cons, if_neg quote]
      exact .other quote ih

/-- A field is written as one of its spellings. -/
theorem spellsField_fieldText (value : List Char) : SpellsField value (fieldText value) := by
  unfold fieldText
  split
  · exact .quoted (spellsQuoted_doubled value)
  · -- Without a character that needs quotes, the value stands for itself.
    rename_i bare
    refine .plain fun c listed => ?_
    have one : needsQuotes c = false := by
      rw [List.any_eq_true] at bare
      exact Bool.eq_false_iff.mpr fun needs => bare ⟨c, listed, needs⟩
    simp only [needsQuotes, Bool.or_eq_false_iff, beq_eq_false_iff_ne] at one
    exact ⟨one.1.1.1, one.1.1.2, one.1.2, one.2⟩

/-- A record is written as one of its spellings. -/
theorem spellsRecord_rowText {row : List String} (some : row ≠ []) :
    SpellsRecord row (rowText (row.map String.toList)) := by
  -- Fields are joined by commas, and there is none behind the last one.
  induction row with
  | nil => exact absurd rfl some
  | cons value values ih =>
    cases values with
    | nil =>
      have single : rowText ([value].map String.toList) = fieldText value.toList := by
        simp [rowText]
      rw [single]
      exact .last (spellsField_fieldText value.toList)
    | cons next others =>
      exact .cons (spellsField_fieldText value.toList) (ih (by simp))

/-- A table is written as one of its spellings. -/
theorem spells_tableText {rows : List (List String)} (filled : ∀ row ∈ rows, row ≠ []) :
    Spells rows (tableText rows).toList := by
  rw [tableText, String.toList_ofList]
  -- Each row is ended by a line feed of its own.
  induction rows with
  | nil => exact .nil
  | cons row rows ih =>
    obtain ⟨first, others⟩ := List.forall_mem_cons.mp filled
    exact .cons (spellsRecord_rowText first) (.inl rfl) (ih others)

end QuestScript.Csv
