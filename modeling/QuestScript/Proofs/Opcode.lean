import QuestScript.Config

/-! What can be relied on in a table of opcodes. -/

namespace QuestScript

namespace OpcodeTable

/-- Tables in which a variadic parameter is only ever the last one. -/
def VariadicLast (table : OpcodeTable) : Prop :=
  ∀ code, variadicOnlyLast (table.get code).params = true

/-- What a table lists for a code has that code. -/
theorem find?_code {table : OpcodeTable} {code : UInt16} {opcode : Opcode}
    (found : table.find? code = some opcode) : opcode.code = code := by
  simpa using List.find?_some found

/-- The opcode for a code has that code. -/
@[simp] theorem get_code (table : OpcodeTable) (code : UInt16) : (table.get code).code = code := by
  -- A stand-in for a code that the table lacks is made with the code that was asked for.
  unfold get
  cases found : table.find? code with
  | none => rfl
  | some opcode => exact find?_code found

/-- A table is well formed if all that was entered into it is. -/
theorem variadicLast_of_entered {table : OpcodeTable}
    (entered : ∀ opcode ∈ table.entered, variadicOnlyLast opcode.params = true) :
    table.VariadicLast := by
  intro code
  unfold get
  cases found : table.find? code with
  -- A stand-in has no parameters at all.
  | none => rfl
  | some opcode => exact entered opcode (List.mem_of_find?_eq_some found)

/-- All opcodes of the core instruction set are well formed. -/
theorem standard_entered :
    ∀ opcode ∈ standard.entered, variadicOnlyLast opcode.params = true := by
  decide

/-- An entry describes an opcode if a script can have its code, each of its parameters is spelled,
and only the last of them is variadic. -/
theorem toOpcode_eq_ok {entry : OpcodeEntry} {opcode : Opcode}
    (described : entry.toOpcode = .ok opcode) :
    ∃ params, isReachableCode entry.code = true ∧ entry.params.mapM Param.ofString = .ok params ∧
      variadicOnlyLast params = true ∧
      opcode =
        { code := entry.code, mnemonic := entry.mnemonic, params, stack := entry.stack } := by
  -- An opcode comes out only if all checks are passed.
  unfold OpcodeEntry.toOpcode at described
  split at described
  · cases described
  · rename_i reachable
    split at described
    · cases described
    · rename_i params spelled
      split at described
      · cases described
      · rename_i checked
        cases described
        exact ⟨params, by simpa using reachable, spelled, by simpa using checked, rfl⟩

/-- An opcode that an entry describes has the code of the entry. -/
theorem code_of_toOpcode {entry : OpcodeEntry} {opcode : Opcode}
    (described : entry.toOpcode = .ok opcode) : opcode.code = entry.code := by
  obtain ⟨params, -, -, -, rfl⟩ := toOpcode_eq_ok described
  rfl

/-- An opcode that an entry describes has passed the check of its parameters. -/
theorem toOpcode_variadicOnlyLast {entry : OpcodeEntry} {opcode : Opcode}
    (described : entry.toOpcode = .ok opcode) : variadicOnlyLast opcode.params = true := by
  obtain ⟨params, -, -, checked, rfl⟩ := toOpcode_eq_ok described
  exact checked

/-- Entries keep a table well formed. -/
theorem addEntries_entered {entries : List OpcodeEntry} {table extended : OpcodeTable}
    (entered : ∀ opcode ∈ table.entered, variadicOnlyLast opcode.params = true)
    (added : table.addEntries entries = .ok extended) :
    ∀ opcode ∈ extended.entered, variadicOnlyLast opcode.params = true := by
  -- Entries are added one by one, each in front of the table that the ones before it have made.
  induction entries generalizing table with
  | nil =>
    cases added
    exact entered
  | cons entry entries ih =>
    simp only [addEntries] at added
    split at added
    · cases added
    · rename_i first described
      refine ih ?_ added
      intro opcode found
      rcases List.mem_cons.mp found with rfl | older
      · exact toOpcode_variadicOnlyLast described
      · exact entered opcode older

/-- Entries leave the opcodes of other codes alone. -/
theorem get_of_addEntries {entries : List OpcodeEntry} {table extended : OpcodeTable}
    {code : UInt16}
    (added : table.addEntries entries = .ok extended)
    (other : ∀ entry ∈ entries, entry.code ≠ code) : extended.get code = table.get code := by
  -- Each entry stands in front of the table, and is not found by another code.
  induction entries generalizing table with
  | nil =>
    cases added
    rfl
  | cons entry entries ih =>
    simp only [addEntries] at added
    split at added
    · cases added
    · rename_i opcode described
      rw [ih added fun later listed => other later (List.mem_cons_of_mem _ listed)]
      have apart : opcode.code ≠ code := by
        rw [code_of_toOpcode described]
        exact other entry List.mem_cons_self
      simp [get, find?, insert, apart]

/-- The last entry for a code takes the place of all before it. -/
theorem toOpcode_get_of_addEntries {entries : List OpcodeEntry} {table extended : OpcodeTable}
    {code : UInt16} {entry : OpcodeEntry} (added : table.addEntries entries = .ok extended)
    (last : entries.reverse.find? (·.code == code) = some entry) :
    entry.toOpcode = .ok (extended.get code) := by
  induction entries generalizing table with
  | nil => cases last
  | cons first rest ih =>
    simp only [addEntries] at added
    split at added
    · cases added
    · rename_i opcode described
      rw [List.reverse_cons, List.find?_append] at last
      cases found : rest.reverse.find? (·.code == code) with
      | some later =>
        -- A later entry with the code takes the place of this one.
        rw [found] at last
        cases last
        exact ih added found
      | none =>
        -- No later entry has the code, so that the first one is found in the table.
        rw [found, Option.none_or, List.find?_singleton] at last
        obtain ⟨named, same⟩ := Option.ite_none_right_eq_some.mp last
        cases same
        have other : ∀ later ∈ rest, later.code ≠ code := by
          intro later listed
          simpa using List.find?_eq_none.mp found later (List.mem_reverse.mpr listed)
        have own : opcode.code = code := by
          rw [code_of_toOpcode described]
          exact beq_iff_eq.mp named
        rw [get_of_addEntries added other, described]
        simp [get, find?, insert, own]

end OpcodeTable

/-- Every table that a configuration describes is well formed. -/
theorem Config.opcodeTable_variadicLast {config : Config} {table : OpcodeTable}
    (described : config.opcodeTable = .ok table) : table.VariadicLast :=
  OpcodeTable.variadicLast_of_entered
    (OpcodeTable.addEntries_entered OpcodeTable.standard_entered described)

namespace Opcode

/-- The bytes of a code are as many as its size says. -/
@[simp] theorem codeBytes_length (opcode : Opcode) : opcode.codeBytes.length = opcode.size := by
  unfold codeBytes size
  split <;> rfl

/-- A code has a byte at least. -/
theorem size_pos (opcode : Opcode) : 0 < opcode.size := by
  -- A code is one byte or two.
  unfold size
  split <;> decide

end Opcode

end QuestScript
