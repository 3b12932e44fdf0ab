import Mathlib
import QuestScript.Proofs.Instruction.Presence
import QuestScript.Proofs.Instruction.RoundTrip
import QuestScript.Proofs.Opcode
import QuestScript.Proofs.Param.Grammar

/-! Which opcodes of a configuration can be decoded.

A parameter may be spelled `pointer` or `any` by itself, although only registers hold such values.
An opcode that stores an argument of this kind is accepted, and its instructions are then refused. -/

namespace QuestScript

/-- A text for a single argument that has no spelling in bytes. -/
def SpellsUnstored (text : String) : Prop :=
  ∃ (type : ScalarType) (access : Option Access),
    (type = .pointer ∨ type = .any) ∧ Padded text.toList (type.text access)

/-- An entry for an opcode that stores such an argument with its instructions. -/
def OpcodeEntry.Undecodable (entry : OpcodeEntry) : Prop :=
  entry.stack ≠ .pop ∧ ∃ text ∈ entry.params, SpellsUnstored text

/-- The entry that is in force for a code: the last one. -/
def Config.entry? (config : Config) (code : UInt16) : Option OpcodeEntry :=
  config.opcodes.reverse.find? (·.code == code)

/-- A code whose entry makes it undecodable. -/
def Config.Undecodable (config : Config) (code : UInt16) : Prop :=
  ∃ entry, config.entry? code = some entry ∧ entry.Undecodable

/-- The text of a parameter says whether it has a spelling in bytes. -/
theorem Param.unstored_iff {text : String} {param : Param} (read : ofString text = .ok param) :
    param.Unstored ↔ SpellsUnstored text := by
  constructor
  · -- A parameter without a spelling is a single scalar, and only one form of text is read as that.
    rintro ⟨single, item⟩
    obtain ⟨core, padded, spelled⟩ := ofString_eq_ok.mp read
    cases spelled with
    | variadic inner blank => cases single
    | single inner =>
      cases inner with
      | scalar type access => exact ⟨type, access, by simpa using item, padded⟩
      | register access => simp at item
      | tuple nonempty each => simp at item
  · -- The text is read in one way only, so that the parameter is the one it spells.
    rintro ⟨type, access, bare, padded⟩
    have also := ofString_eq_ok.mpr ⟨_, padded, .single (.scalar type access)⟩
    rw [read] at also
    cases also
    exact ⟨rfl, by simpa using bare⟩

/-- An entry says whether its opcode can be decoded. -/
theorem OpcodeEntry.undecodable_iff {entry : OpcodeEntry} {opcode : Opcode}
    (described : entry.toOpcode = .ok opcode) : opcode.Undecodable ↔ entry.Undecodable := by
  obtain ⟨params, -, spelled, -, rfl⟩ := OpcodeTable.toOpcode_eq_ok described
  have stores : (entry.stack == .pop) = false ↔ entry.stack ≠ .pop := by simp
  have types : (∃ param ∈ params, param.Unstored) ↔ ∃ text ∈ entry.params, SpellsUnstored text := by
    obtain ⟨count, each⟩ := getElem?_mapM spelled
    constructor
    · -- Each parameter was read from a text.
      rintro ⟨param, listed, unstored⟩
      obtain ⟨index, inside, found⟩ := List.mem_iff_getElem.mp listed
      have there : entry.params[index]? = some entry.params[index] :=
        List.getElem?_eq_getElem (count ▸ inside)
      obtain ⟨other, same, read⟩ := each index _ there
      rw [List.getElem?_eq_getElem inside, found] at same
      cases same
      exact ⟨_, List.getElem_mem _, (Param.unstored_iff read).mp unstored⟩
    · rintro ⟨text, listed, spells⟩
      obtain ⟨index, found⟩ := List.mem_iff_getElem?.mp listed
      obtain ⟨param, there, read⟩ := each index text found
      exact ⟨param, List.mem_of_getElem? there, (Param.unstored_iff read).mpr spells⟩
  exact and_congr stores types

/-- All arguments that the standard opcodes store have a spelling. -/
theorem OpcodeTable.standard_stored : ∀ opcode ∈ standard.entered,
    opcode.pops = false → ∀ param ∈ opcode.params, ¬param.Unstored := by
  decide

namespace Config

variable {config : Config} {table : OpcodeTable} {code : UInt16}

/-- Without an entry for it, a code has its standard opcode. -/
theorem get_of_entry?_eq_none (accepted : config.opcodeTable = .ok table)
    (none : config.entry? code = none) : table.get code = OpcodeTable.standard.get code := by
  -- No entry that is added has the code.
  refine OpcodeTable.get_of_addEntries accepted fun entry listed => ?_
  simpa using List.find?_eq_none.mp none entry (List.mem_reverse.mpr listed)

/-- The opcodes of an accepted configuration that cannot be decoded are those of such entries. -/
theorem undecodable_get_iff (accepted : config.opcodeTable = .ok table) :
    (table.get code).Undecodable ↔ config.Undecodable code := by
  unfold Undecodable
  cases found : config.entry? code with
  | some entry =>
    have described := OpcodeTable.toOpcode_get_of_addEntries accepted found
    simp [OpcodeEntry.undecodable_iff described]
  | none =>
    rw [get_of_entry?_eq_none accepted found]
    refine iff_of_false ?_ (by simp)
    rintro ⟨stores, param, listed, unstored⟩
    unfold OpcodeTable.get at stores listed
    cases standard : OpcodeTable.standard.find? code with
    | none =>
      -- A stand-in has no parameters.
      rw [standard] at listed
      cases listed
    | some opcode =>
      rw [standard] at stores listed
      exact OpcodeTable.standard_stored opcode (List.mem_of_find?_eq_some standard) stores param
        listed unstored

/-- An undecodable code is refused somewhere. -/
theorem exists_unsupported (accepted : config.opcodeTable = .ok table)
    (undecodable : config.Undecodable code) :
    ∃ reader opcode mnemonic type next, decodeInstruction table .narrow reader =
      .error ⟨opcode, .unsupportedParam mnemonic type⟩ next := by
  have stored := (undecodable_get_iff accepted).mpr undecodable
  obtain ⟨entry, found, -⟩ := undecodable
  have described := OpcodeTable.toOpcode_get_of_addEntries accepted found
  obtain ⟨params, reachable, -, -, made⟩ := OpcodeTable.toOpcode_eq_ok described
  -- The code is followed by as many zeros as its arguments can take.
  have own : (table.get code).code = entry.code := by rw [made]
  have readCode := decodeCode_codeBytes (table.get code) (by rwa [own]) 0
    (List.replicate (4 * (table.get code).params.length) 0)
  rw [OpcodeTable.get_code] at readCode
  obtain ⟨type, last, failed⟩ := decodeInstruction_of_undecodable readCode
    (fun _ => holdsArgs_zeros _ (Nat.le_refl _)) stored
  exact ⟨_, _, _, type, last, failed⟩

/-- With the opcodes of an accepted configuration, an instruction is decoded exactly if its code can
be read, the bytes behind it are long enough and their strings valid, and its entry does not store a
`pointer` or `any`. If only the last fails, the instruction is refused for the type of a parameter.
So nothing is ever refused for that exactly if no entry in force stores a `pointer` or `any`. -/
theorem decodeInstruction_iff (accepted : config.opcodeTable = .ok table) :
    (∀ width reader,
      (∃ instruction last, decodeInstruction table width reader = .ok instruction last) ↔
        ∃ code next, decodeCode reader = .ok code next ∧ (table.get code).Held width next.rest ∧
          ¬config.Undecodable code) ∧
    (∀ width reader code next, decodeCode reader = .ok code next →
      (table.get code).Held width next.rest → config.Undecodable code →
      ∃ type last, decodeInstruction table width reader = .error
        ⟨some (table.get code), .unsupportedParam (table.get code).mnemonic type⟩ last) ∧
    ((∀ width reader opcode mnemonic type next, decodeInstruction table width reader ≠
        .error ⟨opcode, .unsupportedParam mnemonic type⟩ next) ↔
      ∀ code, ¬config.Undecodable code) := by
  refine ⟨fun width reader => ?_, fun width reader code next readCode held undecodable => ?_, ?_⟩
  · -- The entry in force says whether the opcode of a code can be decoded.
    rw [exists_decodeInstruction_iff]
    simp only [undecodable_get_iff accepted]
  · -- All that the arguments need is there, so that only the type can be refused.
    exact decodeInstruction_of_undecodable readCode held
      ((undecodable_get_iff accepted).mpr undecodable)
  · constructor
    · -- Such an entry is reached by its code, followed by bytes that hold its other arguments.
      intro never code undecodable
      obtain ⟨reader, opcode, mnemonic, type, next, failed⟩ :=
        exists_unsupported accepted undecodable
      exact never .narrow reader opcode mnemonic type next failed
    · -- Only an opcode that stores such a type is refused for it.
      intro none width reader opcode mnemonic type next failed
      obtain ⟨code, -, -, undecodable⟩ := undecodable_of_unsupported failed
      exact none code ((undecodable_get_iff accepted).mp undecodable)

end Config

/-- A configuration with two opcodes that take a pointer, one of them from the stack. -/
def peekConfig : Config :=
  { opcodes := [⟨0x46, "peek", ["reg", " pointer:w "], .none⟩, ⟨0x47, "poke", ["pointer"], .pop⟩] }

/-- The table that it describes. -/
def peekTable : OpcodeTable :=
  (OpcodeTable.standard.insert (.plain 0x46 "peek"
      [.register .read, { item := .scalar .pointer, access := some .write }])).insert
    (.popping 0x47 "poke" [{ item := .scalar .pointer }])

/-- The configuration is accepted. -/
theorem opcodeTable_peekConfig : peekConfig.opcodeTable = .ok peekTable := by cbv

/-- The pointer that comes from the stack does no harm, and the other one makes its opcode
undecodable. -/
theorem decodeInstruction_iff_peekConfig :
    peekConfig.opcodeTable = .ok peekTable ∧
      peekConfig.Undecodable 0x46 ∧ ¬peekConfig.Undecodable 0x47 ∧
      (∃ type last, decodeInstruction peekTable .wide (.ofBytes [0x46, 0x05]) =
        .error ⟨some (peekTable.get 0x46), .unsupportedParam "peek" type⟩ last) ∧
      ∃ instruction last,
        decodeInstruction peekTable .wide (.ofBytes [0x47]) = .ok instruction last := by
  obtain ⟨reads, refuses, -⟩ := Config.decodeInstruction_iff opcodeTable_peekConfig
  -- The text is a pointer with blanks around it.
  have stored : peekConfig.Undecodable 0x46 :=
    ⟨_, rfl, by decide, " pointer:w ", by simp, .pointer, some .write, .inl rfl,
      [' '], [' '], rfl, blank_space, blank_space⟩
  -- The arguments of the other opcode come from the stack, and are not stored.
  have popped : ¬peekConfig.Undecodable 0x47 := by
    rintro ⟨entry, found, stores, -⟩
    cases found
    exact stores rfl
  refine ⟨opcodeTable_peekConfig, stored, popped, ?_, ?_⟩
  · exact refuses .wide (.ofBytes [0x46, 0x05]) 0x46 ⟨1, [0x05]⟩ rfl
      (fun _ => ⟨1, rfl, 0, rfl, trivial⟩) stored
  · exact (reads .wide (.ofBytes [0x47])).mpr
      ⟨0x47, ⟨1, []⟩, rfl, fun stores => absurd stores (by decide), popped⟩

/-- An opcode of an accepted configuration is refused although there are bytes enough behind it. -/
theorem decodeInstruction_unsupported_peekConfig :
    peekConfig.opcodeTable = .ok peekTable ∧
      decodeInstruction peekTable .narrow (.ofBytes [0x46, 0x05, 0x00, 0x00, 0x00, 0x00]) =
        .error ⟨some (peekTable.get 0x46), .unsupportedParam "peek" "pointer"⟩
          ⟨2, [0x00, 0x00, 0x00, 0x00]⟩ :=
  ⟨opcodeTable_peekConfig, rfl⟩

end QuestScript
