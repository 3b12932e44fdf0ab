import QuestScript.Proofs.Instruction.Code

/-! How many bytes are read for an instruction, compared with its size.

The size counts a terminator for every string, and a string may be read without one. So no more
bytes are read than the size says, and as many only if no terminator is missing. -/

namespace QuestScript

namespace Reader

/-- The last unit between two places is a zero. -/
def EndsZero (width : CharWidth) (reader next : Reader) : Prop :=
  ∃ front, reader.Moves (front ++ width.unitBytes 0) next

/-- No more than `size` bytes lie between two places, and as many exactly if something holds. -/
structure Consumes (reader next : Reader) (size : Nat) (whole : Prop) : Prop where
  le : next.position ≤ reader.position + size
  eq_iff : next.position = reader.position + size ↔ whole

namespace Consumes

variable {reader middle next : Reader} {size otherSize : Nat} {whole otherWhole : Prop}

/-- As many bytes as the size says. -/
theorem of_eq (same : next.position = reader.position + size) (holds : whole) :
    reader.Consumes next size whole :=
  ⟨Nat.le_of_eq same, iff_of_true same holds⟩

/-- What decides whether all bytes are there may be stated in other words. -/
theorem congr (consumed : reader.Consumes next size whole) (same : whole ↔ otherWhole) :
    reader.Consumes next size otherWhole :=
  ⟨consumed.le, consumed.eq_iff.trans same⟩

/-- What is missing from one part cannot be made up for by another. -/
theorem trans (first : reader.Consumes middle size whole)
    (second : middle.Consumes next otherSize otherWhole) :
    reader.Consumes next (size + otherSize) (whole ∧ otherWhole) := by
  have front := first.le
  have back := second.le
  refine ⟨by omega, ?_⟩
  -- Both parts are whole exactly if no byte of either one is missing.
  rw [← first.eq_iff, ← second.eq_iff]
  omega

end Consumes

variable {width : CharWidth} {limit : Nat} {reader next : Reader}

/-- Bytes between two places are the only ones there. -/
theorem Moves.unique {bytes others : List UInt8} (moved : reader.Moves bytes next)
    (also : reader.Moves others next) : bytes = others := by
  -- Both are what is in front of the first place without what is in front of the second.
  have same := moved.rest.symm.trans also.rest
  exact List.append_cancel_right same

/-- Bytes that are read from a range of some data are those of the data between two places. -/
theorem Moves.of_within {data found : List UInt8} {start stop : Nat}
    (moved : (within data start stop).Moves found next) (positive : 0 < found.length) :
    (within data start stop).position = start ∧ next = within data next.position stop ∧
      next.position = start + found.length ∧ next.position ≤ min stop data.length ∧
      found = (data.take next.position).drop start := by
  have count := congrArg List.length moved.rest
  simp only [within, List.length_drop, List.length_take, List.length_append] at count
  -- There is a byte to read, so that the reader starts before the end of its range.
  have inside : start < min stop data.length := by omega
  have here : within data start stop =
      ⟨start, (data.take (min stop data.length)).drop start⟩ := by
    simp only [within, Nat.min_eq_left (Nat.le_of_lt inside)]
  rw [here] at moved ⊢
  obtain ⟨rest, position⟩ := moved
  dsimp only at rest position
  have bound : next.position ≤ min stop data.length := by omega
  refine ⟨rfl, ?_, position, bound, ?_⟩
  · -- What is left to read lies behind the bytes that were read.
    have left : next.rest = (data.take (min stop data.length)).drop next.position := by
      rw [position, ← List.drop_drop, rest, List.drop_left]
    simp only [within, Nat.min_eq_left bound, ← left]
  · have front := congrArg (List.take found.length) rest
    rw [List.take_left, List.drop_take, List.take_take, Nat.min_eq_left (by omega)] at front
    rw [List.drop_take, position, Nat.add_sub_cancel_left, front]

/-- Units without a zero do not end with one. -/
theorem not_endsZero {text : String} (noZero : '\x00' ∉ text.toList)
    (moved : reader.Moves ((width.units text).flatMap width.unitBytes) next) :
    ¬reader.EndsZero width next := by
  rintro ⟨front, also⟩
  have same := moved.unique also
  rcases List.eq_nil_or_concat (width.units text) with none | ⟨units, last, split⟩
  · -- There is no room for a zero among no bytes at all.
    have positive := width.unitSize_pos
    have count := congrArg List.length same
    simp [none] at count
    omega
  · -- The bytes of the last unit would be those of a zero.
    have held := CharWidth.holds_units width text
    have absent : 0 ∉ width.units text := fun found =>
      noZero ((CharWidth.zero_mem_units width text).mp found)
    rw [split] at same held absent
    rw [List.concat_eq_append, List.flatMap_append, List.flatMap_singleton] at same
    have spelled := (List.append_inj' same (by simp)).2
    have own : width.Holds [last] := fun narrow unit only => by
      rw [List.mem_singleton.mp only]
      exact held narrow last (by simp)
    obtain ⟨byte, found, nonzero⟩ := CharWidth.exists_nonzero_unitBytes own (by
      rintro rfl
      exact absent (by simp))
    rw [spelled, unitBytes_zero] at found
    exact nonzero (List.eq_of_mem_replicate found)

/-- A string takes the bytes of its text and terminator, less the terminator if it has none. -/
theorem consumes_of_string {text : String}
    (read : string width limit false reader = .ok text next) :
    reader.Consumes next (width.terminatedSize text) (reader.EndsZero width next) := by
  obtain ⟨noZero, -, ⟨-, moved⟩ | ⟨-, moved⟩⟩ := moves_of_string read
  · refine .of_eq ?_ ⟨_, by rw [unitBytes_zero]; exact moved⟩
    rw [moved.position, List.length_append, CharWidth.flatMap_unitBytes_length,
      List.length_replicate]
    rfl
  · -- Only the units of the text were read.
    have positive := width.unitSize_pos
    have position := moved.position
    rw [CharWidth.flatMap_unitBytes_length] at position
    refine ⟨?_, iff_of_false ?_ (not_endsZero noZero moved)⟩
    · simp only [CharWidth.terminatedSize]
      omega
    · simp only [CharWidth.terminatedSize]
      omega

end Reader

namespace Param

variable {width : CharWidth} {mnemonic : String} {param : Param} {reader next : Reader}

/-- An argument that is no string takes the bytes of its parameter. -/
theorem position_of_decodeScalar (single : param.variadic = false)
    (other : param.item ≠ .scalar .string) {arg : Arg}
    (read : param.decodeScalar width mnemonic reader = .ok arg next) :
    next.position = reader.position + param.storedSize width [arg] ∧
      ∀ text, arg ≠ .string text := by
  obtain ⟨item, variadic, access⟩ := param
  obtain rfl : variadic = false := single
  -- A value of a fixed size is read from as many bytes.
  cases item with
  | register =>
    obtain ⟨byte, middle, found, made⟩ := bind_eq_ok read
    obtain ⟨rfl, rfl⟩ := pure_eq_ok made
    exact ⟨(Reader.moves_of_u8 found).position, by simp⟩
  | tuple elements =>
    obtain ⟨byte, middle, found, made⟩ := bind_eq_ok read
    obtain ⟨rfl, rfl⟩ := pure_eq_ok made
    exact ⟨(Reader.moves_of_u8 found).position, by simp⟩
  | scalar type =>
    cases type with
    | byte =>
      obtain ⟨byte, middle, found, made⟩ := bind_eq_ok read
      obtain ⟨rfl, rfl⟩ := pure_eq_ok made
      exact ⟨(Reader.moves_of_u8 found).position, by simp⟩
    | word | label kind =>
      obtain ⟨word, middle, found, made⟩ := bind_eq_ok read
      obtain ⟨rfl, rfl⟩ := pure_eq_ok made
      exact ⟨(Reader.moves_of_u16 found).position, by simp⟩
    | dword | float =>
      obtain ⟨word, middle, found, made⟩ := bind_eq_ok read
      obtain ⟨rfl, rfl⟩ := pure_eq_ok made
      exact ⟨(Reader.moves_of_u32 found).position, by simp⟩
    | string => exact absurd rfl other
    -- Nothing is ever read for a pointer or a value of any type.
    | pointer | any => cases read

/-- The arguments of a parameter take the bytes of their size, less the terminator of a string that
has none. -/
theorem consumes_of_decode {args : List Arg}
    (read : param.decode width mnemonic reader = .ok args next) :
    reader.Consumes next (param.storedSize width args)
      (∀ text, .string text ∈ args → reader.EndsZero width next) := by
  by_cases variadic : param.variadic = true
  · -- The items of a variadic parameter are numbers, and all of them are read.
    rw [decode, if_pos variadic] at read
    obtain ⟨bytes, -, size, moved, taken⟩ :=
      spelled_of_decodeVariadic width mnemonic variadic read
    refine .of_eq (by rw [moved.position, size]) fun text found => ?_
    have below := List.all_eq_true.mp (Bool.and_eq_true_iff.mp taken).2 _ found
    simp [Arg.isBelow] at below
  · rw [decode, if_neg variadic] at read
    obtain ⟨arg, middle, found, made⟩ := bind_eq_ok read
    obtain ⟨rfl, rfl⟩ := pure_eq_ok made
    by_cases string : param.item = .scalar .string
    · rw [decodeScalar, string] at found
      obtain ⟨text, last, readText, named⟩ := bind_eq_ok found
      obtain ⟨rfl, rfl⟩ := pure_eq_ok named
      have size : param.storedSize width [.string text] = width.terminatedSize text := by
        simp [storedSize, variadic, string, Arg.toText]
      rw [size]
      exact (Reader.consumes_of_string readText).congr (by simp)
    · obtain ⟨position, number⟩ := position_of_decodeScalar (by simpa using variadic) string found
      exact .of_eq position fun text same => absurd (List.mem_singleton.mp same).symm (number text)

end Param

/-- Every string among the arguments that are read from here on is ended by a zero unit. -/
inductive StringsEnded (width : CharWidth) (mnemonic : String) : List Param → Reader → Prop where
  | nil (reader : Reader) : StringsEnded width mnemonic [] reader
  | cons {param : Param} {params : List Param} {reader next : Reader} {args : List Arg}
    (read : param.decode width mnemonic reader = .ok args next)
    (ended : ∀ text, .string text ∈ args → reader.EndsZero width next)
    (others : StringsEnded width mnemonic params next) :
    StringsEnded width mnemonic (param :: params) reader

/-- Every string of the instruction that is read from here on is ended by a zero unit; one whose
arguments come from the stack has none. -/
def InstructionEnded (table : OpcodeTable) (width : CharWidth) (reader : Reader) : Prop :=
  ∃ code next, decodeCode reader = .ok code next ∧ ((table.get code).pops = false →
    StringsEnded width (table.get code).mnemonic (table.get code).params next)

section Consumed

variable {width : CharWidth} {mnemonic : String} {params : List Param} {reader next : Reader}
  {args : List Arg} {table : OpcodeTable} {instruction : Instruction}

/-- The strings of some parameters are ended if that of the first one is, and those of the others
are. -/
theorem stringsEnded_cons {param : Param}
    (read : param.decode width mnemonic reader = .ok args next) :
    StringsEnded width mnemonic (param :: params) reader ↔
      (∀ text, .string text ∈ args → reader.EndsZero width next) ∧
        StringsEnded width mnemonic params next := by
  constructor
  · rintro (_ | ⟨readAgain, ended, others⟩)
    -- The first parameter is read only one way.
    rw [read] at readAgain
    cases readAgain
    exact ⟨ended, others⟩
  · rintro ⟨ended, others⟩
    exact .cons read ended others

/-- Arguments take the bytes of their size exactly if every string among them is ended. -/
theorem consumes_of_decodeParams (last : variadicOnlyLast params = true)
    (read : decodeParams width mnemonic params reader = .ok args next) :
    reader.Consumes next (operandsSize width (operandsOf params args))
      (StringsEnded width mnemonic params reader) := by
  induction params generalizing reader args with
  | nil =>
    obtain ⟨rfl, rfl⟩ := pure_eq_ok read
    exact .of_eq rfl (.nil reader)
  | cons param params ih =>
    obtain ⟨alone, others⟩ := variadicOnlyLast_cons last
    obtain ⟨first, middle, readFirst, back⟩ := bind_eq_ok read
    obtain ⟨rest, stop, readRest, made⟩ := bind_eq_ok back
    obtain ⟨rfl, rfl⟩ := pure_eq_ok made
    have front := Param.consumes_of_decode readFirst
    have behind := ih others readRest
    have ended := (front.trans behind).congr (stringsEnded_cons readFirst).symm
    by_cases variadic : param.variadic = true
    · -- A variadic parameter is the last, so that nothing is read after it.
      obtain rfl := alone variadic
      obtain ⟨rfl, rfl⟩ := pure_eq_ok readRest
      rw [List.append_nil, operandsOf_variadic variadic]
      simpa [operandsSize, operandsOf] using ended
    · -- Any other parameter has one argument, and the others follow it.
      obtain ⟨arg, rfl⟩ := Param.eq_single_of_decode variadic readFirst
      rw [List.cons_append, List.nil_append, operandsOf_single variadic]
      simpa [operandsSize] using ended

/-- An instruction takes the bytes of its size exactly if every string of it is ended. -/
theorem consumes_of_decodeInstruction (last : table.VariadicLast)
    (read : decodeInstruction table width reader = .ok instruction next) :
    reader.Consumes next (instruction.size width) (InstructionEnded table width reader) := by
  obtain ⟨code, middle, args, readCode, readArgs, rfl⟩ := decodeInstruction_eq_ok read
  have moved := (moves_of_decodeCode readCode).2 (table.get code) (table.get_code code)
  have front : middle.position = reader.position + (table.get code).size := by
    rw [moved.position, Opcode.codeBytes_length]
  -- A code is read only one way.
  have only : InstructionEnded table width reader ↔ ((table.get code).pops = false →
      StringsEnded width (table.get code).mnemonic (table.get code).params middle) := by
    constructor
    · rintro ⟨other, stop, again, ended⟩
      rw [readCode] at again
      cases again
      exact ended
    · intro ended
      exact ⟨code, middle, readCode, ended⟩
  unfold Opcode.decodeArgs at readArgs
  split at readArgs
  · -- Nothing is stored with an opcode that pops.
    rename_i pops
    obtain ⟨rfl, rfl⟩ := pure_eq_ok readArgs
    rw [Instruction.size, if_pos pops]
    exact .of_eq front (only.mpr fun stores => by simp [pops] at stores)
  · rename_i stores
    have behind := consumes_of_decodeParams (last code) readArgs
    rw [Instruction.size, if_neg stores, ← List.sum_eq_foldr]
    have whole : reader.Consumes middle (table.get code).size True := .of_eq front trivial
    exact (whole.trans behind).congr (by simp [only, stores])

end Consumed

/-- No more bytes are read for an instruction than its size says, and as many exactly if every
string of it is ended by a terminator that was read. Then it is written as the bytes that were read.

The bytes lie between the reader's place and the end of its range. -/
theorem decodeInstruction_consumption {table : OpcodeTable} (last : table.VariadicLast)
    {width : CharWidth} {bytes : List UInt8} {start stop : Nat} {instruction : Instruction}
    {next : Reader}
    (read : decodeInstruction table width (.within bytes start stop) = .ok instruction next) :
    next = .within bytes next.position stop ∧
      start < next.position ∧ next.position ≤ min stop bytes.length ∧
      next.position - start ≤ instruction.size width ∧
      (next.position - start = instruction.size width ↔
        InstructionEnded table width (.within bytes start stop)) ∧
      (next.position - start = instruction.size width →
        instruction.encode width = .ok ((bytes.take next.position).drop start)) := by
  obtain ⟨found, written, encoded, size, positive, spelled⟩ :=
    spelled_of_decodeInstruction last read
  obtain ⟨le, whole⟩ := consumes_of_decodeInstruction last read
  obtain ⟨here, left, position, bound, taken⟩ := spelled.moves.of_within positive
  rw [here] at le whole
  refine ⟨left, by omega, bound, by omega, ?_, fun same => ?_⟩
  · rw [← whole]
    omega
  · -- Nothing was added in writing, so that all was written as it was read.
    obtain ⟨rfl, -⟩ := spelled.exact (by omega)
    rw [encoded, ← taken]

/-- A push of a wide text, as it is read. -/
def pushedText (text : String) : Instruction :=
  { opcode := OpcodeTable.standard.get Code.argPushs, args := [.string text] }

/-- Two bytes are missing if a range ends within a terminator. With the whole terminator in the
range, the instruction is written as it was read. -/
theorem decodeInstruction_consumption_pushedText :
    (decodeInstruction .standard .wide (.within [0x01, 0x4E, 0x61, 0x00, 0x00, 0x00] 1 5) =
        .ok (pushedText "a") ⟨4, [0x00]⟩ ∧
      (pushedText "a").size .wide = 5 ∧
      ¬InstructionEnded .standard .wide (.within [0x01, 0x4E, 0x61, 0x00, 0x00, 0x00] 1 5)) ∧
    decodeInstruction .standard .wide (.within [0x01, 0x4E, 0x61, 0x00, 0x00, 0x00] 1 6) =
        .ok (pushedText "a") ⟨6, []⟩ ∧
      InstructionEnded .standard .wide (.within [0x01, 0x4E, 0x61, 0x00, 0x00, 0x00] 1 6) ∧
      (pushedText "a").encode .wide = .ok [0x4E, 0x61, 0x00, 0x00, 0x00] := by
  have last : OpcodeTable.standard.VariadicLast :=
    OpcodeTable.variadicLast_of_entered OpcodeTable.standard_entered
  have size : (pushedText "a").size .wide = 5 := rfl
  -- The range ends after one byte of the terminator, or after both.
  have cut : decodeInstruction .standard .wide
      (.within [0x01, 0x4E, 0x61, 0x00, 0x00, 0x00] 1 5) = .ok (pushedText "a") ⟨4, [0x00]⟩ := rfl
  have whole : decodeInstruction .standard .wide
      (.within [0x01, 0x4E, 0x61, 0x00, 0x00, 0x00] 1 6) = .ok (pushedText "a") ⟨6, []⟩ := rfl
  obtain ⟨-, -, -, -, short, -⟩ := decodeInstruction_consumption last cut
  obtain ⟨-, -, -, -, ended, written⟩ := decodeInstruction_consumption last whole
  -- Three of the five bytes are in the shorter range, and all of them in the other.
  rw [size] at short ended written
  exact ⟨⟨cut, size, fun all => absurd (short.mpr all) (by decide)⟩, whole, ended.mp rfl,
    written rfl⟩

end QuestScript
