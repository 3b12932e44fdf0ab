import Mathlib
import QuestScript.Proofs.Instruction.Spelling

/-! Which bytes hold the arguments of some parameters, and how reading them ends.

Bytes hold the arguments if there are enough of them and their strings spell a text. Reading fails
for want of such bytes, or at a parameter of a type that has no spelling, and otherwise succeeds. -/

namespace QuestScript

/-- Whether an error lies in the bytes, and not in the type of a parameter. -/
def DecodeError.liesInBytes : DecodeError → Bool
  | truncated _ _ _ | invalidUtf16 _ => true
  | unsupportedParam _ _ => false

namespace Param

/-- A parameter whose argument has no spelling in bytes. -/
def Unstored (param : Param) : Prop :=
  param.variadic = false ∧ (param.item = .scalar .pointer ∨ param.item = .scalar .any)

instance (param : Param) : Decidable param.Unstored := inferInstanceAs (Decidable (_ ∧ _))

/-- How many of some bytes the arguments of a parameter take, if enough are there and a string among
them spells a text. -/
def extent? (width : CharWidth) (param : Param) (bytes : List UInt8) : Option Nat :=
  if param.variadic then
    match bytes with
    | [] => none
    | count :: items =>
      if param.elementSize * count.toNat ≤ items.length then
        some (1 + param.elementSize * count.toNat)
      else none
  else match param.item with
    | .scalar .string =>
      let units := width.unitsOfBytes (bytes.take maxStringSize)
      let body := units.takeWhile (· != 0)
      -- A terminator counts if there is one.
      (width.text? body).map fun _ => width.unitSize * min (body.length + 1) units.length
    | _ =>
      if param.storedSize width [] ≤ bytes.length then some (param.storedSize width []) else none

end Param

/-- Bytes that hold the arguments of some parameters, one after the other. -/
def HoldsArgs (width : CharWidth) : List Param → List UInt8 → Prop
  | [], _ => True
  | param :: params, bytes =>
    ∃ size, param.extent? width bytes = some size ∧ HoldsArgs width params (bytes.drop size)

namespace Reader

variable {reader : Reader} {size : Nat}

/-- A step that reads `size` bytes if they are there, and else fails for want of them. -/
structure Needs {α : Type} (reader : Reader) (size : Nat) (step : Decoding α) : Prop where
  reads : size ≤ reader.rest.length → ∃ value, step reader = .ok value (reader.skip size)
  fails : reader.rest.length < size →
    ∃ cause next, step reader = .error cause next ∧ cause.liesInBytes = true

/-- What is made of the value that was read needs no more bytes. -/
theorem Needs.map {α β : Type} {step : Decoding α} (needs : reader.Needs size step)
    (make : α → β) : reader.Needs size (do return make (← step)) := by
  constructor
  · intro enough
    obtain ⟨value, read⟩ := needs.reads enough
    -- The value is read and then made into another one, and a failure stays the same.
    exact ⟨make value, bind_of_ok read⟩
  · intro short
    obtain ⟨cause, next, failed, bytes⟩ := needs.fails short
    exact ⟨cause, next, bind_of_error failed, bytes⟩

/-- A byte is read if there is one. -/
theorem needs_u8 (reader : Reader) : reader.Needs 1 u8 := by
  obtain ⟨position, rest⟩ := reader
  cases rest with
  -- Without a byte the word is cut short.
  | nil => exact ⟨by simp, fun _ => ⟨_, _, rfl, rfl⟩⟩
  | cons byte rest => exact ⟨fun _ => ⟨byte, rfl⟩, by simp⟩

/-- A 16-bit word is read if there are two bytes. -/
theorem needs_u16 (reader : Reader) : reader.Needs 2 u16 := by
  obtain ⟨position, rest⟩ := reader
  match rest with
  -- With one byte or none the word is cut short.
  | [] | [_] => exact ⟨by simp, fun _ => ⟨_, _, rfl, rfl⟩⟩
  | low :: high :: rest => exact ⟨fun _ => ⟨_, rfl⟩, by simp⟩

/-- A 32-bit word is read if there are four bytes. -/
theorem needs_u32 (reader : Reader) : reader.Needs 4 u32 := by
  obtain ⟨position, rest⟩ := reader
  match rest with
  -- With three bytes or fewer the word is cut short.
  | [] | [_] | [_, _] | [_, _, _] => exact ⟨by simp, fun _ => ⟨_, _, rfl, rfl⟩⟩
  | a :: b :: c :: d :: rest => exact ⟨fun _ => ⟨_, rfl⟩, by simp⟩

/-- Bytes are taken if there are enough. -/
theorem needs_take (reader : Reader) (count : Nat) : reader.Needs count (take count) := by
  obtain ⟨position, rest⟩ := reader
  constructor
  · intro enough
    have split := splitExact_append (rest.take count) (rest.drop count)
    rw [List.length_take, Nat.min_eq_left enough, List.take_append_drop] at split
    refine ⟨rest.take count, ?_⟩
    simp only [take, split, skip]
  · intro short
    cases split : splitExact count rest with
    | none =>
      refine ⟨.truncated position count rest.length, ⟨position, rest⟩, ?_, rfl⟩
      simp only [take, split]
    | some parts =>
      -- Bytes that were split off would have been there.
      obtain ⟨size, same⟩ := splitExact_eq_some split
      have total := congrArg List.length same
      rw [List.length_append] at total
      dsimp only at short
      omega

end Reader

namespace Param

variable {width : CharWidth} {mnemonic : String} {param : Param} {reader : Reader}

/-- How reading the arguments of a parameter ends that has a spelling. -/
structure Reads (width : CharWidth) (mnemonic : String) (param : Param) (reader : Reader) :
    Prop where
  ok : ∀ size, param.extent? width reader.rest = some size →
    ∃ args, param.decode width mnemonic reader = .ok args (reader.skip size)
  error : param.extent? width reader.rest = none →
    ∃ cause next, param.decode width mnemonic reader = .error cause next ∧ cause.liesInBytes = true

/-- The items of a variadic parameter, of which there are `count`. -/
def decodeItems (param : Param) (count : Nat) : Decoding (List Arg) :=
  if param.elementSize = 2 then
    do return (← Reader.u16s count).map fun word => .int (.ofNat word.toNat)
  else
    do return (← Reader.take count).map fun byte => .int (.ofNat byte.toNat)

/-- Items need the bytes of all of them. -/
theorem needs_decodeItems (param : Param) (count : Nat) (reader : Reader) :
    reader.Needs (param.elementSize * count) (param.decodeItems count) := by
  -- Words take two bytes each, and all other items one.
  unfold decodeItems
  split
  · rename_i words
    rw [words]
    exact ((reader.needs_take (2 * count)).map wordsOfBytes).map _
  · rename_i bytes
    have one : param.elementSize = 1 := by
      unfold elementSize at bytes ⊢
      split <;> simp_all
    rw [one, Nat.one_mul]
    exact (reader.needs_take count).map _

/-- The items of a variadic parameter are read if all of them are there. -/
theorem reads_variadic (variadic : param.variadic = true) : param.Reads width mnemonic reader := by
  have decoded : param.decode width mnemonic =
      (do let count ← Reader.u8; param.decodeItems count.toNat) := by
    rw [decode, if_pos variadic]
    rfl
  obtain ⟨position, rest⟩ := reader
  cases rest with
  | nil =>
    refine ⟨by simp [extent?, variadic], fun _ => ?_⟩
    refine ⟨.truncated position 1 0, ⟨position, []⟩, ?_, rfl⟩
    rw [decoded]
    rfl
  | cons count items =>
    -- The items stand behind their count.
    have behind := param.needs_decodeItems count.toNat ⟨position + 1, items⟩
    have front : param.decode width mnemonic ⟨position, count :: items⟩ =
        param.decodeItems count.toNat ⟨position + 1, items⟩ := by
      rw [decoded]
      rfl
    constructor
    · -- The bytes of all items are there, and are read with the count.
      intro size found
      simp only [extent?, variadic, if_true] at found
      obtain ⟨enough, made⟩ := Option.ite_none_right_eq_some.mp found
      cases made
      obtain ⟨args, read⟩ := behind.reads enough
      refine ⟨args, ?_⟩
      rw [front, read]
      simp [Reader.skip, Nat.add_assoc, Nat.add_comm 1]
    · intro none
      simp only [extent?, variadic, if_true] at none
      rw [front]
      exact behind.fails (by simpa using none)

/-- A value of a fixed size is read if its bytes are there. -/
theorem reads_of_needs (single : param.variadic = false) (other : param.item ≠ .scalar .string)
    (needs : reader.Needs (param.storedSize width []) (param.decodeScalar width mnemonic)) :
    param.Reads width mnemonic reader := by
  -- What the bytes hold is decided by the fixed size alone.
  have size : param.extent? width reader.rest =
      if param.storedSize width [] ≤ reader.rest.length then some (param.storedSize width [])
      else none := by
    obtain ⟨item, variadic, access⟩ := param
    obtain rfl : variadic = false := single
    unfold extent?
    split <;> simp_all
  -- The argument is the only one, so reading it is reading all arguments.
  have one := needs.map fun arg => [arg]
  have decoded : param.decode width mnemonic =
      (do return [← param.decodeScalar width mnemonic]) := by simp [decode, single]
  rw [← decoded] at one
  constructor
  · intro count found
    rw [size] at found
    obtain ⟨enough, made⟩ := Option.ite_none_right_eq_some.mp found
    cases made
    exact one.reads enough
  · intro none
    rw [size] at none
    exact one.fails (by simpa using none)

/-- A string is read if it spells a text. -/
theorem reads_string (single : param.variadic = false) (string : param.item = .scalar .string) :
    param.Reads width mnemonic reader := by
  have decoded : param.decode width mnemonic =
      (do return [Arg.string (← Reader.string width maxStringSize false)]) := by
    simp [decode, single, decodeScalar, string]
  constructor
  · -- The bytes spell a text, which is read.
    intro size found
    simp only [extent?, single, string, Bool.false_eq_true, if_false] at found
    obtain ⟨text, spelled, rfl⟩ := Option.map_eq_some_iff.mp found
    refine ⟨[.string text], ?_⟩
    rw [decoded]
    apply bind_of_ok
    simp only [Reader.string, spelled]
    rfl
  · -- They spell none, so the string is refused where it starts.
    intro none
    simp only [extent?, single, string, Bool.false_eq_true, if_false,
      Option.map_eq_none_iff] at none
    have failed : ∃ next, Reader.string width maxStringSize false reader =
        .error (.invalidUtf16 reader.position) next := by
      simp only [Reader.string, none]
      exact ⟨_, rfl⟩
    obtain ⟨next, failed⟩ := failed
    exact ⟨_, next, by rw [decoded]; exact bind_of_error failed, rfl⟩

/-- The arguments of a parameter are read if the bytes hold them. -/
theorem reads_of_stored (stored : ¬param.Unstored) : param.Reads width mnemonic reader := by
  cases variadic : param.variadic with
  | true => exact reads_variadic variadic
  | false =>
    by_cases string : param.item = .scalar .string
    · exact reads_string variadic string
    -- All other values have a fixed size, and those without a spelling are excluded.
    refine reads_of_needs variadic string ?_
    obtain ⟨item, single, access⟩ := param
    obtain rfl : single = false := variadic
    cases item with
    | register | tuple elements => exact reader.needs_u8.map _
    | scalar type =>
      cases type with
      | byte => exact reader.needs_u8.map _
      | word | label kind => exact reader.needs_u16.map _
      | dword | float => exact reader.needs_u32.map _
      | string => exact absurd rfl string
      | pointer => exact absurd ⟨rfl, .inl rfl⟩ stored
      | any => exact absurd ⟨rfl, .inr rfl⟩ stored

/-- Nothing is ever read for a parameter without a spelling. -/
theorem decode_of_unstored (unstored : param.Unstored) :
    param.decode width mnemonic reader =
      .error (.unsupportedParam mnemonic param.typeName) reader := by
  obtain ⟨item, variadic, access⟩ := param
  -- Both pointers and values of any type are refused before a byte is read.
  obtain ⟨rfl, rfl | rfl⟩ := unstored
  · rfl
  · rfl

end Param

/-- How reading the arguments of some parameters ends. -/
inductive ArgsOutcome (width : CharWidth) (mnemonic : String) (params : List Param)
    (bytes : List UInt8) : EStateM.Result DecodeError Reader (List Arg) → Prop where
  | read {args : List Arg} {next : Reader} (holds : HoldsArgs width params bytes)
    (stored : ∀ param ∈ params, ¬param.Unstored) :
    ArgsOutcome width mnemonic params bytes (.ok args next)
  | unsupported {next : Reader} (param : Param) (listed : param ∈ params)
    (unstored : param.Unstored) : ArgsOutcome width mnemonic params bytes
      (.error (.unsupportedParam mnemonic param.typeName) next)
  | lacking {cause : DecodeError} {next : Reader} (lacks : ¬HoldsArgs width params bytes)
    (lies : cause.liesInBytes = true) : ArgsOutcome width mnemonic params bytes (.error cause next)

/-- Reading goes on as long as the bytes hold the arguments, and up to the first parameter without
a spelling. -/
theorem argsOutcome_decodeParams (width : CharWidth) (mnemonic : String) (params : List Param)
    (reader : Reader) :
    ArgsOutcome width mnemonic params reader.rest (decodeParams width mnemonic params reader) := by
  induction params generalizing reader with
  | nil => exact .read trivial (by simp)
  | cons param params ih =>
    by_cases unstored : param.Unstored
    · -- A parameter without a spelling ends it before a byte is read.
      have failed : decodeParams width mnemonic (param :: params) reader =
          .error (.unsupportedParam mnemonic param.typeName) reader :=
        bind_of_error (Param.decode_of_unstored unstored)
      rw [failed]
      exact .unsupported param List.mem_cons_self unstored
    have reads : param.Reads width mnemonic reader := Param.reads_of_stored unstored
    cases found : param.extent? width reader.rest with
    | none =>
      -- The bytes do not hold the first argument.
      obtain ⟨cause, next, failed, lies⟩ := reads.error found
      have first : decodeParams width mnemonic (param :: params) reader = .error cause next :=
        bind_of_error failed
      rw [first]
      exact .lacking (by simp [HoldsArgs, found]) lies
    | some size =>
      obtain ⟨args, read⟩ := reads.ok size found
      -- The others are read from behind the bytes of the first one.
      have rest := ih (reader.skip size)
      cases others : decodeParams width mnemonic params (reader.skip size) with
      | ok more next =>
        rw [others] at rest
        cases rest with
        | read holds stored =>
          have whole : decodeParams width mnemonic (param :: params) reader =
              .ok (args ++ more) next := (bind_of_ok read).trans (bind_of_ok others)
          rw [whole]
          exact .read ⟨size, found, holds⟩ (List.forall_mem_cons.mpr ⟨unstored, stored⟩)
      | error cause next =>
        have whole : decodeParams width mnemonic (param :: params) reader = .error cause next :=
          (bind_of_ok read).trans (bind_of_error others)
        rw [others] at rest
        rw [whole]
        cases rest with
        | unsupported other listed none =>
          exact .unsupported other (List.mem_cons_of_mem _ listed) none
        | lacking lacks lies =>
          -- The extent of the first argument is unique, so that the others are missing.
          refine .lacking ?_ lies
          rintro ⟨count, again, holds⟩
          rw [found] at again
          cases again
          exact lacks holds

namespace Opcode

/-- Bytes that hold the arguments of an opcode; one that pops stores none. -/
def Held (width : CharWidth) (opcode : Opcode) (bytes : List UInt8) : Prop :=
  opcode.pops = false → HoldsArgs width opcode.params bytes

/-- An opcode that stores an argument without a spelling. -/
def Undecodable (opcode : Opcode) : Prop :=
  opcode.pops = false ∧ ∃ param ∈ opcode.params, param.Unstored

/-- How reading the arguments of an opcode ends. -/
theorem decodeArgs_cases (width : CharWidth) (opcode : Opcode) (reader : Reader) :
    (opcode.Held width reader.rest ∧ ¬opcode.Undecodable ∧
        ∃ args next, opcode.decodeArgs width reader = .ok args next) ∨
      (opcode.Undecodable ∧ ∃ type next, opcode.decodeArgs width reader =
        .error (.unsupportedParam opcode.mnemonic type) next) ∨
      ¬opcode.Held width reader.rest ∧ ∃ cause next,
        opcode.decodeArgs width reader = .error cause next ∧ cause.liesInBytes = true := by
  cases pops : opcode.pops with
  | true =>
    -- Nothing is read for arguments from the stack.
    refine .inl ⟨by simp [Held, pops], by simp [Undecodable, pops], [], reader, ?_⟩
    rw [decodeArgs, if_pos pops]
    rfl
  | false =>
    -- The three ways to end are those in which the parameters do.
    have read : opcode.decodeArgs width = decodeParams width opcode.mnemonic opcode.params := by
      simp [decodeArgs, pops]
    have ends := argsOutcome_decodeParams width opcode.mnemonic opcode.params reader
    rw [read]
    generalize decodeParams width opcode.mnemonic opcode.params reader = result at ends
    cases ends with
    | @read args next holds stored =>
      refine .inl ⟨fun _ => holds, ?_, args, next, rfl⟩
      rintro ⟨-, param, listed, unstored⟩
      exact stored param listed unstored
    | @unsupported next param listed unstored =>
      exact .inr (.inl ⟨⟨pops, param, listed, unstored⟩, _, next, rfl⟩)
    | @lacking cause next lacks lies =>
      exact .inr (.inr ⟨fun held => lacks (held pops), cause, next, rfl, lies⟩)

end Opcode

section Instructions

variable {table : OpcodeTable} {width : CharWidth} {reader next : Reader} {code : UInt16}

/-- A code that cannot be read is cut short. -/
theorem liesInBytes_of_decodeCode {cause : DecodeError}
    (failed : decodeCode reader = .error cause next) : cause.liesInBytes = true := by
  obtain ⟨position, rest⟩ := reader
  -- The second byte is only missed if the first one announces it.
  match rest with
  | [] =>
    cases failed
    rfl
  | [first] =>
    change (if opensLongCode first then _ else _ : Decoding UInt16) ⟨position + 1, []⟩ = _ at failed
    split at failed
    · cases failed
      rfl
    · cases failed
  | first :: second :: rest =>
    change (if opensLongCode first then _ else _ : Decoding UInt16) ⟨position + 1, _⟩ = _ at failed
    split at failed
    · cases failed
    · cases failed

/-- An instruction is decoded exactly if its code can be read, the bytes behind it hold the
arguments, and each of these has a spelling. -/
theorem exists_decodeInstruction_iff :
    (∃ instruction last, decodeInstruction table width reader = .ok instruction last) ↔
      ∃ code next, decodeCode reader = .ok code next ∧ (table.get code).Held width next.rest ∧
        ¬(table.get code).Undecodable := by
  constructor
  · rintro ⟨instruction, last, read⟩
    obtain ⟨code, next, args, readCode, readArgs, -⟩ := decodeInstruction_eq_ok read
    -- What has been read is not refused, so that only the first way to end is left.
    rcases (table.get code).decodeArgs_cases width next with
      ⟨held, decodable, -⟩ | ⟨-, type, stop, failed⟩ | ⟨-, cause, stop, failed, -⟩
    · exact ⟨code, next, readCode, held, decodable⟩
    · rw [readArgs] at failed
      cases failed
    · rw [readArgs] at failed
      cases failed
  · rintro ⟨code, next, readCode, held, decodable⟩
    -- Bytes that hold decodable arguments leave only this way.
    rcases (table.get code).decodeArgs_cases width next with
      ⟨-, -, args, last, readArgs⟩ | ⟨undecodable, -⟩ | ⟨lacks, -⟩
    · exact ⟨{ opcode := table.get code, args }, last, by
        simp only [decodeInstruction, readCode, readArgs]⟩
    · exact absurd undecodable decodable
    · exact absurd held lacks

/-- Held arguments are refused where one of them has no spelling. -/
theorem decodeInstruction_of_undecodable (readCode : decodeCode reader = .ok code next)
    (held : (table.get code).Held width next.rest) (undecodable : (table.get code).Undecodable) :
    ∃ type last, decodeInstruction table width reader = .error
      ⟨some (table.get code), .unsupportedParam (table.get code).mnemonic type⟩ last := by
  rcases (table.get code).decodeArgs_cases width next with
    ⟨-, decodable, -⟩ | ⟨-, type, last, failed⟩ | ⟨lacks, -⟩
  · -- Of the three ways to end, only the second one is left.
    exact absurd undecodable decodable
  · exact ⟨type, last, by simp only [decodeInstruction, readCode, failed]⟩
  · exact absurd held lacks

/-- Only an opcode with such an argument is refused for the type of a parameter. -/
theorem undecodable_of_unsupported {opcode : Option Opcode} {mnemonic type : String} {last : Reader}
    (failed : decodeInstruction table width reader =
      .error ⟨opcode, .unsupportedParam mnemonic type⟩ last) :
    ∃ code next, decodeCode reader = .ok code next ∧ (table.get code).Undecodable := by
  unfold decodeInstruction at failed
  split at failed
  · rename_i cause stop failedCode
    -- A code that cannot be read lies in the bytes, and not in a type.
    have lies := liesInBytes_of_decodeCode failedCode
    cases failed
    cases lies
  · rename_i code next readCode
    refine ⟨code, next, readCode, ?_⟩
    dsimp only at failed
    rcases (table.get code).decodeArgs_cases width next with
      ⟨-, -, args, stop, readArgs⟩ | ⟨undecodable, -⟩ | ⟨-, cause, stop, short, lies⟩
    · -- Reading has not succeeded, and a cause that lies in the bytes is not in the type either.
      rw [readArgs] at failed
      cases failed
    · exact undecodable
    · rw [short] at failed
      cases failed
      cases lies

end Instructions

/-- Four zeros hold the argument of any parameter. -/
theorem Param.exists_extent?_zeros (param : Param) {count : Nat} (enough : 4 ≤ count) :
    ∃ size ≤ 4, param.extent? .narrow (List.replicate count 0) = some size := by
  obtain ⟨rest, rfl⟩ : ∃ rest, count = rest + 4 := ⟨count - 4, by omega⟩
  obtain ⟨item, variadic, access⟩ := param
  cases variadic with
  | true => exact ⟨1, by omega, by simp [extent?, List.replicate_succ]⟩
  | false =>
    cases item with
    | register | tuple elements => exact ⟨1, by omega, by simp [extent?, storedSize]⟩
    | scalar type =>
      cases type with
      | byte => exact ⟨1, by omega, by simp [extent?, storedSize]⟩
      | word | label kind => exact ⟨2, by omega, by simp [extent?, storedSize]⟩
      | dword | float => exact ⟨4, by omega, by simp [extent?, storedSize]⟩
      | pointer | any => exact ⟨0, by omega, by simp [extent?, storedSize]⟩
      | string =>
        -- A zero ends the string at once.
        exact ⟨1, by omega, by
          simp [extent?, CharWidth.unitsOfBytes, CharWidth.text?, CharWidth.unitSize,
            List.replicate_succ, maxStringSize]⟩

/-- Enough zeros hold the arguments of any parameters. -/
theorem holdsArgs_zeros (params : List Param) {count : Nat} (enough : 4 * params.length ≤ count) :
    HoldsArgs .narrow params (List.replicate count 0) := by
  induction params generalizing count with
  | nil => trivial
  | cons param params ih =>
    rw [List.length_cons] at enough
    -- A parameter takes four zeros at most, and the others are still enough.
    obtain ⟨size, small, found⟩ := param.exists_extent?_zeros (by omega : 4 ≤ count)
    refine ⟨size, found, ?_⟩
    rw [List.drop_replicate]
    exact ih (by omega)

end QuestScript
