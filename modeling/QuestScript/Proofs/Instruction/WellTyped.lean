import QuestScript.Config
import QuestScript.Instruction.Decode
import QuestScript.Instruction.Encode
import QuestScript.Proofs.Bytes.Reader

/-! Instructions whose arguments fit their parameters are read back from their bytes. -/

namespace QuestScript

/-- Whether an argument is a whole number from zero up to a bound. -/
def Arg.isBelow (bound : Nat) : Arg → Bool
  | int value => 0 ≤ value.toInt && value.toInt < bound
  | _ => false

/-- Whether a text can be stored with its terminator and be read back whole. -/
def CharWidth.stores (width : CharWidth) (text : String) : Bool :=
  !text.toList.contains '\x00' && (width == .wide || text.toList.all (·.toNat ≤ 0xFF)) &&
    width.terminatedSize text ≤ maxStringSize

namespace Param

/-- Whether an argument is one that a parameter takes. -/
def takes (width : CharWidth) (param : Param) (arg : Arg) : Bool :=
  match param.item, arg with
  | .register, arg | .tuple _, arg | .scalar .byte, arg => arg.isBelow 256
  | .scalar .word, arg | .scalar (.label _), arg => arg.isBelow 65536
  | .scalar .dword, .int _ => true
  | .scalar .float, .float _ => true
  | .scalar .string, .string text => width.stores text
  -- Pointers and values of any type are never stored with an instruction.
  | _, _ => false

/-- Whether arguments are those that a variadic parameter takes. -/
def takesAll (param : Param) (args : List Arg) : Bool :=
  args.length ≤ 255 && args.all (·.isBelow (256 ^ param.elementSize))

end Param

/-- Whether there is one argument for every parameter, and a variadic one takes all that are left. -/
def argsFit (width : CharWidth) : List Param → List Arg → Bool
  | [], args => args.isEmpty
  | param :: params, args =>
    if param.variadic then param.takesAll args
    else match args with
      | [] => false
      | arg :: others => param.takes width arg && argsFit width params others

/-- An instruction of a table with arguments that fit its parameters. -/
structure Instruction.WellTyped (table : OpcodeTable) (width : CharWidth)
    (instruction : Instruction) : Prop where
  valid : instruction.valid = true
  listed : ∃ code, isReachableCode code = true ∧ instruction.opcode = table.get code
  args : if instruction.opcode.pops then instruction.args = []
    else argsFit width instruction.opcode.params instruction.args = true

namespace Arg

/-- An argument below a bound is the number of some such natural number. -/
theorem isBelow_iff {bound : Nat} (small : bound ≤ 65536) {arg : Arg} :
    arg.isBelow bound = true ↔ ∃ number < bound, arg = .int (.ofNat number) := by
  constructor
  · intro below
    cases arg with
    | int value =>
      simp only [isBelow, Bool.and_eq_true, decide_eq_true_eq] at below
      -- A number that is not negative is the natural number that it is the size of.
      refine ⟨value.toInt.toNat, by omega, congrArg Arg.int ?_⟩
      rw [← Int32.ofInt_eq_ofNat, Int.toNat_of_nonneg below.1, Int32.ofInt_toInt]
    -- What is no whole number is below no bound.
    | float value => simp [isBelow] at below
    | string text => simp [isBelow] at below
  · rintro ⟨number, below, rfl⟩
    -- A bound of a word at most keeps the sign away.
    rw [isBelow, Int32.toInt_ofNat_of_lt (by omega)]
    simp only [Bool.and_eq_true, decide_eq_true_eq]
    omega

/-- The arguments below 256 are the bytes. -/
theorem isBelow_byte {arg : Arg} :
    arg.isBelow 256 = true ↔ ∃ byte : UInt8, arg = .int (.ofNat byte.toNat) := by
  -- A byte is any number below 256.
  rw [isBelow_iff (by decide)]
  constructor
  · rintro ⟨number, below, rfl⟩
    exact ⟨.ofNat number, by rw [UInt8.toNat_ofNat_of_lt' below]⟩
  · rintro ⟨byte, rfl⟩
    exact ⟨byte.toNat, byte.toNat_lt, rfl⟩

/-- The arguments below 65536 are the words. -/
theorem isBelow_word {arg : Arg} :
    arg.isBelow 65536 = true ↔ ∃ word : UInt16, arg = .int (.ofNat word.toNat) := by
  -- A word is any number below 65536.
  rw [isBelow_iff (Nat.le_refl _)]
  constructor
  · rintro ⟨number, below, rfl⟩
    exact ⟨.ofNat number, by rw [UInt16.toNat_ofNat_of_lt' below]⟩
  · rintro ⟨word, rfl⟩
    exact ⟨word.toNat, word.toNat_lt, rfl⟩

/-- A byte is written as itself. -/
@[simp] theorem byteBytes_byte (byte : UInt8) : byteBytes (.int (.ofNat byte.toNat)) = [byte] := by
  -- Only the low byte of the argument is written, and there is no other.
  have small : byte.toNat < 256 := byte.toNat_lt
  simp only [byteBytes, toInt32, List.cons.injEq, and_true, ← UInt8.toNat_inj, UInt8.toNat_ofNat',
    Int32.toUInt32_ofNat', UInt32.toNat_ofNat']
  omega

/-- A word is written as its two bytes. -/
@[simp] theorem wordBytes_word (word : UInt16) :
    wordBytes (.int (.ofNat word.toNat)) = QuestScript.wordBytes word := by
  have small : word.toNat < 65536 := word.toNat_lt
  -- The word fits in the number, and comes back when that is cut to sixteen bits.
  have same : UInt16.ofNat (Int32.ofNat word.toNat).toUInt32.toNat = word := by
    simp only [← UInt16.toNat_inj, UInt16.toNat_ofNat', Int32.toUInt32_ofNat', UInt32.toNat_ofNat']
    omega
  simp only [wordBytes, toInt32, same]

/-- A word is a label. -/
@[simp] theorem labelBytes_word (word : UInt16) :
    labelBytes (.int (.ofNat word.toNat)) = .ok (QuestScript.wordBytes word) := by
  have small : word.toNat < 65536 := word.toNat_lt
  -- A label is checked against the numbers of words before it is written.
  have inside : 0 ≤ (toInt32 (.int (.ofNat word.toNat))).toInt ∧
      (toInt32 (.int (.ofNat word.toNat))).toInt ≤ 0xFFFF := by
    rw [toInt32, Int32.toInt_ofNat_of_lt (by omega)]
    omega
  simp only [labelBytes, inside, and_self, if_true, wordBytes_word]

end Arg

/-- What it takes for a text to be stored and read back. -/
theorem CharWidth.stores_iff {width : CharWidth} {text : String} :
    width.stores text = true ↔ '\x00' ∉ text.toList ∧
      (width = .narrow → ∀ c ∈ text.toList, c.toNat ≤ 0xFF) ∧
        width.terminatedSize text ≤ maxStringSize := by
  cases width <;> simp [stores, and_assoc]

namespace Param

variable (width : CharWidth) (mnemonic : String) {param : Param} {arg : Arg}

/-- An argument that a parameter takes is written, and read back whatever follows it. -/
theorem decodeScalar_encodeScalar {width : CharWidth} (fits : param.takes width arg = true) :
    ∃ bytes, (∀ index, param.encodeScalar width mnemonic index arg = .ok bytes) ∧
      ∀ position rest, param.decodeScalar width mnemonic ⟨position, bytes ++ rest⟩ =
        .ok arg ⟨position + bytes.length, rest⟩ := by
  obtain ⟨item, variadic, access⟩ := param
  -- The item says which word the argument is stored in.
  have byteCase : arg.isBelow 256 = true → ∃ bytes, arg.byteBytes = bytes ∧
      ∀ position rest, (do return Arg.int (.ofNat (← Reader.u8).toNat) : Decoding Arg)
        ⟨position, bytes ++ rest⟩ = .ok arg ⟨position + bytes.length, rest⟩ := by
    intro below
    obtain ⟨byte, rfl⟩ := Arg.isBelow_byte.mp below
    exact ⟨[byte], Arg.byteBytes_byte byte, fun position rest => rfl⟩
  have wordCase : arg.isBelow 65536 = true → ∃ bytes, arg.wordBytes = bytes ∧
      arg.labelBytes = .ok bytes ∧
      ∀ position rest, (do return Arg.int (.ofNat (← Reader.u16).toNat) : Decoding Arg)
        ⟨position, bytes ++ rest⟩ = .ok arg ⟨position + bytes.length, rest⟩ := by
    intro below
    obtain ⟨word, rfl⟩ := Arg.isBelow_word.mp below
    refine ⟨_, Arg.wordBytes_word word, Arg.labelBytes_word word, fun position rest => ?_⟩
    rw [bind_of_ok (Reader.u16_wordBytes position word rest)]
    rfl
  -- Registers and tuples are stored like bytes, and labels like words.
  cases item with
  | register =>
    obtain ⟨bytes, written, read⟩ := byteCase fits
    exact ⟨bytes, fun _ => congrArg Except.ok written, read⟩
  | tuple elements =>
    obtain ⟨bytes, written, read⟩ := byteCase fits
    exact ⟨bytes, fun _ => congrArg Except.ok written, read⟩
  | scalar type =>
    cases type with
    | byte =>
      obtain ⟨bytes, written, read⟩ := byteCase fits
      exact ⟨bytes, fun _ => congrArg Except.ok written, read⟩
    | word =>
      obtain ⟨bytes, written, -, read⟩ := wordCase fits
      exact ⟨bytes, fun _ => congrArg Except.ok written, read⟩
    | label kind =>
      obtain ⟨bytes, -, written, read⟩ := wordCase fits
      exact ⟨bytes, fun _ => written, read⟩
    | dword =>
      cases arg with
      | int value =>
        refine ⟨_, fun _ => rfl, fun position rest => ?_⟩
        simp only [decodeScalar, Arg.toInt32]
        -- The bits of a number are kept, with its sign.
        rw [bind_of_ok (Reader.u32_doubleWordBytes position _ rest), Int32.toInt32_toUInt32]
        rfl
      | float value => simp [takes] at fits
      | string text => simp [takes] at fits
    | float =>
      cases arg with
      | float value =>
        refine ⟨_, fun _ => rfl, fun position rest => ?_⟩
        simp only [decodeScalar, Arg.toSingle]
        -- The bits of a floating-point number are kept, whatever it stands for.
        rw [bind_of_ok (Reader.u32_doubleWordBytes position _ rest)]
        rfl
      | int value => simp [takes] at fits
      | string text => simp [takes] at fits
    | string =>
      cases arg with
      | string text =>
        obtain ⟨noZero, latin, short⟩ := CharWidth.stores_iff.mp fits
        refine ⟨_, fun _ => rfl, fun position rest => ?_⟩
        simp only [decodeScalar, Arg.toText, CharWidth.field_length]
        -- A text without zeros ends at the terminator that is written after it.
        rw [CharWidth.field_terminatedSize,
          bind_of_ok (Reader.string_append noZero latin short position rest)]
        rfl
      | int value => simp [takes] at fits
      | float value => simp [takes] at fits
    | pointer => simp [takes] at fits
    | any => simp [takes] at fits

/-- A parameter that is not variadic writes its one argument. -/
theorem encode_single (single : ¬param.variadic = true) (index : Nat) :
    param.encode width mnemonic index [arg] = param.encodeScalar width mnemonic index arg := by
  unfold encode
  rw [if_neg single]

/-- A parameter that is not variadic reads its one argument. -/
theorem decode_single (single : ¬param.variadic = true) {reader next : Reader}
    (read : param.decodeScalar width mnemonic reader = .ok arg next) :
    param.decode width mnemonic reader = .ok [arg] next := by
  rw [decode, if_neg single, bind_of_ok read]
  rfl

/-- Items of two bytes are labels or words, and are written as words. -/
theorem encodeElement_word (wide : param.elementSize = 2) (word : UInt16) :
    param.encodeElement (.int (.ofNat word.toNat)) = .ok (QuestScript.wordBytes word) := by
  -- Only labels and words take two bytes.
  unfold elementSize at wide
  unfold encodeElement
  split
  · exact Arg.labelBytes_word word
  · exact congrArg Except.ok (Arg.wordBytes_word word)
  · rename_i notLabel notWord
    split at wide
    · exact absurd ‹_› (notLabel _)
    · exact absurd ‹_› notWord
    · cases wide

/-- Items of one byte are written as bytes. -/
theorem encodeElement_byte (narrow : param.elementSize ≠ 2) (byte : UInt8) :
    param.encodeElement (.int (.ofNat byte.toNat)) = .ok [byte] := by
  unfold elementSize at narrow
  unfold encodeElement
  -- The two types with words have items of two bytes.
  split
  · rename_i kind item
    simp [item] at narrow
  · rename_i item
    simp [item] at narrow
  · exact congrArg Except.ok (Arg.byteBytes_byte byte)

/-- Items take one byte or two. -/
theorem elementSize_eq_one (narrow : param.elementSize ≠ 2) : param.elementSize = 1 := by
  unfold elementSize at narrow ⊢
  -- The two types with words are excluded.
  split at narrow
  · exact absurd rfl narrow
  · exact absurd rfl narrow
  · rfl

/-- The bytes of a variadic parameter are the count of its items and those of each item. -/
theorem encode_items {α : Type} (make : α → Arg) (spell : α → List UInt8)
    (variadic : param.variadic = true)
    (written : ∀ item, param.encodeElement (make item) = .ok (spell item)) (items : List α)
    (index : Nat) :
    param.encode width mnemonic index (items.map make) =
      .ok (.ofNat items.length :: items.flatMap spell) := by
  -- No item fails to be written.
  have all : (items.map make).mapM param.encodeElement = .ok (items.map spell) := by
    rw [List.mapM_map]
    exact mapM_of_ok fun item _ => written item
  unfold encode
  rw [if_pos variadic, all, List.length_map, List.flatMap_def]
  rfl

/-- The items of a variadic parameter that are words. -/
theorem encode_words (variadic : param.variadic = true) (wide : param.elementSize = 2)
    (words : List UInt16) (index : Nat) :
    param.encode width mnemonic index (words.map fun word => .int (.ofNat word.toNat)) =
      .ok (.ofNat words.length :: words.flatMap QuestScript.wordBytes) :=
  encode_items width mnemonic _ _ variadic (encodeElement_word wide) words index

/-- The items of a variadic parameter that are bytes. -/
theorem encode_bytes (variadic : param.variadic = true) (narrow : param.elementSize ≠ 2)
    (bytes : List UInt8) (index : Nat) :
    param.encode width mnemonic index (bytes.map fun byte => .int (.ofNat byte.toNat)) =
      .ok (.ofNat bytes.length :: bytes) := by
  rw [encode_items width mnemonic _ _ variadic (encodeElement_byte narrow) bytes index,
    List.flatMap_singleton']

/-- Arguments that a variadic parameter takes are written, and read back whatever follows them. -/
theorem decodeVariadic_encode {args : List Arg} (variadic : param.variadic = true)
    (fits : param.takesAll args = true) :
    ∃ bytes, (∀ index, param.encode width mnemonic index args = .ok bytes) ∧
      ∀ position rest, param.decodeVariadic ⟨position, bytes ++ rest⟩ =
        .ok args ⟨position + bytes.length, rest⟩ := by
  simp only [takesAll, Bool.and_eq_true, decide_eq_true_eq, List.all_eq_true] at fits
  obtain ⟨few, below⟩ := fits
  -- The count is a byte of its own, so that it is read back first.
  have counted : ∀ count position rest, Reader.u8 ⟨position, .ofNat count :: rest⟩ =
      .ok (.ofNat count) ⟨position + 1, rest⟩ := fun _ _ _ => rfl
  by_cases wide : param.elementSize = 2
  · -- Every item is a word, and the words are read together.
    obtain ⟨words, rfl⟩ :
        args ∈ Set.range (List.map fun word : UInt16 => Arg.int (.ofNat word.toNat)) := by
      rw [Set.range_list_map]
      intro arg found
      obtain ⟨word, rfl⟩ := Arg.isBelow_word.mp (by simpa [wide] using below arg found)
      exact ⟨word, rfl⟩
    rw [List.length_map] at few
    have count : (UInt8.ofNat words.length).toNat = words.length :=
      UInt8.toNat_ofNat_of_lt' (by change _ < 256; omega)
    refine ⟨_, encode_words width mnemonic variadic wide words, fun position rest => ?_⟩
    rw [decodeVariadic, List.cons_append, bind_of_ok (counted _ _ _), if_pos wide, count,
      bind_of_ok (Reader.u16s_flatMap _ words rest)]
    have size := CharWidth.flatMap_unitBytes_length .wide words
    change (words.flatMap QuestScript.wordBytes).length = 2 * words.length at size
    rw [List.length_cons, size, Nat.add_right_comm, Nat.add_assoc position]
    rfl
  · -- Every item is a byte, and the bytes are taken as they are.
    obtain ⟨bytes, rfl⟩ :
        args ∈ Set.range (List.map fun byte : UInt8 => Arg.int (.ofNat byte.toNat)) := by
      rw [Set.range_list_map]
      intro arg found
      obtain ⟨byte, rfl⟩ :=
        Arg.isBelow_byte.mp (by simpa [elementSize_eq_one wide] using below arg found)
      exact ⟨byte, rfl⟩
    rw [List.length_map] at few
    have count : (UInt8.ofNat bytes.length).toNat = bytes.length :=
      UInt8.toNat_ofNat_of_lt' (by change _ < 256; omega)
    refine ⟨_, encode_bytes width mnemonic variadic wide bytes, fun position rest => ?_⟩
    rw [decodeVariadic, List.cons_append, bind_of_ok (counted _ _ _), if_neg wide, count,
      bind_of_ok (Reader.take_append _ bytes rest)]
    rw [List.length_cons, Nat.add_assoc, Nat.add_comm 1]
    rfl

end Param

/-- A parameter that is not variadic takes the first argument and leaves the others. -/
theorem operandsOf_single {param : Param} (single : ¬param.variadic = true) (params : List Param)
    (arg : Arg) (args : List Arg) :
    operandsOf (param :: params) (arg :: args) = (param, [arg]) :: operandsOf params args := by
  rw [operandsOf, if_neg single]
  rfl

/-- A variadic parameter that is the last one takes all arguments. -/
theorem operandsOf_variadic {param : Param} (variadic : param.variadic = true) (args : List Arg) :
    operandsOf [param] args = [(param, args)] := by
  rw [operandsOf, if_pos variadic, operandsOf]

/-- A variadic parameter that is only ever the last one has none after it. -/
theorem variadicOnlyLast_cons {param : Param} {params : List Param}
    (last : variadicOnlyLast (param :: params) = true) :
    (param.variadic = true → params = []) ∧ variadicOnlyLast params = true := by
  cases params with
  | nil => exact ⟨fun _ => rfl, rfl⟩
  | cons next params =>
    simp only [variadicOnlyLast, List.dropLast_cons_cons, List.all_cons, Bool.and_eq_true,
      Bool.not_eq_true'] at last
    -- Every parameter that another one follows is not variadic.
    refine ⟨fun variadic => ?_, last.2⟩
    rw [variadic] at last
    cases last.1

/-- Arguments that fit their parameters are written, and read back whatever follows them. -/
theorem decodeParams_encodeOperands {width : CharWidth} (mnemonic : String) {params : List Param}
    {args : List Arg} (last : variadicOnlyLast params = true)
    (fits : argsFit width params args = true) :
    ∃ bytes, (∀ index, encodeOperands width mnemonic index (operandsOf params args) = .ok bytes) ∧
      ∀ position rest, decodeParams width mnemonic params ⟨position, bytes ++ rest⟩ =
        .ok args ⟨position + bytes.length, rest⟩ := by
  -- One parameter after the other takes its arguments from the front.
  induction params generalizing args with
  | nil =>
    rw [argsFit, List.isEmpty_iff] at fits
    subst fits
    exact ⟨[], fun _ => rfl, fun _ _ => rfl⟩
  | cons param params ih =>
    obtain ⟨alone, others⟩ := variadicOnlyLast_cons last
    by_cases variadic : param.variadic = true
    · -- A variadic parameter takes all arguments, and nothing is left to read.
      obtain rfl := alone variadic
      simp only [argsFit, variadic, if_true] at fits
      obtain ⟨bytes, written, read⟩ := Param.decodeVariadic_encode width mnemonic variadic
        fits
      refine ⟨bytes, fun index => ?_, fun position rest => ?_⟩
      · rw [operandsOf_variadic variadic, encodeOperands, written]
        exact congrArg Except.ok (List.append_nil bytes)
      · have first : param.decode width mnemonic ⟨position, bytes ++ rest⟩ =
            .ok args ⟨position + bytes.length, rest⟩ := by
          rw [Param.decode, if_pos variadic, read]
        rw [decodeParams, bind_of_ok first]
        exact congrArg (EStateM.Result.ok · _) (List.append_nil args)
    · -- Any other parameter takes the first argument, and the others go on from there.
      cases args with
      | nil => simp [argsFit, variadic] at fits
      | cons arg args =>
        simp only [argsFit, variadic, Bool.false_eq_true, if_false, Bool.and_eq_true] at fits
        obtain ⟨front, written, read⟩ := Param.decodeScalar_encodeScalar mnemonic fits.1
        obtain ⟨back, writtenOthers, readOthers⟩ := ih others fits.2
        refine ⟨front ++ back, fun index => ?_, fun position rest => ?_⟩
        · rw [operandsOf_single variadic, encodeOperands,
            Param.encode_single width mnemonic variadic, written, writtenOthers]
          rfl
        · have first := Param.decode_single width mnemonic variadic (read position (back ++ rest))
          rw [List.append_assoc, decodeParams, bind_of_ok first, bind_of_ok (readOthers _ rest),
            List.length_append, Nat.add_assoc]
          rfl

end QuestScript
