import QuestScript.Proofs.Instruction.RoundTrip

/-! What instructions are written as, compared with the bytes that they were read from.

Both are the same, except that a string is always written with a terminator. One that is cut off by
the limit on its size, or by the end of the bytes, was read without. -/

namespace QuestScript

/-- The first of two places, where the second is counted from the end of a part of some size. -/
def firstPlace? (size : Nat) (first second : Option Nat) : Option Nat :=
  first.or (second.map (size + ·))

/-- Whether a string argument is too long to have been read with its terminator. -/
def Param.overlong (width : CharWidth) (param : Param) (args : List Arg) : Bool :=
  !param.variadic && param.item = .scalar .string &&
    args.head?.any fun arg => maxStringSize < width.terminatedSize arg.toText

/-- Where the text of an argument ends that is too long to have been read with its terminator. -/
def Param.cut? (width : CharWidth) (param : Param) (args : List Arg) : Option Nat :=
  if param.overlong width args then some (param.storedSize width args - width.unitSize) else none

/-- Where the first text among some arguments ends that was read without its terminator. -/
def operandsCut? (width : CharWidth) : List (Param × List Arg) → Option Nat
  | [] => none
  | (param, args) :: rest =>
    firstPlace? (param.storedSize width args) (param.cut? width args) (operandsCut? width rest)

/-- Where the first text in an instruction ends that was read without its terminator. -/
def Instruction.cut? (width : CharWidth) (instruction : Instruction) : Option Nat :=
  if instruction.opcode.pops then none
  else firstPlace? instruction.opcode.size none (operandsCut? width instruction.operands)

/-- Where the first text in some code ends that was read without its terminator. -/
def codeCut? (width : CharWidth) : List Instruction → Option Nat
  | [] => none
  | instruction :: rest =>
    firstPlace? (instruction.size width) (instruction.cut? width) (codeCut? width rest)

/-- Bytes that stay the same when they are moved behind some zeros are zeros. -/
theorem zeros_of_shift {count : Nat} (positive : 0 < count) {bytes back rest : List UInt8}
    (same : List.replicate count 0 ++ bytes ++ back = bytes ++ rest) :
    ∀ byte ∈ bytes, byte = 0 := by
  -- From each place one gets back to the front, in steps as wide as the gap.
  have zero : ∀ place, place < bytes.length → bytes[place]? = some 0 := by
    intro place
    induction place using Nat.strongRecOn with
    | ind place ih =>
      intro inside
      have moved := congrArg (·[place]?) same
      simp only [List.append_assoc, List.getElem?_append_left inside] at moved
      rw [← moved]
      by_cases front : place < count
      · rw [List.getElem?_append_left (by simpa using front), List.getElem?_replicate, if_pos front]
      · -- The byte was moved here from a place before.
        rw [List.getElem?_append_right (by simpa using Nat.le_of_not_lt front),
          List.length_replicate, List.getElem?_append_left (by omega)]
        exact ih (place - count) (by omega) (by omega)
  intro byte found
  obtain ⟨place, here⟩ := List.mem_iff_getElem?.mp found
  obtain ⟨inside, -⟩ := List.getElem?_eq_some_iff.mp here
  rw [zero place inside] at here
  exact (Option.some.inj here).symm

/-- Bytes that are written with a gap after some of the parts that were read, and where the first
gap is. -/
inductive Respelled (gap : List UInt8) : List UInt8 → List UInt8 → Option Nat → Prop where
  | nil : Respelled gap [] [] none
  /-- A part is written as it was read. -/
  | copy (front : List UInt8) {bytes written : List UInt8} {place : Option Nat}
    (rest : Respelled gap bytes written place) :
    Respelled gap (front ++ bytes) (front ++ written) (place.map (front.length + ·))
  /-- A gap follows a part that is not all zeros. -/
  | cut (front : List UInt8) (nonzero : ∃ byte ∈ front, byte ≠ 0) {bytes written : List UInt8}
    {place : Option Nat} (rest : Respelled gap bytes written place) :
    Respelled gap (front ++ bytes) (front ++ gap ++ written) (some front.length)

namespace Respelled

variable {gap bytes written others writtenOthers : List UInt8} {place otherPlace : Option Nat}

/-- What is written for two parts is written one after the other. -/
theorem append (first : Respelled gap bytes written place)
    (second : Respelled gap others writtenOthers otherPlace) :
    Respelled gap (bytes ++ others) (written ++ writtenOthers)
      (firstPlace? written.length place otherPlace) := by
  -- The parts of the first come before all of the second.
  induction first with
  | nil =>
    have same : firstPlace? ([] : List UInt8).length none otherPlace = otherPlace := by
      simp [firstPlace?]
    rw [same]
    exact second
  | copy front rest ih =>
    rename_i bytes written place
    have moved : firstPlace? (front ++ written).length (place.map (front.length + ·)) otherPlace =
        (firstPlace? written.length place otherPlace).map (front.length + ·) := by
      cases place <;> cases otherPlace <;> simp [firstPlace?, Nat.add_assoc]
    rw [moved, List.append_assoc, List.append_assoc]
    exact .copy front ih
  | cut front nonzero rest ih =>
    rw [List.append_assoc, List.append_assoc]
    exact .cut front nonzero ih

/-- Without a gap all is written as it was read. -/
theorem eq_of_none (spelled : Respelled gap bytes written none) : bytes = written := by
  -- Every part is then a copy.
  generalize nowhere : (none : Option Nat) = place at spelled
  induction spelled with
  | nil => rfl
  | copy front rest ih =>
    rw [ih (Option.map_eq_none_iff.mp nowhere.symm).symm]
  | cut front nonzero rest ih => cases nowhere

/-- A first gap parts what was read and what is written. -/
theorem split_of_some {stop : Nat} (spelled : Respelled gap bytes written (some stop)) :
    ∃ front back writtenBack later, bytes = front ++ back ∧ written = front ++ gap ++ writtenBack ∧
      front.length = stop ∧ (∃ byte ∈ front, byte ≠ 0) ∧ Respelled gap back writtenBack later := by
  -- The parts in front of the first gap are copies, and are joined to one.
  generalize somewhere : some stop = place at spelled
  induction spelled generalizing stop with
  | nil => cases somewhere
  | copy part rest ih =>
    obtain ⟨place, rfl, rfl⟩ := Option.map_eq_some_iff.mp somewhere.symm
    obtain ⟨front, back, writtenBack, later, rfl, rfl, rfl, ⟨byte, inside, nonzero⟩, others⟩ := ih rfl
    refine ⟨part ++ front, back, writtenBack, later, ?_, ?_, ?_, ⟨byte, ?_, nonzero⟩, others⟩
    · rw [List.append_assoc]
    · simp only [List.append_assoc]
    · rw [List.length_append]
    · exact List.mem_append_right part inside
  | cut part nonzero rest ih =>
    rename_i bytes written place
    cases somewhere
    exact ⟨part, bytes, written, place, rfl, rfl, rfl, nonzero, rest⟩

/-- Nothing that was read is left out. -/
theorem length_le (spelled : Respelled gap bytes written place) :
    bytes.length ≤ written.length := by
  -- A gap only adds bytes.
  induction spelled with
  | nil => exact Nat.le_refl _
  | copy front rest ih =>
    simp only [List.length_append]
    omega
  | cut front nonzero rest ih =>
    simp only [List.length_append]
    omega

/-- Zeros are written without a gap. -/
theorem eq_of_zeros (spelled : Respelled gap bytes written place)
    (zeros : ∀ byte ∈ bytes, byte = 0) : bytes = written := by
  cases place with
  | none => exact spelled.eq_of_none
  | some stop =>
    -- A gap would follow a byte that is not zero.
    obtain ⟨front, back, -, -, rfl, -, -, ⟨byte, inside, nonzero⟩, -⟩ := spelled.split_of_some
    exact absurd (zeros byte (List.mem_append_left back inside)) nonzero

/-- What is written behind a gap of zeros agrees with what was read and follows it only where all of
that is zeros. -/
theorem gap_append_eq_iff {count : Nat} (positive : 0 < count)
    (spelled : Respelled (List.replicate count 0) bytes written place) (tail : List UInt8)
    (room : count + written.length ≤ (bytes ++ tail).length) :
    List.replicate count 0 ++ written = (bytes ++ tail).take (count + written.length) ↔
      (bytes ++ tail).take (count + written.length) =
        List.replicate (count + written.length) 0 := by
  have shorter := spelled.length_le
  -- What was read and the bytes after it fill the room of what is written.
  have split : (bytes ++ tail).take (count + written.length) =
      bytes ++ tail.take (count + written.length - bytes.length) := by
    rw [List.take_append, List.take_of_length_le (by omega)]
  rw [split]
  constructor
  · intro same
    have zeros : ∀ byte ∈ written, byte = 0 := by
      cases place with
      | none =>
        -- The same bytes stand at the front and behind the gap.
        obtain rfl := spelled.eq_of_none
        rw [← List.append_nil (_ ++ _)] at same
        exact zeros_of_shift positive same
      | some stop =>
        -- So do those in front of a second gap, but they are not zeros.
        obtain ⟨front, back, writtenBack, -, rfl, rfl, -, ⟨byte, inside, nonzero⟩, -⟩ :=
          spelled.split_of_some
        rw [List.append_assoc front, List.append_assoc front, ← List.append_assoc] at same
        exact absurd (zeros_of_shift positive same byte inside) nonzero
    rw [← same, List.eq_replicate_of_mem zeros, List.replicate_append_replicate,
      List.length_replicate]
  · intro zeros
    -- With only zeros there is no second gap, so that zeros are all that is written.
    have front : ∀ byte ∈ bytes, byte = 0 := by
      intro byte inside
      refine List.eq_of_mem_replicate (n := count + written.length) ?_
      rw [← zeros]
      exact List.mem_append_left _ inside
    rw [zeros, ← spelled.eq_of_zeros front, List.eq_replicate_of_mem front,
      List.replicate_append_replicate, List.length_replicate]

/-- All is written as it stood among the bytes exactly if there are only zeros from the first gap
on. -/
theorem eq_take_iff {count : Nat} (positive : 0 < count)
    (spelled : Respelled (List.replicate count 0) bytes written place) (tail : List UInt8)
    (room : written.length ≤ (bytes ++ tail).length) :
    written = (bytes ++ tail).take written.length ↔
      ∀ stop, place = some stop →
        ((bytes ++ tail).take written.length).drop stop =
          List.replicate (written.length - stop) 0 := by
  cases place with
  | none =>
    obtain rfl := spelled.eq_of_none
    simp
  | some stop =>
    obtain ⟨front, back, writtenBack, later, rfl, rfl, rfl, -, others⟩ := spelled.split_of_some
    simp only [List.append_assoc, List.length_append, List.length_replicate] at room
    -- In front of the first gap both agree, so that only what is behind it counts.
    have inner := others.gap_append_eq_iff positive tail (by simp only [List.length_append]; omega)
    have whole : (front ++ back ++ tail).take
        (front ++ List.replicate count 0 ++ writtenBack).length =
          front ++ (back ++ tail).take (count + writtenBack.length) := by
      rw [List.append_assoc, List.append_assoc, List.length_append, List.take_length_add_append,
        List.length_append, List.length_replicate]
    rw [whole, List.append_assoc, List.append_cancel_left_eq, inner]
    -- The gap and what is behind it are compared with zeros.
    have left : (front ++ (List.replicate count 0 ++ writtenBack)).length - front.length =
        count + writtenBack.length := by
      simp only [List.length_append, List.length_replicate]
      omega
    constructor
    · rintro same stop ⟨⟩
      rw [List.drop_left, left, same]
    · intro same
      have zeros := same front.length rfl
      rwa [List.drop_left, left] at zeros

end Respelled

/-- A stretch of bytes between two readers, what it is written as, what holds if that is the same,
and where the first text ends that was read without its terminator. -/
structure Spelled (width : CharWidth) (reader next : Reader) (bytes written : List UInt8)
    (fits : Prop) (place : Option Nat) : Prop where
  moves : reader.Moves bytes next
  shorter : bytes.length ≤ written.length
  exact : bytes.length = written.length → bytes = written ∧ fits
  /-- Only the limit on strings has cut off a terminator if there is room for all that is written. -/
  respelled : written.length ≤ reader.rest.length →
    Respelled (List.replicate width.unitSize 0) bytes written place

namespace Spelled

variable {width : CharWidth} {reader middle next : Reader}
  {bytes written others writtenOthers : List UInt8} {fits otherFits : Prop}
  {place otherPlace : Option Nat}

/-- Bytes that are written as they were read. -/
theorem of_moves (moved : reader.Moves bytes next) (holds : fits) :
    Spelled width reader next bytes bytes fits none where
  moves := moved
  shorter := Nat.le_refl _
  exact := fun _ => ⟨rfl, holds⟩
  respelled := fun _ => by
    -- Nothing is respelled: all bytes are copied from one place to the other.
    have whole := @Respelled.copy (List.replicate width.unitSize 0) bytes [] [] none .nil
    simpa using whole

/-- What holds if all is written as it was read may be stated in other words. -/
theorem imp (spelled : Spelled width reader next bytes written fits place)
    (implies : fits → otherFits) : Spelled width reader next bytes written otherFits place where
  moves := spelled.moves
  shorter := spelled.shorter
  exact := fun same => ⟨(spelled.exact same).1, implies (spelled.exact same).2⟩
  respelled := spelled.respelled

/-- Two stretches that follow each other make one. -/
theorem append (first : Spelled width reader middle bytes written fits place)
    (second : Spelled width middle next others writtenOthers otherFits otherPlace) :
    Spelled width reader next (bytes ++ others) (written ++ writtenOthers) (fits ∧ otherFits)
      (firstPlace? written.length place otherPlace) where
  moves := first.moves.trans second.moves
  shorter := by
    have front := first.shorter
    have back := second.shorter
    simp only [List.length_append]
    omega
  exact := by
    intro same
    simp only [List.length_append] at same
    have front := first.shorter
    have back := second.shorter
    -- Neither part is shorter than what is written, so that both are as long.
    obtain ⟨rfl, holds⟩ := first.exact (by omega)
    obtain ⟨rfl, holdsToo⟩ := second.exact (by omega)
    exact ⟨rfl, holds, holdsToo⟩
  respelled := by
    intro room
    have front := first.shorter
    have rest := congrArg List.length first.moves.rest
    simp only [List.length_append] at room rest
    -- What is left after the first part has room for the second.
    exact (first.respelled (by omega)).append (second.respelled (by omega))

end Spelled

namespace Param

variable {width : CharWidth} {mnemonic : String} {param : Param} {reader next : Reader}

/-- Whether arguments are those that one parameter takes. -/
def fits (width : CharWidth) (param : Param) (args : List Arg) : Bool :=
  if param.variadic then param.takesAll args else args.length == 1 && args.all (param.takes width)

/-- Words that were read for a variadic parameter are written the same. -/
theorem spelled_of_decodeVariadic (width : CharWidth) (mnemonic : String)
    (variadic : param.variadic = true) {args : List Arg}
    (read : param.decodeVariadic reader = .ok args next) :
    ∃ bytes, (∀ index, param.encode width mnemonic index args = .ok bytes) ∧
      bytes.length = param.storedSize width args ∧ reader.Moves bytes next ∧
        param.takesAll args = true := by
  -- The count is a byte in front of the items, and says how many of them are read.
  obtain ⟨count, middle, counted, items⟩ := bind_eq_ok read
  have front := Reader.moves_of_u8 counted
  have small : count.toNat < 256 := count.toNat_lt
  split at items
  -- Items of two bytes are read as words, and their count is the one that was read.
  · rename_i wide
    obtain ⟨words, last, found, made⟩ := bind_eq_ok items
    obtain ⟨rfl, rfl⟩ := pure_eq_ok made
    obtain ⟨size, back⟩ := Reader.moves_of_u16s found
    have same : UInt8.ofNat words.length = count := by rw [size, UInt8.ofNat_toNat]
    refine ⟨_, encode_words width mnemonic variadic wide words, ?_, ?_, ?_⟩
    · have total := CharWidth.flatMap_unitBytes_length .wide words
      change (words.flatMap QuestScript.wordBytes).length = 2 * words.length at total
      simp only [storedSize, variadic, if_true, List.length_cons, List.length_map, wide, total]
      omega
    · rw [same]
      exact front.trans back
    · simp only [takesAll, wide, Bool.and_eq_true, decide_eq_true_eq, List.all_eq_true,
        List.length_map]
      refine ⟨by omega, fun arg found => ?_⟩
      obtain ⟨word, -, rfl⟩ := List.mem_map.mp found
      exact Arg.isBelow_word.mpr ⟨word, rfl⟩
  -- Items of one byte are taken as they are.
  · rename_i narrow
    obtain ⟨bytes, last, found, made⟩ := bind_eq_ok items
    obtain ⟨rfl, rfl⟩ := pure_eq_ok made
    obtain ⟨size, back⟩ := Reader.moves_of_take found
    have same : UInt8.ofNat bytes.length = count := by rw [size, UInt8.ofNat_toNat]
    refine ⟨_, encode_bytes width mnemonic variadic narrow bytes, ?_, ?_, ?_⟩
    · simp only [storedSize, variadic, if_true, List.length_cons, List.length_map,
        elementSize_eq_one narrow]
      omega
    · rw [same]
      exact front.trans back
    · simp only [takesAll, elementSize_eq_one narrow, Bool.and_eq_true, decide_eq_true_eq,
        List.all_eq_true, List.length_map]
      refine ⟨by omega, fun arg found => ?_⟩
      obtain ⟨byte, -, rfl⟩ := List.mem_map.mp found
      exact Arg.isBelow_byte.mpr ⟨byte, rfl⟩

/-- No other argument than a string is cut off. -/
theorem cut?_of_ne_string {args : List Arg} (other : param.item ≠ .scalar .string) :
    param.cut? width args = none := by
  simp [cut?, overlong, other]

/-- A text is not cut off if it fits under the limit with its terminator. -/
theorem cut?_of_short {text : String} (short : width.terminatedSize text ≤ maxStringSize) :
    param.cut? width [.string text] = none := by
  simp [cut?, overlong, Arg.toText, Nat.not_lt.mpr short]

/-- A longer text is cut off where its units end. -/
theorem cut?_of_long (item : param.item = .scalar .string) (single : ¬param.variadic = true)
    {text : String} (long : maxStringSize < width.terminatedSize text) :
    param.cut? width [.string text] = some ((width.units text).flatMap width.unitBytes).length := by
  -- The text is over the limit, and what is stored of it are its units and the terminator.
  have cutOff : param.overlong width [.string text] = true := by
    simp [overlong, single, item, Arg.toText, long]
  have size : param.storedSize width [.string text] = width.terminatedSize text := by
    simp [storedSize, single, item, Arg.toText]
  rw [cut?, if_pos cutOff, size, CharWidth.terminatedSize, Nat.add_sub_cancel,
    CharWidth.flatMap_unitBytes_length]

/-- A text that is longer than the limit has a byte that is not zero. -/
theorem exists_nonzero_of_long {text : String} (noZero : '\x00' ∉ text.toList)
    (long : maxStringSize < width.terminatedSize text) :
    ∃ byte ∈ (width.units text).flatMap width.unitBytes, byte ≠ 0 := by
  have held := CharWidth.holds_units width text
  have absent : 0 ∉ width.units text := fun found =>
    noZero ((CharWidth.zero_mem_units width text).mp found)
  cases front : width.units text with
  | nil =>
    -- Only the terminator of an empty text would have to fit.
    simp only [CharWidth.terminatedSize, front, List.length_nil, maxStringSize] at long
    cases width <;> simp [CharWidth.unitSize] at long
  | cons unit units =>
    rw [front] at held absent
    -- The first unit is no terminator, and one of its bytes shows it.
    have own : width.Holds [unit] := fun narrow _ only => by
      rw [List.mem_singleton.mp only]
      exact held narrow unit List.mem_cons_self
    obtain ⟨byte, found, other⟩ := CharWidth.exists_nonzero_unitBytes own (by
      rintro rfl
      exact absent List.mem_cons_self)
    exact ⟨byte, List.mem_flatMap.mpr ⟨unit, List.mem_cons_self, found⟩, other⟩

/-- A string that was read with its terminator is written the same, and one that was read without
is written with it. -/
theorem spelled_of_string (item : param.item = .scalar .string) (single : ¬param.variadic = true)
    {text : String} (read : Reader.string width maxStringSize false reader = .ok text next) :
    ∃ bytes, Spelled width reader next bytes (width.field text (width.terminatedSize text))
      (param.takes width (.string text) = true) (param.cut? width [.string text]) := by
  obtain ⟨noZero, latin, ended | ⟨cause, moved⟩⟩ := Reader.moves_of_string read
  · -- A text with its terminator is all that is written.
    obtain ⟨fits, moved⟩ := ended
    have stored : param.takes width (.string text) = true := by
      simp only [takes, item]
      exact CharWidth.stores_iff.mpr ⟨noZero, latin, fits⟩
    rw [cut?_of_short fits, CharWidth.field_terminatedSize]
    exact ⟨_, .of_moves moved stored⟩
  · -- A text without its terminator is written with one unit more.
    have unitPos := width.unitSize_pos
    rw [CharWidth.field_terminatedSize]
    refine ⟨_, moved, ?_, ?_, ?_⟩
    · rw [List.length_append]
      omega
    · intro same
      rw [List.length_append, List.length_replicate] at same
      omega
    · intro room
      have rest := congrArg List.length moved.rest
      rw [List.length_append, List.length_replicate] at room
      rw [List.length_append] at rest
      -- There were bytes enough for a terminator, so that it was the limit that cut it off.
      have long : maxStringSize < width.terminatedSize text := by
        rcases cause with long | short
        · exact long
        · omega
      rw [cut?_of_long item single long]
      have cutOff := @Respelled.cut (List.replicate width.unitSize 0) _
        (exists_nonzero_of_long noZero long) [] [] none .nil
      simpa using cutOff

/-- How the argument of a parameter that is not variadic is written, compared with what was read. -/
def SpelledScalar (width : CharWidth) (mnemonic : String) (param : Param) (reader next : Reader)
    (arg : Arg) : Prop :=
  ∃ bytes written, (∀ index, param.encodeScalar width mnemonic index arg = .ok written) ∧
    written.length = param.storedSize width [arg] ∧
      Spelled width reader next bytes written (param.takes width arg = true) (param.cut? width [arg])

/-- Where bytes are read as they are written, the argument is written as it was read. -/
private theorem spelledScalar_of_moves {arg : Arg} {bytes : List UInt8}
    (other : param.item ≠ .scalar .string)
    (written : ∀ index, param.encodeScalar width mnemonic index arg = .ok bytes)
    (size : bytes.length = param.storedSize width [arg]) (moved : reader.Moves bytes next)
    (taken : param.takes width arg = true) : SpelledScalar width mnemonic param reader next arg := by
  refine ⟨bytes, bytes, written, size, ?_⟩
  -- Only strings are cut, and these bytes are none.
  rw [cut?_of_ne_string other]
  exact .of_moves moved taken

/-- The argument of a parameter that is not variadic is written as it was read, up to the terminator
of a string. -/
theorem spelled_of_decodeScalar (single : ¬param.variadic = true) {arg : Arg}
    (read : param.decodeScalar width mnemonic reader = .ok arg next) :
    SpelledScalar width mnemonic param reader next arg := by
  obtain ⟨item, variadic, access⟩ := param
  obtain rfl : variadic = false := by simpa using single
  -- What is read as one byte or as one word is that byte or that word.
  have byteCase : (do return Arg.int (.ofNat (← Reader.u8).toNat) : Decoding Arg) reader =
      .ok arg next → ∃ byte : UInt8, arg = .int (.ofNat byte.toNat) ∧ reader.Moves [byte] next := by
    intro read
    obtain ⟨byte, middle, found, made⟩ := bind_eq_ok read
    obtain ⟨rfl, rfl⟩ := pure_eq_ok made
    exact ⟨byte, rfl, Reader.moves_of_u8 found⟩
  have wordCase : (do return Arg.int (.ofNat (← Reader.u16).toNat) : Decoding Arg) reader =
      .ok arg next → ∃ word : UInt16, arg = .int (.ofNat word.toNat) ∧
        reader.Moves (QuestScript.wordBytes word) next := by
    intro read
    obtain ⟨word, middle, found, made⟩ := bind_eq_ok read
    obtain ⟨rfl, rfl⟩ := pure_eq_ok made
    exact ⟨word, rfl, Reader.moves_of_u16 found⟩
  -- The item says how the argument was read, and it is written the same way.
  cases item with
  | register =>
    obtain ⟨byte, rfl, moved⟩ := byteCase read
    exact spelledScalar_of_moves (by simp) (fun _ => congrArg Except.ok (Arg.byteBytes_byte byte))
      rfl moved (Arg.isBelow_byte.mpr ⟨byte, rfl⟩)
  | tuple elements =>
    obtain ⟨byte, rfl, moved⟩ := byteCase read
    exact spelledScalar_of_moves (by simp) (fun _ => congrArg Except.ok (Arg.byteBytes_byte byte))
      rfl moved (Arg.isBelow_byte.mpr ⟨byte, rfl⟩)
  | scalar type =>
    cases type with
    | byte =>
      obtain ⟨byte, rfl, moved⟩ := byteCase read
      exact spelledScalar_of_moves (by simp) (fun _ => congrArg Except.ok (Arg.byteBytes_byte byte))
        rfl moved (Arg.isBelow_byte.mpr ⟨byte, rfl⟩)
    | word =>
      obtain ⟨word, rfl, moved⟩ := wordCase read
      exact spelledScalar_of_moves (by simp) (fun _ => congrArg Except.ok (Arg.wordBytes_word word))
        rfl moved (Arg.isBelow_word.mpr ⟨word, rfl⟩)
    | label kind =>
      obtain ⟨word, rfl, moved⟩ := wordCase read
      exact spelledScalar_of_moves (by simp) (fun _ => Arg.labelBytes_word word) rfl moved
        (Arg.isBelow_word.mpr ⟨word, rfl⟩)
    | dword =>
      obtain ⟨word, middle, found, made⟩ := bind_eq_ok read
      obtain ⟨rfl, rfl⟩ := pure_eq_ok made
      have same : word.toInt32.toUInt32 = word := by simp
      exact spelledScalar_of_moves (by simp)
        (fun _ => by simp only [encodeScalar, Arg.toInt32, same]) rfl (Reader.moves_of_u32 found) rfl
    | float =>
      obtain ⟨word, middle, found, made⟩ := bind_eq_ok read
      obtain ⟨rfl, rfl⟩ := pure_eq_ok made
      exact spelledScalar_of_moves (by simp) (fun _ => rfl) rfl (Reader.moves_of_u32 found) rfl
    -- Only a string may be written with more than was read.
    | string =>
      obtain ⟨text, middle, found, made⟩ := bind_eq_ok read
      obtain ⟨rfl, rfl⟩ := pure_eq_ok made
      obtain ⟨bytes, spelled⟩ := @spelled_of_string _ ⟨_, _, access⟩ _ _ rfl single _ found
      exact ⟨bytes, _, fun _ => rfl, CharWidth.field_length _ _ _, spelled⟩
    -- Nothing is ever read for a pointer or a value of any type.
    | pointer => cases read
    | any => cases read

/-- The arguments of a parameter are written as they were read, up to the terminator of a string. -/
theorem spelled_of_decode {args : List Arg}
    (read : param.decode width mnemonic reader = .ok args next) :
    ∃ bytes written, (∀ index, param.encode width mnemonic index args = .ok written) ∧
      written.length = param.storedSize width args ∧
        Spelled width reader next bytes written (param.fits width args = true)
          (param.cut? width args) := by
  unfold decode at read
  split at read
  -- Nothing of a variadic parameter is cut off.
  · rename_i variadic
    obtain ⟨bytes, written, size, moved, taken⟩ :=
      spelled_of_decodeVariadic width mnemonic variadic read
    have whole : param.cut? width args = none := by simp [cut?, overlong, variadic]
    rw [whole]
    exact ⟨bytes, bytes, written, size, .of_moves moved (by rw [fits, if_pos variadic, taken])⟩
  -- The one argument is all there is.
  · rename_i single
    obtain ⟨arg, middle, found, made⟩ := bind_eq_ok read
    obtain ⟨rfl, rfl⟩ := pure_eq_ok made
    obtain ⟨bytes, written, encoded, size, spelled⟩ := spelled_of_decodeScalar single found
    refine ⟨bytes, written, fun index => ?_, size, ?_⟩
    · rw [encode_single width mnemonic single, encoded]
    · have same : param.fits width [arg] = param.takes width arg := by simp [fits, single]
      rwa [same]

/-- A parameter that is not variadic has one argument. -/
theorem eq_single_of_decode (single : ¬param.variadic = true) {args : List Arg}
    (read : param.decode width mnemonic reader = .ok args next) : ∃ arg, args = [arg] := by
  rw [decode, if_neg single] at read
  -- The argument is read, and becomes a list by itself.
  obtain ⟨arg, middle, -, made⟩ := bind_eq_ok read
  obtain ⟨rfl, rfl⟩ := pure_eq_ok made
  exact ⟨arg, rfl⟩

end Param

/-- Bytes of some arguments. -/
def operandsSize (width : CharWidth) (operands : List (Param × List Arg)) : Nat :=
  (operands.map fun operand => operand.1.storedSize width operand.2).sum

/-- Arguments are written as they were read, up to the terminators of strings. -/
theorem spelled_of_decodeParams {width : CharWidth} {mnemonic : String} {params : List Param}
    {args : List Arg} {reader next : Reader} (last : variadicOnlyLast params = true)
    (read : decodeParams width mnemonic params reader = .ok args next) :
    ∃ bytes written,
      (∀ index, encodeOperands width mnemonic index (operandsOf params args) = .ok written) ∧
        written.length = operandsSize width (operandsOf params args) ∧
          Spelled width reader next bytes written (argsFit width params args = true)
            (operandsCut? width (operandsOf params args)) := by
  -- The bytes of the parameters follow each other, and so does what is written for them.
  induction params generalizing reader args with
  | nil =>
    obtain ⟨rfl, rfl⟩ := pure_eq_ok read
    exact ⟨[], [], fun _ => rfl, rfl, .of_moves (.refl reader) rfl⟩
  | cons param params ih =>
    obtain ⟨alone, others⟩ := variadicOnlyLast_cons last
    obtain ⟨first, middle, readFirst, back⟩ := bind_eq_ok read
    obtain ⟨rest, stop, readRest, made⟩ := bind_eq_ok back
    obtain ⟨rfl, rfl⟩ := pure_eq_ok made
    obtain ⟨bytes, written, encoded, size, spelled⟩ := Param.spelled_of_decode readFirst
    by_cases variadic : param.variadic = true
    · -- A variadic parameter is the last, so that nothing is read after it.
      obtain rfl := alone variadic
      obtain ⟨rfl, rfl⟩ := pure_eq_ok readRest
      simp only [List.append_nil, operandsOf_variadic variadic]
      refine ⟨bytes, written, fun index => ?_, ?_, ?_⟩
      · rw [encodeOperands, encoded]
        exact congrArg Except.ok (List.append_nil written)
      · simp [operandsSize, size]
      · have place : operandsCut? width [(param, first)] = param.cut? width first := by
          simp [operandsCut?, firstPlace?]
        rw [place]
        refine spelled.imp fun fits => ?_
        simpa [Param.fits, argsFit, variadic] using fits
    · -- Any other parameter has one argument, and the others follow it.
      obtain ⟨arg, rfl⟩ := Param.eq_single_of_decode variadic readFirst
      obtain ⟨otherBytes, otherWritten, otherEncoded, otherSize, otherSpelled⟩ := ih others readRest
      simp only [List.cons_append, List.nil_append, operandsOf_single variadic]
      refine ⟨bytes ++ otherBytes, written ++ otherWritten, fun index => ?_, ?_, ?_⟩
      · rw [encodeOperands, encoded, otherEncoded]
        rfl
      · simp only [operandsSize] at otherSize
        simp [operandsSize, size, otherSize]
      · rw [operandsCut?, ← size]
        refine (spelled.append otherSpelled).imp fun fits => ?_
        simpa [Param.fits, argsFit, variadic] using fits

/-- A code is read from its bytes, and is one that a script can have. -/
theorem moves_of_decodeCode {reader next : Reader} {code : UInt16}
    (read : decodeCode reader = .ok code next) :
    isReachableCode code = true ∧
      ∀ opcode : Opcode, opcode.code = code → reader.Moves opcode.codeBytes next := by
  obtain ⟨first, middle, readFirst, back⟩ := bind_eq_ok read
  have front := Reader.moves_of_u8 readFirst
  have firstSmall : first.toNat < 256 := first.toNat_lt
  split at back
  · -- The first byte announces another one.
    rename_i long
    obtain ⟨second, last, readSecond, made⟩ := bind_eq_ok back
    obtain ⟨rfl, rfl⟩ := pure_eq_ok made
    have secondSmall : second.toNat < 256 := second.toNat_lt
    have value : (UInt16.ofNat (256 * first.toNat + second.toNat)).toNat =
        256 * first.toNat + second.toNat := by
      rw [UInt16.toNat_ofNat']
      omega
    have high : UInt8.ofNat ((256 * first.toNat + second.toNat) / 256) = first := by
      rw [← UInt8.toNat_inj, UInt8.toNat_ofNat']
      omega
    have low : UInt8.ofNat (256 * first.toNat + second.toNat) = second := by
      rw [← UInt8.toNat_inj, UInt8.toNat_ofNat']
      omega
    -- No byte that announces another one is zero.
    have nonzero : first ≠ 0 := by
      rintro rfl
      exact absurd long (by decide)
    have positive : first.toNat ≠ 0 := fun zero => nonzero (UInt8.toNat_inj.mp zero)
    refine ⟨?_, fun opcode same => ?_⟩
    · simp only [isReachableCode, value, high, nonzero, if_false, long]
    · have above : ¬opcode.code ≤ 0xFF := by
        rw [same, UInt16.le_iff_toNat_le, value]
        change ¬256 * first.toNat + second.toNat ≤ 255
        omega
      rw [Opcode.codeBytes, if_neg above, same, value, high, low]
      exact front.trans (Reader.moves_of_u8 readSecond)
  · -- The first byte is all of the code.
    rename_i short
    obtain ⟨rfl, rfl⟩ := pure_eq_ok back
    have value : (UInt16.ofNat first.toNat).toNat = first.toNat := by
      rw [UInt16.toNat_ofNat']
      omega
    refine ⟨?_, fun opcode same => ?_⟩
    · have zero : UInt8.ofNat (first.toNat / 256) = 0 := by
        rw [Nat.div_eq_of_lt firstSmall]
        rfl
      simp only [isReachableCode, value, zero, if_true, UInt8.ofNat_toNat, short, Bool.not_false]
    · have below : opcode.code ≤ 0xFF := by
        rw [same, UInt16.le_iff_toNat_le, value]
        change first.toNat ≤ 255
        omega
      rw [Opcode.codeBytes, if_pos below, same, value, UInt8.ofNat_toNat]
      exact front

/-- An instruction is read as a code and the arguments of its opcode. -/
theorem decodeInstruction_eq_ok {table : OpcodeTable} {width : CharWidth} {reader next : Reader}
    {instruction : Instruction}
    (read : decodeInstruction table width reader = .ok instruction next) :
    ∃ code middle args, decodeCode reader = .ok code middle ∧
      (table.get code).decodeArgs width middle = .ok args next ∧
        instruction = { opcode := table.get code, args } := by
  -- A failure of either step would be the failure of the whole.
  unfold decodeInstruction at read
  split at read
  · cases read
  · rename_i code middle readCode
    dsimp only at read
    split at read
    · cases read
    · rename_i args stop readArgs
      cases read
      exact ⟨code, middle, args, readCode, readArgs, rfl⟩

/-- An instruction is written as it was read, up to the terminators of its strings. -/
theorem spelled_of_decodeInstruction {table : OpcodeTable} {width : CharWidth}
    {reader next : Reader} {instruction : Instruction} (last : table.VariadicLast)
    (read : decodeInstruction table width reader = .ok instruction next) :
    ∃ bytes written, instruction.encode width = .ok written ∧
      written.length = instruction.size width ∧ 0 < bytes.length ∧
        Spelled width reader next bytes written (instruction.WellTyped table width)
          (instruction.cut? width) := by
  obtain ⟨code, middle, args, readCode, readArgs, rfl⟩ := decodeInstruction_eq_ok read
  obtain ⟨reachable, moves⟩ := moves_of_decodeCode readCode
  have moved := moves (table.get code) (table.get_code code)
  have front := (table.get code).size_pos
  unfold Opcode.decodeArgs at readArgs
  split at readArgs
  · -- Nothing is stored with an opcode that pops.
    rename_i pops
    obtain ⟨rfl, rfl⟩ := pure_eq_ok readArgs
    refine ⟨(table.get code).codeBytes, (table.get code).codeBytes,
      by rw [Instruction.encode, if_pos pops], ?_, ?_, ?_⟩
    · rw [Instruction.size, if_pos pops, Opcode.codeBytes_length]
    · rw [Opcode.codeBytes_length]
      exact front
    · rw [Instruction.cut?, if_pos pops]
      exact .of_moves moved ⟨rfl, ⟨code, reachable, rfl⟩, by rw [if_pos pops]⟩
  · -- The arguments stand right after the code.
    rename_i stores
    obtain ⟨bytes, written, encoded, size, spelled⟩ := spelled_of_decodeParams (last code) readArgs
    refine ⟨(table.get code).codeBytes ++ bytes, (table.get code).codeBytes ++ written, ?_, ?_,
      ?_, ?_⟩
    · rw [Instruction.encode, if_neg stores]
      simp only [Instruction.operands, encoded]
      rfl
    · rw [Instruction.size, if_neg stores, List.length_append, Opcode.codeBytes_length, size]
      rfl
    · rw [List.length_append, Opcode.codeBytes_length]
      omega
    · rw [Instruction.cut?, if_neg stores, ← Opcode.codeBytes_length]
      -- The code itself is written as it was read.
      refine ((Spelled.of_moves moved trivial).append spelled).imp fun fits => ?_
      exact ⟨rfl, ⟨code, reachable, rfl⟩, by rw [if_neg stores]; exact fits.2⟩

end QuestScript
