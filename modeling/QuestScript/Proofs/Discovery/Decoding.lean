import QuestScript.Proofs.Instruction.Code

/-! The code of a range is what is read from its start until its end is reached.

A lenient parse goes on after arguments that cannot be read. Readers never go back, also when they
fail, so that there are always enough steps to get to the end. -/

namespace QuestScript

/-- Reading that never goes back, whether it fails or not. -/
def Forward {α : Type} (run : Decoding α) : Prop :=
  ∀ reader, reader.position ≤ (stateAfter (run reader)).position

namespace Forward

variable {α β : Type}

/-- A value is given without reading. -/
theorem pure (value : α) : Forward (Pure.pure value) := by
  intro reader
  exact Nat.le_refl _

/-- A failure leaves the reader where it is. -/
theorem throw (cause : DecodeError) : Forward (MonadExcept.throw cause : Decoding α) := by
  intro reader
  exact Nat.le_refl _

/-- Two parts go forward if each of them does. -/
theorem bind {first : Decoding α} {second : α → Decoding β} (front : Forward first)
    (back : ∀ value, Forward (second value)) : Forward (first >>= second) := by
  intro reader
  have reached := front reader
  cases run : first reader with
  | ok value next =>
    -- The second part starts where the first has come to.
    rw [run] at reached
    rw [bind_of_ok run]
    exact Nat.le_trans reached (back value next)
  | error cause next =>
    rw [run] at reached
    rwa [bind_of_error run]

end Forward

namespace Reader

/-- A byte is behind the reader once it is read. -/
theorem forward_u8 : Forward u8 := by
  intro reader
  -- The reader moves by the byte, or stays where it fails.
  unfold u8
  split <;> simp [stateAfter]

/-- A word is behind the reader once it is read. -/
theorem forward_u16 : Forward u16 := by
  intro reader
  -- The reader moves by two bytes, or stays where it fails.
  unfold u16
  split <;> simp [stateAfter]

/-- A double word is behind the reader once it is read. -/
theorem forward_u32 : Forward u32 := by
  intro reader
  -- The reader moves by four bytes, or stays where it fails.
  unfold u32
  split <;> simp [stateAfter]

/-- Bytes are behind the reader once they are taken. -/
theorem forward_take (count : Nat) : Forward (take count) := by
  intro reader
  -- The reader moves by as many bytes, or stays where it fails.
  unfold take
  split <;> simp [stateAfter]

/-- A string is behind the reader once it is read, also if it spells no text. -/
theorem forward_string (width : CharWidth) (limit : Nat) (whole : Bool) :
    Forward (string width limit whole) := by
  -- The bytes of the string are passed before they are looked at.
  intro reader
  unfold string
  dsimp only
  split <;> simp [stateAfter, skip]

end Reader

namespace Param

/-- The items of a variadic parameter are read forward. -/
theorem forward_decodeVariadic (param : Param) : Forward param.decodeVariadic := by
  refine Reader.forward_u8.bind fun count => ?_
  -- The count is followed by words or by bytes.
  split
  · exact ((Reader.forward_take _).bind fun _ => .pure _).bind fun _ => .pure _
  · exact (Reader.forward_take _).bind fun _ => .pure _

/-- The argument of a parameter that is not variadic is read forward. -/
theorem forward_decodeScalar (width : CharWidth) (mnemonic : String) (param : Param) :
    Forward (param.decodeScalar width mnemonic) := by
  unfold decodeScalar
  split
  -- One byte, one word, a double word, a float and a string are each read at once.
  · exact Reader.forward_u8.bind fun _ => .pure _
  · exact Reader.forward_u8.bind fun _ => .pure _
  · exact Reader.forward_u8.bind fun _ => .pure _
  · exact Reader.forward_u16.bind fun _ => .pure _
  · exact Reader.forward_u16.bind fun _ => .pure _
  · exact Reader.forward_u32.bind fun _ => .pure _
  · exact Reader.forward_u32.bind fun _ => .pure _
  · exact (Reader.forward_string _ _ _).bind fun _ => .pure _
  -- Nothing is read for a type that has no spelling.
  · exact .throw _
  · exact .throw _

/-- The arguments of a parameter are read forward. -/
theorem forward_decode (width : CharWidth) (mnemonic : String) (param : Param) :
    Forward (param.decode width mnemonic) := by
  -- A variadic parameter reads a count first, and any other its one argument.
  unfold decode
  split
  · exact param.forward_decodeVariadic
  · exact (param.forward_decodeScalar width mnemonic).bind fun _ => .pure _

end Param

/-- Arguments are read forward. -/
theorem forward_decodeParams (width : CharWidth) (mnemonic : String) (params : List Param) :
    Forward (decodeParams width mnemonic params) := by
  -- Each parameter goes on where the one before it has stopped.
  induction params with
  | nil => exact .pure _
  | cons param params ih =>
    exact (param.forward_decode width mnemonic).bind fun _ => ih.bind fun _ => .pure _

/-- The arguments of an opcode are read forward. -/
theorem Opcode.forward_decodeArgs (width : CharWidth) (opcode : Opcode) :
    Forward (opcode.decodeArgs width) := by
  -- What is popped from the stack is not read.
  unfold decodeArgs
  split
  · exact .pure _
  · exact forward_decodeParams width _ _

/-- An instruction whose arguments could not be read leaves its code behind the reader. -/
theorem decodeInstruction_position_lt {table : OpcodeTable} {width : CharWidth}
    {reader next : Reader} {opcode : Opcode} {cause : DecodeError}
    (read : decodeInstruction table width reader = .error ⟨some opcode, cause⟩ next) :
    reader.position < next.position := by
  unfold decodeInstruction at read
  split at read
  · -- Without a code there is no opcode to report.
    cases read
  · rename_i code middle readCode
    dsimp only at read
    -- The code takes a byte, and the arguments are read from behind it.
    have moved := (moves_of_decodeCode readCode).2 (table.get code) (table.get_code code)
    have front := (table.get code).size_pos
    have position := moved.position
    rw [Opcode.codeBytes_length] at position
    have back := (table.get code).forward_decodeArgs width middle
    split at read
    · rename_i readArgs
      cases read
      rw [readArgs] at back
      simp only [stateAfter] at back
      omega
    · cases read

namespace Source

/-- Code that is read from a reader on, until that is at `stop` or beyond. -/
inductive ReadsCode (source : Source) (stop : Nat) : Reader → List Instruction → Prop where
  /-- The end is reached. -/
  | done {reader : Reader} (reached : stop ≤ reader.position) : ReadsCode source stop reader []
  /-- An instruction is read, and then the others. -/
  | decoded {reader next : Reader} {instruction : Instruction} {others : List Instruction}
    (before : reader.position < stop)
    (read : decodeInstruction source.opcodes source.options.width reader = .ok instruction next)
    (rest : ReadsCode source stop next others) :
    ReadsCode source stop reader (instruction :: others)
  /-- The arguments of an opcode cannot be read, which a lenient parse passes over. -/
  | undecoded {reader next : Reader} {opcode : Opcode} {cause : DecodeError}
    {others : List Instruction} (before : reader.position < stop)
    (lenient : source.options.lenient = true)
    (read : decodeInstruction source.opcodes source.options.width reader =
      .error ⟨some opcode, cause⟩ next)
    (rest : ReadsCode source stop next others) :
    ReadsCode source stop reader (.undecoded opcode :: others)
  /-- There is no code to be read, with which a lenient parse ends the segment. -/
  | cutOff {reader next : Reader} {cause : DecodeError} (before : reader.position < stop)
    (lenient : source.options.lenient = true)
    (read : decodeInstruction source.opcodes source.options.width reader =
      .error ⟨none, cause⟩ next) :
    ReadsCode source stop reader []

/-- There are enough steps for all the code of a range. -/
theorem readsCode_of_decodeSegmentSteps {source : Source} {start stop steps : Nat}
    {reader : Reader} {instructions : List Instruction} {journal : Journal}
    (enough : stop ≤ reader.position + steps)
    (run : source.decodeSegmentSteps start stop steps reader = .ok (instructions, journal)) :
    source.ReadsCode stop reader instructions := by
  -- Each step moves the reader on by a byte at least.
  induction steps generalizing reader instructions journal with
  | zero =>
    cases run
    exact .done (by omega)
  | succ steps ih =>
    simp only [decodeSegmentSteps] at run
    split at run
    · rename_i reached
      cases run
      exact .done reached
    · rename_i before
      have before := Nat.lt_of_not_le before
      split at run
      · -- The instruction is followed by what its successors are.
        rename_i instruction next read
        obtain ⟨bytes, positive, moved⟩ := moves_of_decodeInstruction read
        have position := moved.position
        obtain ⟨⟨others, log⟩, rest, made⟩ := except_bind_eq_ok run
        cases made
        exact .decoded before read (ih (by omega) rest)
      · rename_i opcode cause next read
        -- A strict parse would have ended here.
        split at run
        · cases run
        · rename_i kept
          have lenient : source.options.lenient = true := by simpa using kept
          split at run
          · cases run
            exact .cutOff before lenient read
          · rename_i opcode
            have position := decodeInstruction_position_lt read
            obtain ⟨⟨others, log⟩, rest, made⟩ := except_bind_eq_ok run
            cases made
            exact .undecoded before lenient read (ih (by omega) rest)

/-- The code of a segment is what is read from its start until its range ends. -/
theorem readsCode_of_decodeSegment {source : Source} {start stop : Nat}
    {instructions : List Instruction} {journal : Journal} (inside : start ≤ source.bytes.length)
    (run : source.decodeSegment start stop = .ok (instructions, journal)) :
    source.ReadsCode stop ⟨start, source.bytes.drop start⟩ instructions := by
  -- The reader starts inside the script, and may go on to its end.
  simp only [decodeSegment, Reader.within, Nat.min_self, Nat.min_eq_left inside,
    List.take_length] at run
  refine readsCode_of_decodeSegmentSteps ?_ run
  dsimp only
  omega

end Source

end QuestScript
